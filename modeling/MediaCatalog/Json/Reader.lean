import MediaCatalog.Json

namespace MediaCatalog.Json

-- What a reader leaves unread.
abbrev Rest := List Char

def isSpace (c : Char) : Bool :=
  c == ' ' || c == '\n' || c == '\r' || c == '\t'

def skip (cs : List Char) : List Char :=
  cs.dropWhile isSpace

def escapee? : Char → Option Char
  | '"'  => some '"'
  | '\\' => some '\\'
  | '/'  => some '/'
  | 'b'  => some '\x08'
  | 'f'  => some '\x0c'
  | 'n'  => some '\n'
  | 'r'  => some '\r'
  | 't'  => some '\t'
  | _    => none

def isHighSurrogate (n : Nat) : Bool :=
  0xD800 ≤ n && n < 0xDC00

def isLowSurrogate (n : Nat) : Bool :=
  0xDC00 ≤ n && n < 0xE000

def ofSurrogates (high low : Nat) : Char :=
  .ofNat (0x10000 + (high - 0xD800) * 0x400 + (low - 0xDC00))

-- The characters up to the closing quote. Surrogates come in pairs only.
def stringEnd? : List Char → Option (List Char × Rest)
  | []               => none
  | '"' :: cs        => some ([], cs)
  | '\\' :: 'u' :: a :: b :: c :: d :: '\\' :: 'u' :: e :: f :: g :: h :: cs => do
    let n ← Text.digitsIn? 16 [a, b, c, d]
    if isLowSurrogate n then none
    else if isHighSurrogate n then
      let m ← Text.digitsIn? 16 [e, f, g, h]
      if isLowSurrogate m then
        let (s, rest) ← stringEnd? cs
        some (ofSurrogates n m :: s, rest)
      else none
    else
      let (s, rest) ← stringEnd? ('\\' :: 'u' :: e :: f :: g :: h :: cs)
      some (.ofNat n :: s, rest)
  | '\\' :: 'u' :: a :: b :: c :: d :: cs => do
    let n ← Text.digitsIn? 16 [a, b, c, d]
    if isLowSurrogate n || isHighSurrogate n then none
    else
      let (s, rest) ← stringEnd? cs
      some (.ofNat n :: s, rest)
  | '\\' :: c :: cs  => do
    let c ← escapee? c
    let (s, rest) ← stringEnd? cs
    some (c :: s, rest)
  | c :: cs          =>
    if c.toNat < 0x20 then none
    else (stringEnd? cs).map fun (s, rest) => (c :: s, rest)

-- The least number that rounds to infinity.
def overflow : Nat := Nat.pow 2 1024 - Nat.pow 2 970

-- Whether a number with the given digits, times a power of ten, stays in range. Powers are computed
-- only where the count of digits does not decide.
def isInRange (digits : List Char) (exponent : Int) : Bool :=
  let ds := digits.dropWhile (· == '0')
  let size := ds.length + exponent
  if ds.isEmpty || size < 309 then true
  else if size > 309 then false
  else
    let n := Nat.ofDigitChars 10 ds 0
    if 0 ≤ exponent then n * Nat.pow 10 exponent.toNat < overflow
    else n < overflow * Nat.pow 10 (-exponent).toNat

def digits? (cs : List Char) : Option (List Char × Rest) :=
  let ds := cs.takeWhile Char.isDigit
  if ds.isEmpty then none else some (ds, cs.dropWhile Char.isDigit)

def fraction? : List Char → Option (List Char × Rest)
  | '.' :: cs => digits? cs
  | cs        => some ([], cs)

def exponent? : List Char → Option (Option Int × Rest)
  | c :: cs =>
    if c = 'e' ∨ c = 'E' then
      match cs with
      | '-' :: cs => (digits? cs).map fun (ds, rest) => (some (-Nat.ofDigitChars 10 ds 0), rest)
      | '+' :: cs => (digits? cs).map fun (ds, rest) => (some (Nat.ofDigitChars 10 ds 0), rest)
      | cs        => (digits? cs).map fun (ds, rest) => (some (Nat.ofDigitChars 10 ds 0), rest)
    else some (none, c :: cs)
  | []      => some (none, [])

-- A number whose sign has been read. Zero has an integer of its own without a sign only.
def unsigned? (negative : Bool) (cs : List Char) : Option (Json × Rest) := do
  let (whole, rest) ← digits? cs
  if whole.length > 1 && whole.head? == some '0' then none
  let (fraction, rest) ← fraction? rest
  let (exponent, rest) ← exponent? rest
  let n := Nat.ofDigitChars 10 whole 0
  let value : Int := if negative then -n else n
  if fraction.isEmpty && exponent.isNone && Int64.minValue.toInt ≤ value && value < UInt64.size
      && !(negative && n == 0) then
    some (int value, rest)
  else if isInRange (whole ++ fraction) (exponent.getD 0 - fraction.length) then
    let written := cs.take (cs.length - rest.length)
    some (real (.ofList (if negative then '-' :: written else written)), rest)
  else none

def number? : List Char → Option (Json × Rest)
  | '-' :: cs => unsigned? true cs
  | cs        => unsigned? false cs

def keyword? (word : String) (j : Json) (cs : List Char) : Option (Json × Rest) :=
  (word.toList.isPrefixOf? cs).map (j, ·)

-- A value that holds no other values.
def atom? : List Char → Option (Json × Rest)
  | 'n' :: cs => keyword? "ull" null cs
  | 't' :: cs => keyword? "rue" (bool true) cs
  | 'f' :: cs => keyword? "alse" (bool false) cs
  | '"' :: cs => (stringEnd? cs).map fun (s, rest) => (str (.ofList s), rest)
  | cs        => number? cs

section Sequence

variable {α : Type} (close : Char) (item? : List Char → Option (α × Rest))

-- At least one item; each has a character of its own, so that the count of characters is enough fuel.
def items? : (fuel : Nat) → List Char → Option (List α × Rest)
  | 0,        _  => none
  | fuel + 1, cs => do
    let (x, rest) ← item? (skip cs)
    match skip rest with
    | [] => none
    | c :: rest =>
      if c = close then some ([x], rest)
      else if c = ',' then (items? fuel rest).map fun (xs, rest) => (x :: xs, rest)
      else none

-- Items with commas between, up to the closing character.
def sequence? (cs : List Char) : Option (List α × Rest) :=
  match skip cs with
  | []        => none
  | c :: rest => if c = close then some ([], rest) else items? close item? cs.length (c :: rest)

end Sequence

-- A key, a colon and a value.
def member? (value? : List Char → Option (Json × Rest)) :
    List Char → Option ((String × Json) × Rest)
  | '"' :: cs => do
    let (key, rest) ← stringEnd? cs
    match skip rest with
    | ':' :: rest => (value? (skip rest)).map fun (j, rest) => ((.ofList key, j), rest)
    | _           => none
  | _         => none

-- A value with arrays and objects nested no deeper than `depth`.
def value? : (depth : Nat) → List Char → Option (Json × Rest)
  | depth + 1, '[' :: cs    =>
    (sequence? ']' (value? depth) cs).map fun (js, rest) => (arr js, rest)
  | depth + 1, '\x7b' :: cs =>
    (sequence? '\x7d' (member? (value? depth)) cs).map fun (ms, rest) => (obj ms, rest)
  | _,         cs           => atom? cs

def maxDepth : Nat := 127

-- All of the text has to be one value.
def read? (s : String) : Option Json := do
  let (j, rest) ← value? maxDepth (skip s.toList)
  if (skip rest).isEmpty then some j else none

end MediaCatalog.Json
