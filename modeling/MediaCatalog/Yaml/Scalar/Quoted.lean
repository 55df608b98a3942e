import MediaCatalog.Text.Number
import MediaCatalog.Yaml.Scalar.Plain

namespace MediaCatalog.Yaml.Quoted

-- How the part of a scalar in one line ends: with the closing quote, with the line, or with a line break
-- that does not count.
inductive Ending
  | closed (rest : List Char)
  | broken
  | joined

-- What a backslash and a letter stand for.
def escapee? : Char → Option Char
  | '0'  => some '\x00'
  | 'a'  => some '\x07'
  | 'b'  => some '\x08'
  | 't'  => some '\t'
  | '\t' => some '\t'
  | 'n'  => some '\n'
  | 'v'  => some '\x0b'
  | 'f'  => some '\x0c'
  | 'r'  => some '\r'
  | 'e'  => some '\x1b'
  | ' '  => some ' '
  | '"'  => some '"'
  | '/'  => some '/'
  | '\\' => some '\\'
  | 'N'  => some '\x85'
  | '_'  => some '\xa0'
  | 'L'  => some '\u2028'
  | 'P'  => some '\u2029'
  | _    => none

-- The character with a number that is written in hexadecimal digits.
def ofCode? (digits : List Char) : Option Char := do
  let n ← Text.digitsIn? 16 digits
  if n.isValidChar then some (.ofNat n) else none

-- Whether only blanks are left in a line; they are no part of the text.
def isSpent (c : Char) (cs : List Char) : Bool :=
  isBlank c && cs.all isBlank

-- The part in one line of a scalar in double quotes.
def double? : List Char → Option (List Char × Ending)
  | []                                             => some ([], .broken)
  | '"' :: cs                                      => some ([], .closed cs)
  | ['\\']                                         => some ([], .joined)
  | '\\' :: 'x' :: a :: b :: cs                    => put (ofCode? [a, b]) (double? cs)
  | '\\' :: 'u' :: a :: b :: c :: d :: cs          => put (ofCode? [a, b, c, d]) (double? cs)
  | '\\' :: 'U' :: a :: b :: c :: d :: e :: f :: g :: h :: cs =>
    put (ofCode? [a, b, c, d, e, f, g, h]) (double? cs)
  | '\\' :: c :: cs                                => put (escapee? c) (double? cs)
  | c :: cs                                        =>
    if isSpent c cs then some ([], .broken) else put (some c) (double? cs)
where
  put (c : Option Char) (part : Option (List Char × Ending)) : Option (List Char × Ending) := do
    let c ← c
    let (text, ending) ← part
    some (c :: text, ending)

-- The part in one line of a scalar in single quotes, where a quote is written twice.
def single : List Char → List Char × Ending
  | []                 => ([], .broken)
  | '\'' :: '\'' :: cs => put '\'' (single cs)
  | '\'' :: cs         => ([], .closed cs)
  | c :: cs            => if isSpent c cs then ([], .broken) else put c (single cs)
where
  put (c : Char) : List Char × Ending → List Char × Ending
    | (text, ending) => (c :: text, ending)

def part? (quote : Char) (cs : List Char) : Option (List Char × Ending) :=
  if quote = '"' then double? cs else some (single cs)

-- Goes on with a scalar, from the end of a line on, with the line breaks since its last line with text. The
-- first of them may be escaped.
def goOn? (quote : Char) (isJoined : Bool) (breaks : List Char) (p : Place) :
    List Line → Option (List Char × Place)
  | []      => none
  | l :: ls => do
    let q := (p.inLine l ls).dropWhile isBlank
    let breaks := breaks ++ [l.opening]
    if q.line.isEmpty then goOn? quote isJoined breaks q ls
    else if q.isMarker then none
    else
      let joint := if isJoined then breaks.drop 1 else fold breaks
      let (part, ending) ← part? quote q.line
      match ending with
      | .closed rest => some (joint ++ part, q.dropTo rest)
      | .broken      => (goOn? quote false [] q ls).map fun (text, r) => (joint ++ part ++ text, r)
      | .joined      => (goOn? quote true [] q ls).map fun (text, r) => (joint ++ part ++ text, r)

-- A scalar from its opening quote on.
def read? (quote : Char) (p : Place) : Option (List Char × Place) := do
  let p := p.drop 1
  let (part, ending) ← part? quote p.line
  match ending with
  | .closed rest => some (part, p.dropTo rest)
  | .broken      => (goOn? quote false [] p p.below).map fun (text, q) => (part ++ text, q)
  | .joined      => (goOn? quote true [] p p.below).map fun (text, q) => (part ++ text, q)

end MediaCatalog.Yaml.Quoted
