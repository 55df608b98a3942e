namespace MediaCatalog.Text.Utf8

-- Between two characters, or within one: the value so far, how many bytes are owed, and the bounds of
-- the next byte.
inductive State
  | start
  | within (value owed : Nat) (low high : Nat)

-- A character, unless the value is none of a character.
def char (value : Nat) : List (Option Char) :=
  if value.isValidChar then [some (.ofNat value)] else [none]

-- What the first byte of a character yields, and the state after it.
def first (b : Nat) : List (Option Char) × State :=
  if b < 0x80 then (char b, .start)
  else if b < 0xC2 then ([none], .start)
  else if b < 0xE0 then ([], .within (b - 0xC0) 1 0x80 0xBF)
  else if b = 0xE0 then ([], .within 0 2 0xA0 0xBF)
  else if b = 0xED then ([], .within 0xD 2 0x80 0x9F)
  else if b < 0xF0 then ([], .within (b - 0xE0) 2 0x80 0xBF)
  else if b = 0xF0 then ([], .within 0 3 0x90 0xBF)
  else if b < 0xF4 then ([], .within (b - 0xF0) 3 0x80 0xBF)
  else if b = 0xF4 then ([], .within 4 3 0x80 0x8F)
  else ([none], .start)

-- The same for a byte in any state. A byte that does not go on with a character begins a new one.
def next (b : Nat) : State → List (Option Char) × State
  | .start                        => first b
  | .within value owed low high =>
    if low ≤ b ∧ b ≤ high then
      let value := value * 0x40 + (b - 0x80)
      if owed ≤ 1 then (char value, .start) else ([], .within value (owed - 1) 0x80 0xBF)
    else
      let (out, state) := first b
      (none :: out, state)

-- The characters and faults of a byte sequence.
def chars (bytes : List UInt8) : List (Option Char) :=
  go .start bytes
where
  go : State → List UInt8 → List (Option Char)
    | .start,     []      => []
    | .within .., []      => [none]
    | state,      b :: bs =>
      let (out, state) := next b.toNat state
      out ++ go state bs

-- The text of a byte sequence without faults.
def decode? (bytes : List UInt8) : Option String :=
  ((chars bytes).mapM fun c => c).map .ofList

-- The text of a byte sequence with a replacement character for each fault.
def decode (bytes : List UInt8) : String :=
  .ofList ((chars bytes).map (·.getD '\uFFFD'))

def encode (s : String) : List UInt8 :=
  s.toList.flatMap String.utf8EncodeChar

end MediaCatalog.Text.Utf8
