import MediaCatalog.Dictionary
import MediaCatalog.Text.Number

namespace MediaCatalog

-- A number is an integer if it has neither fraction nor exponent and fits 64 bits with or without a
-- sign. Any other number is kept as it was written.
inductive Json
  | null
  | bool (b : Bool)
  | int (n : Int)
  | real (literal : String)
  | str (s : String)
  | arr (items : List Json)
  | obj (members : List (String × Json))
  deriving Inhabited

namespace Json

def isNull : Json → Bool
  | null => true
  | _    => false

def int? : Json → Option Int
  | int n => some n
  | _     => none

-- An integer that fits 64 bits with a sign.
def int64? : Json → Option Int
  | int n => if Int64.minValue.toInt ≤ n ∧ n ≤ Int64.maxValue.toInt then some n else none
  | _     => none

def str? : Json → Option String
  | str s => some s
  | _     => none

def arr? : Json → Option (List Json)
  | arr items => some items
  | _         => none

def obj? : Json → Option (List (String × Json))
  | obj members => some members
  | _           => none

def strs (items : List String) : Json :=
  arr (items.map str)

mutual

-- Ascending keys, each once, in every object.
def canonical : Json → Json
  | arr items   => arr (canonicalItems items)
  | obj members => obj (Dictionary.ofList (canonicalMembers members)).entries
  | null        => null
  | bool b      => bool b
  | int n       => int n
  | real l      => real l
  | str s       => str s

def canonicalItems : List Json → List Json
  | []      => []
  | j :: js => canonical j :: canonicalItems js

def canonicalMembers : List (String × Json) → List (String × Json)
  | []           => []
  | (k, j) :: ms => (k, canonical j) :: canonicalMembers ms

end

def hexDigit (n : Nat) : Char :=
  (Nat.toDigits 16 n).headD '0'

-- A character inside quotes.
def escaped (c : Char) : List Char :=
  if c = '"' then ['\\', '"']
  else if c = '\\' then ['\\', '\\']
  else if c = '\n' then ['\\', 'n']
  else if c = '\r' then ['\\', 'r']
  else if c = '\t' then ['\\', 't']
  else if c = '\x08' then ['\\', 'b']
  else if c = '\x0c' then ['\\', 'f']
  else if c.toNat < 0x20 then ['\\', 'u', '0', '0', hexDigit (c.toNat / 16), hexDigit (c.toNat % 16)]
  else [c]

def quoted (s : String) : List Char :=
  '"' :: s.toList.flatMap escaped ++ ['"']

mutual

def chars : Json → List Char
  | null        => "null".toList
  | bool true   => "true".toList
  | bool false  => "false".toList
  | int n       => Text.decimalChars n
  | real l      => l.toList
  | str s       => quoted s
  | arr items   => '[' :: itemChars true items
  | obj members => '\x7b' :: memberChars true members

-- The items with commas between, and the closing bracket.
def itemChars (first : Bool) : List Json → List Char
  | []      => [']']
  | j :: js => (if first then [] else [',']) ++ chars j ++ itemChars false js

def memberChars (first : Bool) : List (String × Json) → List Char
  | []           => ['\x7d']
  | (k, j) :: ms => (if first then [] else [',']) ++ quoted k ++ ':' :: chars j ++ memberChars false ms

end

-- The text without any blanks between its parts.
def text (j : Json) : String :=
  .ofList j.chars

end Json

end MediaCatalog
