import MediaCatalog.Json
import MediaCatalog.Json.Reader
import MediaCatalog.Schema
import MediaCatalog.Sql.Like
import MediaCatalog.Value

namespace MediaCatalog.Sql

-- What an engine takes at most. All but the number of values may have no limit.
structure Limits where
  -- The most values that a statement may bind.
  values  : Nat
  -- The most bytes that a pattern may have.
  pattern : Option Nat
  -- The most levels that an expression may have.
  depth   : Option Nat
  -- The most terms that an order may have.
  order   : Option Nat
  -- The least offset that a window may have.
  offset  : Option Int

-- Why an engine refuses a statement.
inductive Excess
  | values (limit : Nat)
  -- A value of a kind that the engine does not have.
  | value (v : Value)
  | pattern
  | depth (limit : Nat)
  | order
  | offset
  deriving DecidableEq

namespace Excess

def message : Excess → String
  | values limit   =>
    "(code: 1) variable number must be between ?1 and ?" ++ Text.decimalNat limit
  | value (.date _) => "date out of range"
  | value _        => "invalid byte sequence for encoding \"UTF8\": 0x00"
  | pattern        => "(code: 1) LIKE or GLOB pattern too complex"
  | depth limit    =>
    "(code: 1) Expression tree is too large (maximum depth " ++ Text.decimalNat limit ++ ")"
  | order          => "(code: 1) too many terms in ORDER BY clause"
  | offset         => "OFFSET must not be negative"

end Excess

-- How a database holds values and what it makes of them. All else about conditions and tables is the same for
-- every engine.
structure Engine (κ : Type) where
  -- Whether there are such values at all, so that they can be bound.
  takes      : Value → Bool
  -- The form in which a bound value is held.
  store      : Value → κ
  -- What a column of a field's type shows to clients.
  load       : FieldType → κ → Json
  -- The order of two values, unless one of them is null.
  compare?   : κ → κ → Option Ordering
  -- Whether null comes before all other values when rows are sorted, or behind them.
  nullsFirst : Bool
  -- The text of a value, unless it is null.
  text?      : κ → Option String
  -- The elements of a list; null has none.
  elements   : κ → List String
  -- Whether a text is like a pattern.
  like       : (pattern text : String) → Bool
  limits     : Limits

namespace Engine

-- What an engine has against the values that a statement binds, if anything.
def excess? {κ : Type} (e : Engine κ) (vs : List Value) : Option Excess :=
  if e.limits.values < vs.length then some (.values e.limits.values)
  else (vs.find? (!e.takes ·)).map .value

-- What is held for a value that SQLite stores: lists are JSON text, and dates are text as well.
inductive Cell
  | null
  | int (n : Int)
  | text (s : String)
  deriving DecidableEq, Repr

namespace Cell

def ofValue : Value → Cell
  | .null   => null
  | .text s => text s
  | .int n  => int n
  | .date d => text d.text
  | .list l => text (Json.strs l).text

-- The texts of a list that is held as JSON.
def elements : Cell → List String
  | text s => (((Json.read? s).bind Json.arr?).getD []).filterMap Json.str?
  | _      => []

def load : FieldType → Cell → Json
  | .integer,  int n  => .int n
  | .byte,     int n  => .int n
  | .text,     text s => .str s
  | .date,     text s => .str s
  | .textList, text s => (Json.read? s).getD .null
  | _,         _      => .null

-- Numbers come before texts, which are in byte order.
def compare? : Cell → Cell → Option Ordering
  | null,   _      => none
  | _,      null   => none
  | int m,  int n  => some (compare m n)
  | int _,  text _ => some .lt
  | text _, int _  => some .gt
  | text s, text t => some (compare s t)

def text? : Cell → Option String
  | null   => none
  | int n  => some (Text.decimal n)
  | text s => some s

end Cell

-- What comes before the first NUL character.
def beforeNul (s : String) : List Char :=
  s.toList.takeWhile (· ≠ '\x00')

-- What LIKE reads a character as. The last two characters of the first plane are none to it, and count as the
-- one that stands for what cannot be read; ASCII letters are not told apart by case.
def seen (c : Char) : Char :=
  if c = '\uFFFE' ∨ c = '\uFFFF' then '\uFFFD' else c.toLower

def seenAlike (c d : Char) : Bool :=
  seen c == seen d

-- LIKE sees a text up to its first NUL character only.
def sqlite : Engine Cell where
  takes _ := true
  store := Cell.ofValue
  load := Cell.load
  compare? := Cell.compare?
  nullsFirst := true
  text? := Cell.text?
  elements := Cell.elements
  like pattern text := Like.matchesText seenAlike (beforeNul pattern) (beforeNul text)
  limits := ⟨32766, some 50000, some 1000, some 2000, none⟩

-- The first day that PostgreSQL has, in the year 4714 before Christ.
def firstDay : Date := ⟨-4713, 11, 24, by decide⟩

-- PostgreSQL has no text with a NUL character and no date before its first day.
def isHad : Value → Bool
  | .text s => !s.toList.contains '\x00'
  | .date d => (compare firstDay d).isLE
  | .list l => l.all fun s => !s.toList.contains '\x00'
  | _       => true

-- A database whose columns have the types of the fields, so that values are held as they are. Texts are taken to be
-- sorted by their characters, as they are under the collation C; under another one they may be sorted otherwise. Its
-- indexes are taken to have room for texts of any length.
def postgres : Engine Value where
  takes := isHad
  store v := v
  load
    | .integer,  .int n  => .int n
    | .byte,     .int n  => .int n
    | .text,     .text s => .str s
    | .date,     .date d => .str d.text
    | .textList, .list l => Json.strs l
    | _,         _       => .null
  compare?
    | .text s, .text t => some (compare s t)
    | .int m,  .int n  => some (compare m n)
    | .date d, .date e => some (compare d e)
    | _,       _       => none
  nullsFirst := false
  text?
    | .text s => some s
    | .int n  => some (Text.decimal n)
    | .date d => some d.castText
    | _       => none
  elements
    | .list l => l
    | _       => []
  like pattern text := Like.matchesText (· == ·) pattern.toList text.toList
  limits := ⟨65535, none, none, none, some 0⟩

end Engine

end MediaCatalog.Sql
