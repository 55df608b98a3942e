import MediaCatalog.Sql.Dialect
import MediaCatalog.Value

namespace MediaCatalog.Sql

inductive Piece
  | text (s : String)
  | bind (v : Value)
  deriving DecidableEq

-- A phrase holds its bound values at the places where their placeholders will stand, so that text and values
-- cannot come apart.
abbrev Phrase := List Piece

-- A text with placeholders, and the values for them in the order of their numbers.
structure Statement where
  text   : String
  values : List Value
  deriving DecidableEq

namespace Phrase

instance : Coe String Phrase := ⟨fun s => [.text s]⟩

def values : Phrase → List Value
  | []           => []
  | .text _ :: p => values p
  | .bind v :: p => v :: values p

-- The text of a phrase whose first placeholder has the number `n`.
def text (d : Dialect) (n : Nat) : Phrase → String
  | []           => ""
  | .text s :: p => s ++ text d n p
  | .bind _ :: p => d.placeholder n ++ text d (n + 1) p

-- The texts of phrases that stand one behind the other in a statement.
def texts (d : Dialect) (n : Nat) : List Phrase → List String
  | []      => []
  | p :: ps => text d n p :: texts d (n + p.values.length) ps

-- The phrases one after the other, with a separator between.
def joined (sep : String) : List Phrase → Phrase
  | []      => []
  | [p]     => p
  | p :: ps => p ++ .text sep :: joined sep ps

-- Values with commas between.
def listed (vs : List Value) : Phrase :=
  joined ", " (vs.map fun v => [.bind v])

def statement (d : Dialect) (p : Phrase) : Statement :=
  ⟨p.text d 1, p.values⟩

end Phrase

end MediaCatalog.Sql
