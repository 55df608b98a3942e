import MediaCatalog.Sql.Definition
import MediaCatalog.Store.Table

namespace MediaCatalog

open Sql

-- What a table demands of a row that is to be added.
inductive Constraint
  | notNull (column : String)
  | byteRange (column : String)
  -- No other row has the same values in all of the columns.
  | unique (columns : List String)
  -- The column holds the number of a root row.
  | reference (column : String)
  deriving DecidableEq, Repr

namespace Constraint

def message (table : String) : Constraint → String
  | notNull c   => "(code: 1299) NOT NULL constraint failed: " ++ table ++ "." ++ c
  | byteRange c =>
    "(code: 275) CHECK constraint failed: " ++ c ++ " IS NULL OR " ++ c ++ " BETWEEN -128 AND 127"
  | unique cs   =>
    "(code: 2067) UNIQUE constraint failed: " ++
      String.intercalate ", " (cs.map fun c => table ++ "." ++ c)
  | reference _ => "(code: 787) FOREIGN KEY constraint failed"

-- The constraints of a table, in the order in which they are looked at.
def all (s : Schema) : Owner → List Constraint
  | .root        => ofFields s.rootFields
  | .translation =>
    let key := s.kind.foreignKey
    [notNull key, notNull "language"] ++ ofFields s.translationFields ++
      [unique [key, "language"], reference key]
where
  ofFields (fs : List Field) : List Constraint :=
    (fs.filter (Definition.column.isRequired .sqlite)).map (notNull ·.column) ++
      (fs.filter (·.type = .byte)).map (byteRange ·.column)

variable {κ : Type} (e : Engine κ)

-- Whether a row of a table keeps to a constraint, given the rows that are there already.
def admits (t : Tables κ) (o : Owner) (row : StoredRow κ) : Constraint → Bool
  | notNull c   => !e.isNull (row.get e c)
  | byteRange c =>
    e.isNull (row.get e c) ||
      (e.compare? (row.get e c) (e.store (.int (-128)))).any Ordering.isGE &&
        (e.compare? (row.get e c) (e.store (.int 127))).any Ordering.isLE
  | unique cs   => !(t.rows o).any fun r => cs.all fun c => isSame (r.get e c) (row.get e c)
  | reference c => t.roots.any fun r => isSame (row.get e c) (e.store (.int r.id))
where
  isSame (a b : κ) : Bool :=
    e.compare? a b == some .eq

end Constraint

-- The first constraint that an insertion would break.
def Tables.broken? {κ : Type} (e : Engine κ) (t : Tables κ) (i : Insert) : Option Constraint :=
  (Constraint.all (Schema.registered i.kind) i.owner).find? fun c =>
    !c.admits e t i.owner ⟨t.nextId i.owner, i.held e⟩

-- What keeps a row from being stored, if anything.
def Tables.hindrance? {κ : Type} (e : Engine κ) (t : Tables κ) (i : Insert) : Option String :=
  ((e.excess? i.values).map (·.message)).or ((t.broken? e i).map (·.message i.table))

end MediaCatalog
