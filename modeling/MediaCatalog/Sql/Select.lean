import MediaCatalog.Page
import MediaCatalog.Sql.Condition

namespace MediaCatalog.Sql

-- The entries of a kind, each joined with its translations.
def source (k : Kind) : String :=
  k.rootTable ++ " r INNER JOIN " ++ k.translationTable ++ " t ON t." ++ k.foreignKey ++ " = r.id"

structure Count where
  kind      : Kind
  condition : Predicate
  deriving DecidableEq

-- An entry stands where the least of its rows stands, or the greatest when the order descends.
structure OrderTerm where
  column    : Column
  direction : Direction
  deriving DecidableEq

structure Window where
  kind      : Kind
  condition : Predicate
  order     : List OrderTerm
  limit     : Int64
  offset    : Int64
  deriving DecidableEq

structure Projection where
  schema    : Schema
  condition : Predicate
  deriving DecidableEq

namespace Count

def phrase (d : Dialect) (c : Count) : Phrase :=
  .text ("SELECT COUNT(DISTINCT r.id) FROM " ++ source c.kind ++ " WHERE ") :: c.condition.phrase d

def statement (d : Dialect) (c : Count) : Statement :=
  (c.phrase d).statement d

end Count

namespace OrderTerm

-- Only a field with one value per row can be sorted by.
def ofKey (s : Schema) (k : SortKey) : Except Fault OrderTerm :=
  match s.find? k.field with
  | some f =>
    if f.isSortable then pure ⟨Column.ofField f, k.direction⟩ else throw (.invalidSortField k.field)
  | none   => throw (.invalidSortField k.field)

-- The terms of sort parameters. All keys are read before the first field is looked up.
def ofParameters (s : Schema) (parameters : List String) : Except Fault (List OrderTerm) := do
  (← SortKey.readAll parameters).mapM (ofKey s)

def text (t : OrderTerm) : String :=
  match t.direction with
  | .ascending  => "MIN(" ++ t.column.text ++ ") ASC"
  | .descending => "MAX(" ++ t.column.text ++ ") DESC"

-- The number of an entry decides between entries that are equal in all terms.
def orderText (order : List OrderTerm) : String :=
  String.intercalate ", " (order.map text ++ ["r.id ASC"])

end OrderTerm

namespace Window

def phrase (d : Dialect) (w : Window) : Phrase :=
  .text ("SELECT r.id FROM " ++ source w.kind ++ " WHERE ") :: w.condition.phrase d ++
  [.text (" GROUP BY r.id ORDER BY " ++ OrderTerm.orderText w.order ++ " LIMIT "),
    .bind (.int w.limit.toInt), .text " OFFSET ", .bind (.int w.offset.toInt)]

-- The values that are bound behind those of the predicate.
def bounds (w : Window) : List Value :=
  [.int w.limit.toInt, .int w.offset.toInt]

-- Why an engine refuses a window, whatever its predicate is. The number of the entry is one more term of the order.
def excess? {κ : Type} (e : Engine κ) (w : Window) : Option Excess :=
  if e.limits.order.any (· < w.order.length + 1) then some .order
  else if e.limits.offset.any (w.offset.toInt < ·) then some .offset
  else none

def statement (d : Dialect) (w : Window) : Statement :=
  (w.phrase d).statement d

end Window

namespace Projection

def columns (p : Projection) : List Column :=
  Column.id :: p.schema.rootFields.map Column.ofField ++
    Column.language :: p.schema.translationFields.map Column.ofField

def phrase (d : Dialect) (p : Projection) : Phrase :=
  let shown := String.intercalate ", " (p.columns.map fun c => c.text ++ " AS " ++ c.name)
  .text ("SELECT " ++ shown ++ " FROM " ++ source p.schema.kind ++ " WHERE ") :: p.condition.phrase d ++
  [.text " ORDER BY r.id ASC, t.language ASC"]

def statement (d : Dialect) (p : Projection) : Statement :=
  (p.phrase d).statement d

end Projection

end MediaCatalog.Sql
