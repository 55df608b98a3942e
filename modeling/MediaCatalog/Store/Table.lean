import MediaCatalog.Search
import MediaCatalog.Sql.Insert

namespace MediaCatalog

open Sql

structure StoredRow (κ : Type) where
  id      : Int
  columns : List (String × κ)
  deriving DecidableEq

-- The columns of a new row in the form in which they are held.
def Sql.Insert.held {κ : Type} (e : Engine κ) (i : Insert) : List (String × κ) :=
  i.columns.map fun (c, v) => (c, e.store v)

-- The two tables of a kind. Rows stand in the order of their insertion.
structure Tables (κ : Type) where
  roots        : List (StoredRow κ)
  translations : List (StoredRow κ)
  deriving DecidableEq

-- An entry together with one of its translations.
structure JoinedRow (κ : Type) where
  root        : StoredRow κ
  translation : StoredRow κ

namespace Sql.Engine

variable {κ : Type} (e : Engine κ)

def isNull (c : κ) : Bool :=
  (e.compare? c c).isNone

-- The order of values by which rows are sorted: null comes before everything else, or behind it.
def order (a b : κ) : Ordering :=
  match e.compare? a b with
  | some o => o
  | none   =>
    let first := compare (!e.isNull a) (!e.isNull b)
    if e.nullsFirst then first else first.swap

-- The value of a group of rows by which the group is sorted; nulls do not count.
def extreme (d : Direction) (cs : List κ) : κ :=
  (cs.filter (!e.isNull ·)).foldl choose (e.store .null)
where
  choose (a b : κ) : κ :=
    if e.isNull a then b
    else
      match d, e.order a b with
      | .ascending,  .gt => b
      | .descending, .lt => b
      | _,           _   => a

end Sql.Engine

namespace StoredRow

variable {κ : Type} (e : Engine κ)

-- The value of a column; a column that was not given holds nothing.
def get (r : StoredRow κ) (column : String) : κ :=
  if column = "id" then e.store (.int r.id) else (r.columns.lookup column).getD (e.store .null)

-- What a field shows of a row.
def shown (r : StoredRow κ) (fields : List Field) : Dictionary Json :=
  .ofList (fields.map fun f => (f.name, e.load f.type (r.get e f.column)))

end StoredRow

namespace JoinedRow

variable {κ : Type} (e : Engine κ)

def get (j : JoinedRow κ) (c : Column) : κ :=
  match c.owner with
  | .root        => j.root.get e c.name
  | .translation => j.translation.get e c.name

def language (j : JoinedRow κ) : String :=
  ((e.load .text (j.get e Column.language)).str?).getD ""

-- The row as it is shown under a schema.
def row (s : Schema) (j : JoinedRow κ) : Row where
  id := j.root.id
  attributes := j.root.shown e s.rootFields
  language := j.language e
  translation := j.translation.shown e s.translationFields

end JoinedRow

namespace Tables

variable {κ : Type}

def empty : Tables κ :=
  ⟨[], []⟩

instance : EmptyCollection (Tables κ) := ⟨empty⟩

def rows (t : Tables κ) : Owner → List (StoredRow κ)
  | .root        => t.roots
  | .translation => t.translations

-- The number after the last one that was given out. Rows are numbered from one and are never deleted.
def nextId (t : Tables κ) (o : Owner) : Int :=
  ((t.rows o).map (·.id)).foldl max 0 + 1

-- Adds a row at the end of a table.
def add (t : Tables κ) (o : Owner) (row : StoredRow κ) : Tables κ :=
  match o with
  | .root        => { t with roots := t.roots ++ [row] }
  | .translation => { t with translations := t.translations ++ [row] }

variable (e : Engine κ)

def insert (t : Tables κ) (i : Insert) : Tables κ :=
  t.add i.owner ⟨t.nextId i.owner, i.held e⟩

-- Every entry joined with each of its translations.
def joined (k : Kind) (t : Tables κ) : List (JoinedRow κ) :=
  t.roots.flatMap fun r =>
    (t.translations.filter fun u =>
      e.compare? (u.get e k.foreignKey) (e.store (.int r.id)) == some .eq).map (⟨r, ·⟩)

-- The joined rows that a predicate holds of.
def selected (k : Kind) (p : Predicate) (t : Tables κ) : List (JoinedRow κ) :=
  (t.joined e k).filter fun j => p.holds e (j.get e)

-- Why the engine refuses a statement on the rows of a predicate: for the values that it binds, for the predicate
-- itself or when the rows are tested. Some values may be bound behind those of the predicate, which are the same
-- ones in each dialect.
def excess? (k : Kind) (p : Predicate) (more : List Value) (t : Tables κ) : Option Excess :=
  (e.excess? (p.values .sqlite ++ more)).or (tooDeep.or onRows)
where
  tooDeep : Option Excess :=
    (e.limits.depth.filter (· < p.depth)).map .depth
  onRows : Option Excess :=
    if (t.joined e k).any fun j => p.isRefused e (j.get e) then some .pattern else none

-- The numbers of the entries that have joined rows among the given ones.
def ids (js : List (JoinedRow κ)) : List Int :=
  (js.map (·.root.id)).eraseDups

def count (c : Count) (t : Tables κ) : Nat :=
  (ids (t.selected e c.kind c.condition)).length

-- How two entries compare, when they are made up of the given rows.
def compareEntries (order : List OrderTerm) (js : List (JoinedRow κ)) (a b : Int) : Ordering :=
  match order with
  | []      => compare a b
  | t :: ts =>
    let value := fun id => e.extreme t.direction ((js.filter (·.root.id = id)).map (·.get e t.column))
    let first :=
      match t.direction with
      | .ascending  => e.order (value a) (value b)
      | .descending => e.order (value b) (value a)
    first.then (compareEntries ts js a b)

def window (w : Window) (t : Tables κ) : List Int :=
  let js := t.selected e w.kind w.condition
  let sorted := (ids js).mergeSort fun a b => (compareEntries e w.order js a b).isLE
  (sorted.drop w.offset.toNatClampNeg).take w.limit.toNatClampNeg

-- The rows that are shown, by entry and then by language.
def projection (p : Projection) (t : Tables κ) : List Row :=
  let js := t.selected e p.schema.kind p.condition
  let sorted := js.mergeSort fun a b =>
    ((compare a.root.id b.root.id).then
      (e.order (a.get e Column.language) (b.get e Column.language))).isLE
  sorted.map (JoinedRow.row e p.schema)

end Tables

end MediaCatalog
