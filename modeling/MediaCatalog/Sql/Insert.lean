import MediaCatalog.Entry.Record
import MediaCatalog.Sql.Phrase

namespace MediaCatalog

-- The columns that hold something.
def Columns.given (cs : Columns) : Columns :=
  cs.filter fun c => c.2 ≠ .null

namespace Sql

-- A new row of one of the two tables of a kind.
structure Insert where
  kind    : Kind
  owner   : Owner
  columns : Columns
  deriving DecidableEq

namespace Insert

def table (i : Insert) : String :=
  match i.owner with
  | .root        => i.kind.rootTable
  | .translation => i.kind.translationTable

def root (r : Record) : Insert :=
  ⟨r.kind, .root, r.root.given⟩

-- The translation of an entry whose number is known.
def translation (k : Kind) (id : Int) (t : LocalRecord) : Insert :=
  let place := [(k.foreignKey, Value.int id), ("language", Value.text t.language)]
  ⟨k, .translation, place ++ t.columns.given⟩

def values (i : Insert) : List Value :=
  i.columns.map (·.2)

-- One dialect tells the number of a new entry only when asked for it.
def phrase (d : Dialect) (i : Insert) : Phrase :=
  .text ("INSERT INTO " ++ i.table) :: body ++ asked
where
  body : Phrase :=
    match i.columns with
    | []      => " DEFAULT VALUES"
    | columns =>
      .text (" (" ++ String.intercalate ", " (columns.map (·.1)) ++ ") VALUES (") ::
      Phrase.listed (columns.map (·.2)) ++ [.text ")"]
  asked : Phrase :=
    if d = .postgres ∧ i.owner = .root then " RETURNING id" else []

def statement (d : Dialect) (i : Insert) : Statement :=
  (i.phrase d).statement d

-- The text of an insertion into columns of given names, which may ask for the number of the new row.
def text (d : Dialect) (table : String) (names : List String) (asks : Bool) : String :=
  let placeholders := (List.range' 1 names.length).map d.placeholder
  let inserted :=
    if names.isEmpty then "INSERT INTO " ++ table ++ " DEFAULT VALUES"
    else
      "INSERT INTO " ++ table ++ " (" ++ String.intercalate ", " names ++ ") VALUES (" ++
        String.intercalate ", " placeholders ++ ")"
  if asks then inserted ++ " RETURNING id" else inserted

-- The insertion of columns with their values.
def ofColumns (d : Dialect) (table : String) (cs : Columns) (asks : Bool) : Statement :=
  ⟨text d table (cs.map (·.1)) asks, cs.map (·.2)⟩

end Insert

end Sql

end MediaCatalog
