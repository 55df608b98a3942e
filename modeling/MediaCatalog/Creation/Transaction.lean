import MediaCatalog.Creation

namespace MediaCatalog

open Sql

-- What a transaction is asked to do, by what it answers with.
inductive Command : Type → Type
  | start : Command Unit
  | insertRoot (table : String) (s : Statement) : Command Int
  | insertTranslation (table : String) (s : Statement) : Command Unit
  | commit : Command Unit

-- What carries out commands one after the other.
structure Transaction (σ : Type) where
  run {β : Type} (c : Command β) : Run σ β

namespace Transaction

variable {σ : Type}

-- Insertions are carried out as statements of a dialect.
def writer (d : Dialect) (t : Transaction σ) (rollback : σ → σ) : Writer σ where
  start := t.run .start
  insertRoot i := t.run (.insertRoot i.table (i.statement d))
  insertTranslation i := t.run (.insertTranslation i.table (i.statement d))
  commit := t.run .commit
  rollback := rollback

end Transaction

namespace Record

-- The names and the values of columns, gathered behind others. What is null is passed over.
def gather (names : List String) (values : List Value) : Columns → List String × List Value
  | []              => (names, values)
  | (name, v) :: cs =>
    if v = .null then gather names values cs else gather (names ++ [name]) (values ++ [v]) cs

-- Writes a record, where names and values go separate ways.
def writeApart {σ : Type} (d : Dialect) (t : Transaction σ) (r : Record) : Run σ Int := do
  t.run .start
  let (names, values) := (r.root.filter fun c => c.2 ≠ .null).unzip
  let id ← t.run (.insertRoot r.kind.rootTable ⟨Insert.text d r.kind.rootTable names (d = .postgres), values⟩)
  r.translations.forM fun u => do
    let (names, values) := gather [r.kind.foreignKey, "language"] [.int id, .text u.language] u.columns
    t.run (.insertTranslation r.kind.translationTable ⟨Insert.text d r.kind.translationTable names false, values⟩)
  t.run .commit
  return id

end Record

end MediaCatalog
