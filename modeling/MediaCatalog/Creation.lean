import MediaCatalog.Search
import MediaCatalog.Sql.Insert

namespace MediaCatalog

open Sql

-- A database as a writer sees it.
structure Writer (σ : Type) where
  start             : Run σ Unit
  insertRoot        : Insert → Run σ Int
  insertTranslation : Insert → Run σ Unit
  commit            : Run σ Unit
  -- Forgets what was written since `start`.
  rollback          : σ → σ

namespace Record

variable {σ : Type} (w : Writer σ)

-- Writes the rows of a record within a transaction.
def write (r : Record) : Run σ Int := do
  w.start
  let id ← w.insertRoot (.root r)
  r.translations.forM fun t => w.insertTranslation (.translation r.kind id t)
  w.commit
  return id

-- Writes all rows of a record or none, and tells the number of the new entry.
def insert (r : Record) : Run σ Int := fun s =>
  match r.write w s with
  | (.ok id, s)       => (.ok id, s)
  | (.error fault, s) => (.error fault, w.rollback s)

end Record

namespace Draft

variable {σ : Type}

-- Nothing is written of a draft that cannot be prepared.
def create (insert : Record → Run σ Int) (s : Schema) (d : Draft) : Run σ Int := do
  let record ← (d.prepare s).mapError Refusal.fault
  insert record

-- Creates an entry and reads it back in all of its languages.
def createEntry (r : Reader σ) (w : Writer σ) (s : Schema) (d : Draft) : Run σ Entry := do
  let id ← d.create (Record.insert w) s
  match ← Search.findEntry r s .any id with
  | some e => return e
  | none   =>
    throw (.internal ("Created " ++ s.kind.name ++ " " ++ Text.decimal id ++
      " could not be read back"))

end Draft

end MediaCatalog
