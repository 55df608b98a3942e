import MediaCatalog.Dictionary
import MediaCatalog.Entry
import MediaCatalog.Language
import MediaCatalog.Sql.Select

namespace MediaCatalog

open Sql

-- What is done in a session: an effect on its state that may fail.
abbrev Run (σ α : Type) := ExceptT Fault (StateM σ) α

-- What a search looks for.
structure Search where
  schema   : Schema
  filter   : Dictionary String
  language : Language

-- One row of an entry joined with one of its translations.
structure Row where
  id          : Int
  attributes  : Dictionary Json
  language    : String
  translation : Dictionary Json

-- A database as a reader sees it. All that is asked between `start` and `finish` is answered from the
-- same state of the database.
structure Reader (σ : Type) where
  start  : Run σ Unit
  count  : Count → Run σ Int64
  window : Window → Run σ (List Int)
  rows   : Projection → Run σ (List Row)
  finish : Run σ Unit

namespace Language

def predicate : Language → Predicate
  | any   => []
  | tag t => [.compares Column.language .equal (.text t)]

end Language

namespace Search

-- The condition that one filter states.
def condition (s : Schema) (name raw : String) : Except Fault Condition := do
  let f ← s.resolve name
  return (← Filter.Criterion.ofField f raw).condition f

-- Restricts rows to the entries of given numbers.
def among : List Int → Condition
  | []  => .never
  | ids => .isIn Column.id (ids.map .int)

-- The language comes first, then the filters in the order of their names, then the entries that the
-- rows are restricted to, if any.
def predicate (s : Search) (ids : Option (List Int)) : Except Fault Predicate := do
  let filters ← s.filter.entries.mapM fun (name, raw) => condition s.schema name raw
  return s.language.predicate ++ filters ++ (ids.map among).toList

def count (s : Search) : Except Fault Count := do
  return ⟨s.schema.kind, ← s.predicate none⟩

def window (s : Search) (r : PageRequest) : Except Fault Window := do
  let condition ← s.predicate none
  let order ← r.sort.mapM (OrderTerm.ofKey s.schema)
  return ⟨s.schema.kind, condition, order, r.limit, r.offset⟩

def projection (s : Search) (ids : List Int) : Except Fault Projection := do
  return ⟨s.schema, ← s.predicate (some ids)⟩

end Search

namespace Row

-- The entry that rows of the same entry make up, if there are any.
def entryOf? : List Row → Option Entry
  | []      => none
  | r :: rs => some ⟨r.id, r.attributes, (r :: rs).map fun r => ⟨r.language, r.translation⟩⟩

-- The entries of given numbers, in that order and each once, as far as there are rows of them.
def assemble (ids : List Int) (rows : List Row) : List Entry :=
  ids.eraseDups.filterMap fun id => entryOf? (rows.filter (·.id = id))

end Row

namespace Search

variable {σ : Type} (r : Reader σ)

-- Nothing is asked of the database before the whole search is known to be well-formed.
def findPage (s : Search) (request : PageRequest) : Run σ (Page Entry) := do
  let count ← s.count
  let window ← s.window request
  r.start
  let total ← r.count count
  let ids ← r.window window
  if ids.isEmpty then
    r.finish
    return .answer [] request total
  else
    let rows ← r.rows (← s.projection ids)
    r.finish
    return .answer (Row.assemble ids rows) request total

-- The entry of a number, if there is one in the language.
def findEntry (schema : Schema) (language : Language) (id : Int) : Run σ (Option Entry) := do
  let projection ← (Search.mk schema ∅ language).projection [id]
  r.start
  let rows ← r.rows projection
  r.finish
  return (Row.assemble [id] rows).head?

end Search

end MediaCatalog
