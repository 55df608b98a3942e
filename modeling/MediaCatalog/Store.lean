import MediaCatalog.Catalog
import MediaCatalog.Store.Constraint

namespace MediaCatalog

open Sql

-- The tables of all kinds.
structure Store (κ : Type) where
  movies : Tables κ
  series : Tables κ
  deriving DecidableEq

namespace Store

variable {κ : Type}

def empty : Store κ :=
  ⟨∅, ∅⟩

instance : EmptyCollection (Store κ) := ⟨empty⟩

def get (s : Store κ) : Kind → Tables κ
  | .movie  => s.movies
  | .series => s.series

def set (s : Store κ) (k : Kind) (t : Tables κ) : Store κ :=
  match k with
  | .movie  => { s with movies := t }
  | .series => { s with series := t }

def insert (e : Engine κ) (s : Store κ) (i : Insert) : Store κ :=
  s.set i.kind ((s.get i.kind).insert e i)

theorem get_set (s : Store κ) (k : Kind) (t : Tables κ) : (s.set k t).get k = t := by
  cases k <;> rfl

theorem get_set_ne (s : Store κ) {k k' : Kind} (t : Tables κ) (h : k' ≠ k) :
    (s.set k t).get k' = s.get k' := by
  cases k <;> cases k' <;> first | rfl | exact absurd rfl h

end Store

-- What a transaction writes is seen by that transaction alone until it is committed. A database that has been
-- closed starts no more transactions.
structure Database (κ : Type) where
  -- What is committed.
  store  : Store κ
  -- What the transaction that started last sees.
  view   : Store κ
  isOpen : Bool

namespace Database

variable {κ : Type}

def empty : Database κ :=
  ⟨∅, ∅, true⟩

def close (d : Database κ) : Database κ :=
  { d with isOpen := false }

def failure (task reason : String) : Fault :=
  .database (task ++ ": " ++ reason)

-- The fault of a statement that the database refuses.
def refusal (task reason : String) : Fault :=
  failure task ("error returned from database: " ++ reason)

-- Does something that needs a connection.
def connect (task : String) (f : Database κ → Database κ) : Run (Database κ) Unit := do
  let d ← get
  if d.isOpen then set (f d)
  else throw (failure task "attempted to acquire a connection on a closed pool")

def transact (d : Database κ) : Database κ :=
  { d with view := d.store }

variable (e : Engine κ)

-- Answers a question about the tables that the transaction sees.
def ask {α : Type} (task : String) (k : Kind) (p : Predicate) (more : List Value) (answer : Tables κ → α) :
    Run (Database κ) α := do
  let tables := (← get).view.get k
  match tables.excess? e k p more with
  | some x => throw (refusal task x.message)
  | none   => return answer tables

-- Answers which entries a page has.
def askWindow (task : String) (w : Window) : Run (Database κ) (List Int) := do
  let ids ← ask e task w.kind w.condition w.bounds (·.window e w)
  match w.excess? e with
  | some x => throw (refusal task x.message)
  | none   => return ids

def reader : Reader (Database κ) where
  start := connect "Failed to begin read transaction" transact
  count c := do
    return .ofNat (← ask e "Failed to count entries" c.kind c.condition [] (·.count e c))
  window := askWindow e "Failed to select identifier window"
  rows p := ask e "Failed to fetch entries" p.schema.kind p.condition [] (·.projection e p)
  finish := pure ()

-- Writes a row, if the tables take it, and tells its number.
def write (i : Insert) : Run (Database κ) Int := do
  let d ← get
  let tables := d.view.get i.kind
  match tables.hindrance? e i with
  | some reason => throw (refusal ("Failed to insert into " ++ i.table) reason)
  | none        =>
    set { d with view := d.view.insert e i }
    return tables.nextId i.owner

def writer : Writer (Database κ) where
  start := connect "Failed to begin transaction" transact
  insertRoot := write e
  insertTranslation i := do let _ ← write e i
  commit := modify fun d => { d with store := d.view }
  rollback d := { d with view := d.store }

-- Whether the database answers at all.
def checkHealth : Run (Database κ) Unit :=
  connect "Health check failed" id

-- Tables that exist stay as they are. A database that is only read takes no tables.
def createTables (isWritable : Bool) : Run (Database κ) Unit :=
  (Definition.all .sqlite).forM fun d => do
    connect d.failure id
    if !isWritable then
      throw (failure d.failure
        "error returned from database: (code: 8) attempt to write a readonly database")

def catalog : Catalog (Database κ) where
  reader := reader e
  writer := writer e
  checkHealth := checkHealth
  createTables := createTables true

end Database

end MediaCatalog
