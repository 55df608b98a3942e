import MediaCatalog.Catalog
import MediaCatalog.Creation.Transaction
import MediaCatalog.Sql.Definition

namespace MediaCatalog.Postgres

open Sql

-- A row that a server answers with: the values by the names of their columns.
abbrev Answer := List (String × Value)

-- Runs a statement; a failure is told in the server's own words.
structure Server (σ : Type) where
  run : Statement → ExceptT String (StateM σ) (List Answer)

namespace Answer

def get (a : Answer) (column : String) : Value :=
  (a.lookup column).getD .null

-- What is said of a column that is null but must not be.
def unexpectedNull (column : String) : Fault :=
  .database ("error occurred while decoding column \"" ++ column ++
    "\": unexpected null; try decoding as an `Option`")

def int (a : Answer) (column : String) : Except Fault Int :=
  match a.get column with
  | .int n => pure n
  | _      => throw (unexpectedNull column)

def text (a : Answer) (column : String) : Except Fault String :=
  match a.get column with
  | .text s => pure s
  | _       => throw (unexpectedNull column)

-- What fields show of an answer.
def shown (a : Answer) (fields : List Field) : Dictionary Json :=
  .ofList (fields.map fun f => (f.name, Engine.postgres.load f.type (a.get f.column)))

def row (s : Schema) (a : Answer) : Except Fault Row := do
  return ⟨← a.int "id", a.shown s.rootFields, ← a.text "language", a.shown s.translationFields⟩

end Answer

section

variable {σ : Type} (server : Server σ)

-- Runs a statement for a purpose, by which a failure is reported.
def run (failure : String) (s : Statement) : Run σ (List Answer) :=
  ExceptT.adapt (fun reason => .database (failure ++ ": " ++ reason)) (server.run s)

-- Runs a statement that answers with one number.
def number (failure column : String) (s : Statement) : Run σ Int := do
  match ← run server failure s with
  | []     =>
    throw (.database
      (failure ++ ": no rows returned by a query that expected to return at least one row"))
  | a :: _ => a.int column

def command (failure text : String) : Run σ Unit := do
  let _ ← run server failure ⟨text, []⟩

def reader : Reader σ where
  start := do
    command server "Failed to begin read transaction" "BEGIN"
    command server "Failed to set isolation level"
      "SET TRANSACTION ISOLATION LEVEL REPEATABLE READ, READ ONLY"
  count c := do
    return .ofInt (← number server "Failed to count entries" "count" (c.statement .postgres))
  window w := do
    let rows ← run server "Failed to select identifier window" (w.statement .postgres)
    rows.mapM (·.int "id")
  rows p := do
    let rows ← run server "Failed to fetch entries" (p.statement .postgres)
    rows.mapM (·.row p.schema)
  finish := command server "Failed to end read transaction" "COMMIT"

def insertFailure (i : Insert) : String :=
  "Failed to insert into " ++ i.table

-- A transaction that has failed is given up by the server itself.
def writer : Writer σ where
  start := command server "Failed to begin transaction" "BEGIN"
  insertRoot i := number server (insertFailure i) "id" (i.statement .postgres)
  insertTranslation i := do
    let _ ← run server (insertFailure i) (i.statement .postgres)
  commit := command server "Failed to commit transaction" "COMMIT"
  rollback s := s

-- A transaction of a PostgreSQL server.
def transaction : Transaction σ where
  run
    | .start                     => command server "Failed to begin transaction" "BEGIN"
    | .insertRoot table s        => number server ("Failed to insert into " ++ table) "id" s
    | .insertTranslation table s => do
      let _ ← run server ("Failed to insert into " ++ table) s
    | .commit                    => command server "Failed to commit transaction" "COMMIT"

def checkHealth : Run σ Unit :=
  command server "Health check failed" "SELECT 1"

def createTables : Run σ Unit :=
  (Definition.all .postgres).forM fun d => command server d.failure d.text

def catalog : Catalog σ where
  reader := reader server
  writer := writer server
  checkHealth := checkHealth server
  createTables := createTables server

end

end MediaCatalog.Postgres
