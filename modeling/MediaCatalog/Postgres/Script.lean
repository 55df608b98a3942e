import MediaCatalog.Postgres

namespace MediaCatalog.Postgres

open Sql

-- A server that keeps every statement it is asked, and fails those whose text holds a given stretch.
structure Script where
  newId  : Int
  total  : Int
  window : List Int
  rows   : List Answer
  failOn : Option String

namespace Script

-- What a statement is answered with.
def answer (s : Script) (text : String) : List Answer :=
  if Text.endsWith " RETURNING id" text then [[("id", .int s.newId)]]
  else if Text.startsWith "SELECT COUNT" text then [[("count", .int s.total)]]
  else if Text.startsWith "SELECT r.id FROM" text then s.window.map fun id => [("id", .int id)]
  else if Text.startsWith "SELECT r.id AS id" text then s.rows
  else []

def server (s : Script) : Server (List Statement) where
  run statement := do
    modify (· ++ [statement])
    if s.failOn.any (Text.occursIn · statement.text) then
      throw "error returned from database: scripted failure"
    return s.answer statement.text

end Script

end MediaCatalog.Postgres
