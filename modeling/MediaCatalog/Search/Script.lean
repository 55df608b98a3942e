import MediaCatalog.Search

namespace MediaCatalog.Search

open Sql

inductive Step
  | start
  | count (c : Count)
  | window (w : Window)
  | rows (p : Projection)
  | finish
  deriving DecidableEq

namespace Step

def name : Step → String
  | start    => "begin"
  | count _  => "count"
  | window _ => "window"
  | rows _   => "rows"
  | finish   => "finish"

-- The statement that a step sends, if it sends one.
def statement? (d : Dialect) : Step → Option Statement
  | start    => none
  | count c  => some (c.statement d)
  | window w => some (w.statement d)
  | rows p   => some (p.statement d)
  | finish   => none

end Step

-- A session that keeps every step that is taken, and can be made to fail at one kind of step.
structure Script where
  total  : Int64
  window : List Int
  rows   : List Row
  failAt : Option String

namespace Script

-- A step is kept whether it fails or not.
def take {α : Type} (s : Script) (step : Step) (answer : α) : Run (List Step) α := do
  modify (· ++ [step])
  if s.failAt = some step.name then throw (.database (step.name ++ " failed"))
  return answer

def reader (s : Script) : Reader (List Step) where
  start := s.take .start ()
  count c := s.take (.count c) s.total
  window w := s.take (.window w) s.window
  rows p := s.take (.rows p) s.rows
  finish := s.take .finish ()

end Script

end MediaCatalog.Search
