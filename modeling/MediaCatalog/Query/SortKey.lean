import MediaCatalog.Refusal
import MediaCatalog.Text.LowerCase

namespace MediaCatalog

inductive Direction
  | ascending
  | descending
  deriving DecidableEq, Repr

namespace Direction

def read? (s : String) : Option Direction :=
  match Text.lower s with
  | "asc" | "ascending"   => some ascending
  | "desc" | "descending" => some descending
  | _                     => none

end Direction

structure SortKey where
  field     : String
  direction : Direction
  deriving DecidableEq, Repr

namespace SortKey

-- A sort parameter names a field and, behind a comma, the direction. Without a direction the order is ascending.
def read (parameter : String) : Except Fault SortKey :=
  match (Text.split ',' parameter).map Text.trim with
  | [] | "" :: _               => throw (.invalidSortField parameter)
  | [field]                    => pure ⟨Text.lower field, .ascending⟩
  | field :: direction :: rest =>
    match Direction.read? direction with
    | none   => throw (Refusal.sortDirection direction).fault
    | some d =>
      if rest.isEmpty then pure ⟨Text.lower field, d⟩
      else throw (Refusal.sortParameter parameter).fault

-- The keys of several parameters, the first one weighing most.
def readAll (parameters : List String) : Except Fault (List SortKey) :=
  parameters.mapM read

end SortKey

end MediaCatalog
