import MediaCatalog.Search
import Mathlib.Logic.Basic

namespace MediaCatalog.Row

-- Adds a row to what has been gathered. The first row of an entry brings its attributes, and every one a translation.
def gather (m : Std.HashMap Int Entry) (r : Row) : Std.HashMap Int Entry :=
  m.alter r.id fun e? =>
    let e := e?.getD ⟨r.id, r.attributes, []⟩
    some { e with translations := e.translations ++ [⟨r.language, r.translation⟩] }

-- Takes the entries of given numbers out of a table, in that order. What is taken is gone.
def takeOut (m : Std.HashMap Int Entry) : List Int → List Entry
  | []        => []
  | id :: ids =>
    match m[id]? with
    | some e => e :: takeOut (m.erase id) ids
    | none   => takeOut m ids

-- Entries put together in a single pass over the rows and another one over the numbers.
def collect (ids : List Int) (rows : List Row) : List Entry :=
  takeOut (rows.foldl gather ∅) ids

end MediaCatalog.Row
