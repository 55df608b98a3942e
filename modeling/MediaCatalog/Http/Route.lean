import MediaCatalog.Text

namespace MediaCatalog.Http

inductive Route
  | health
  | entries (kind : String)
  | entry (kind id : String)
  deriving DecidableEq, Repr

namespace Route

-- A path is told apart by its segments as they are written, before any escapes are undone.
def ofPath? (path : String) : Option Route :=
  match Text.split '/' path with
  | ["", "health"]               => some health
  | ["", "api", "v1", kind]      => if kind = "" then none else some (entries kind)
  | ["", "api", "v1", kind, id] =>
    if kind = "" ∨ id = "" then none else some (entry kind id)
  | _                            => none

-- The methods that a path takes.
def methods : Route → List String
  | health     => ["GET", "HEAD"]
  | entries _  => ["GET", "HEAD", "POST"]
  | entry _ _  => ["GET", "HEAD"]

end Route

end MediaCatalog.Http
