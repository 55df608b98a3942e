import MediaCatalog.Fault
import MediaCatalog.Text

namespace MediaCatalog

-- Each kind has a table of entries, its root table, and a table of their translations, which points back to the
-- entries by a foreign key.
inductive Kind
  | movie
  | series
  deriving DecidableEq, Repr

namespace Kind

def all : List Kind := [movie, series]

def name : Kind → String
  | movie  => "Movie"
  | series => "Series"

-- The segment of a request path that names the kind; it is the name of the root table as well.
def path : Kind → String
  | movie  => "movies"
  | series => "series"

def rootTable (k : Kind) : String :=
  k.path

def translationTable : Kind → String
  | movie  => "movie_translations"
  | series => "series_translations"

def foreignKey : Kind → String
  | movie  => "movie_id"
  | series => "series_id"

-- A path segment names a kind in any ASCII case.
def read (segment : String) : Except Fault Kind :=
  match all.find? (·.path == Text.asciiLower segment) with
  | some k => .ok k
  | none   => .error (.notFound ("Unknown resource kind: " ++ segment))

end Kind

end MediaCatalog
