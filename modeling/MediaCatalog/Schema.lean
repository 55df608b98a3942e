import MediaCatalog.Kind

namespace MediaCatalog

-- What values a field takes. A byte is an integer from -128 to 127.
inductive FieldType
  | text
  | integer
  | byte
  | date
  | textList
  deriving DecidableEq, Repr

-- A field belongs to the entry itself or to each of its translations.
inductive Owner
  | root
  | translation
  deriving DecidableEq, Repr

namespace FieldType

def name : FieldType → String
  | text     => "string"
  | integer  => "integer"
  | byte     => "byte"
  | date     => "date"
  | textList => "string-array"

def isList : FieldType → Bool
  | textList => true
  | _        => false

end FieldType

namespace Owner

def name : Owner → String
  | root        => "root"
  | translation => "translation"

-- The letter that stands for the owning table in a statement.
def tableAlias : Owner → String
  | root        => "r"
  | translation => "t"

end Owner

structure Field where
  name   : String
  type   : FieldType
  owner  : Owner
  column : String
  deriving DecidableEq, Repr

namespace Field

-- A list has no order among other lists.
def isSortable (f : Field) : Bool :=
  !f.type.isList

-- The column together with the table it is in.
def qualified (f : Field) : String :=
  f.owner.tableAlias ++ "." ++ f.column

end Field

-- The fields of one kind: what a client may filter by, sort by and write.
structure Schema where
  kind   : Kind
  fields : List Field
  deriving DecidableEq, Repr

namespace Schema

def rootFields (s : Schema) : List Field :=
  s.fields.filter (·.owner = .root)

def translationFields (s : Schema) : List Field :=
  s.fields.filter (·.owner = .translation)

-- The field of a name. A field of the entry hides one of its translations.
def find? (s : Schema) (name : String) : Option Field :=
  (s.rootFields.find? (·.name = name)).or (s.translationFields.find? (·.name = name))

def resolve (s : Schema) (name : String) : Except Fault Field :=
  match s.find? name with
  | some f => .ok f
  | none   => .error (.invalidFilterField name)

-- What makes a schema unsound.
inductive Defect
  | repeatedField (f : Field)
  | columnName (f : Field)
  | reservedColumn (f : Field)

namespace Defect

def message (kind : Kind) : Defect → String
  | repeatedField f  => kind.name ++ " schema declares field '" ++ f.name ++ "' more than once"
  | columnName f     =>
    kind.name ++ " schema field '" ++ f.name ++ "' has an invalid column name '" ++ f.column ++ "'"
  | reservedColumn f =>
    kind.name ++ " schema field '" ++ f.name ++ "' uses reserved column '" ++ f.column ++ "'"

end Defect

-- The columns that every table has for its own use.
def reservedColumns : List String := ["id", "language", "created_at", "updated_at"]

-- Lower-case ASCII letters, digits and underscores, with no digit in front.
def isIdentifier (s : String) : Bool :=
  match s.toList with
  | []      => false
  | c :: cs => (c.isLower || c == '_') && cs.all fun c => c.isLower || c.isDigit || c == '_'

-- The first defect, in the order of the fields; `seen` holds the names of earlier fields.
def defect? (seen : List String) : List Field → Option Defect
  | []      => none
  | f :: fs =>
    if seen.contains f.name then some (.repeatedField f)
    else if !isIdentifier f.column then some (.columnName f)
    else if reservedColumns.contains f.column then some (.reservedColumn f)
    else defect? (f.name :: seen) fs

def validate (s : Schema) : Except Fault Unit :=
  match defect? [] s.fields with
  | some d => .error (.configuration (d.message s.kind))
  | none   => .ok ()

def field (owner : Owner) (name : String) (type : FieldType) : Field :=
  ⟨name, type, owner, name⟩

def movie : Schema where
  kind := .movie
  fields := [
    field .root "duration" .integer,
    field .root "release_date" .date,
    field .root "age_rating" .byte,
    field .root "genres" .textList,
    field .root "budget" .integer,
    field .translation "name" .text,
    field .translation "synopsis" .text]

def series : Schema where
  kind := .series
  fields := [
    field .root "seasons" .integer,
    field .root "episodes" .integer,
    field .root "first_air_date" .date,
    field .root "age_rating" .byte,
    field .root "genres" .textList,
    field .translation "name" .text,
    field .translation "synopsis" .text]

-- The schema of each kind.
def registered : Kind → Schema
  | .movie  => movie
  | .series => series

end Schema

end MediaCatalog
