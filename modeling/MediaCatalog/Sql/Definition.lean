import MediaCatalog.Entry.Record
import MediaCatalog.Sql.Dialect

namespace MediaCatalog.Sql

inductive Target
  | table
  | index
  deriving DecidableEq, Repr

structure Definition where
  target : Target
  name   : String
  body   : String
  deriving DecidableEq, Repr

namespace Target

def keyword : Target → String
  | table => "TABLE"
  | index => "INDEX"

end Target

namespace Definition

-- The statement that creates what is not there yet.
def text (d : Definition) : String :=
  "CREATE " ++ d.target.keyword ++ " IF NOT EXISTS " ++ d.name ++ " " ++ d.body

-- The definition as the database remembers it.
def stored (d : Definition) : String :=
  "CREATE " ++ d.target.keyword ++ " " ++ d.name ++ " " ++ d.body

-- What is said when the definition cannot be carried out.
def failure (d : Definition) : String :=
  match d.target with
  | .table => "Failed to create " ++ d.name ++ " table"
  | .index => "Failed to create index"

-- The range of a byte is narrower than that of its column.
def range (d : Dialect) (column : String) : String :=
  let between := column ++ " BETWEEN -128 AND 127"
  match d with
  | .sqlite   => " CHECK (" ++ column ++ " IS NULL OR " ++ between ++ ")"
  | .postgres => " CHECK (" ++ between ++ ")"

def column (d : Dialect) (f : Field) : String :=
  f.column ++ " " ++ d.columnType f.type ++ (if f.type = .byte then range d f.column else "") ++
    (if isRequired then " NOT NULL" else "")
where
  isRequired : Bool :=
    f.name = Translation.nameField && (d = .postgres || f.owner = .translation)

-- The parts of a table in parentheses.
def parts (ps : List String) : String :=
  "( " ++ String.intercalate ", " ps ++ " )"

def key : Dialect → String
  | .sqlite   => "id INTEGER PRIMARY KEY AUTOINCREMENT"
  | .postgres => "id BIGSERIAL PRIMARY KEY"

-- When a row was created and last changed.
def times : Dialect → List String
  | .sqlite   =>
    ["created_at DATETIME DEFAULT CURRENT_TIMESTAMP", "updated_at DATETIME DEFAULT CURRENT_TIMESTAMP"]
  | .postgres =>
    ["created_at TIMESTAMP WITH TIME ZONE DEFAULT NOW()",
      "updated_at TIMESTAMP WITH TIME ZONE DEFAULT NOW()"]

def root (d : Dialect) (s : Schema) : Definition where
  target := .table
  name := s.kind.rootTable
  body := parts (key d :: s.rootFields.map (column d) ++ times d)

def translation (d : Dialect) (s : Schema) : Definition where
  target := .table
  name := s.kind.translationTable
  body :=
    let fk := s.kind.foreignKey
    let reference := "REFERENCES " ++ s.kind.rootTable ++ " (id) ON DELETE CASCADE"
    let unique := "UNIQUE(" ++ fk ++ ", language)"
    let columns := "language TEXT NOT NULL" :: s.translationFields.map (column d)
    match d with
    | .sqlite   =>
      parts ([key d, fk ++ " INTEGER NOT NULL"] ++ columns ++
        [unique, "FOREIGN KEY (" ++ fk ++ ") " ++ reference])
    | .postgres => parts ([key d, fk ++ " BIGINT NOT NULL " ++ reference] ++ columns ++ [unique])

def index (table column how : String) : Definition where
  target := .index
  name := "idx_" ++ table ++ "_" ++ column
  body := "ON " ++ table ++ " " ++ how ++ "(" ++ column ++ ")"

-- Only one dialect has indexes over the elements of lists.
def indexes (d : Dialect) (s : Schema) : List Definition :=
  let t := s.kind.translationTable
  let lists := (s.rootFields.filter (·.type.isList)).map fun f =>
    index s.kind.rootTable f.column "USING GIN "
  [index t s.kind.foreignKey "", index t "language" ""] ++ (if d = .postgres then lists else [])

-- All definitions, in an order in which they can be carried out.
def all (d : Dialect) : List Definition :=
  (Kind.all.map Schema.registered).flatMap fun s => root d s :: translation d s :: indexes d s

end Definition

end MediaCatalog.Sql
