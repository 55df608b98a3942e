import MediaCatalog.Json.Reader

namespace MediaCatalog

structure Translation where
  language : String
  fields   : Dictionary Json

-- In JSON the attributes stand next to the parts that every entry has. So these parts may occur only once, while
-- of an attribute given twice the last one counts.
structure Entry where
  id           : Int
  attributes   : Dictionary Json
  translations : List Translation

-- An entry that is yet to be created.
structure Draft where
  attributes   : Dictionary Json
  translations : List Translation

namespace Json

-- The value of a key that may be absent, if it is there no more than once.
def single? (key : String) (members : List (String × Json)) : Option (Option Json) :=
  match members.filter (·.1 = key) with
  | []  => some none
  | [m] => some (some m.2)
  | _   => none

-- The value of a key that occurs exactly once.
def required? (key : String) (members : List (String × Json)) : Option Json :=
  (single? key members).join

-- All members but those of the given keys.
def others (keys : List String) (members : List (String × Json)) : Dictionary Json :=
  .ofList ((members.filter fun m => !keys.contains m.1).map fun m => (m.1, m.2.canonical))

end Json

namespace Translation

def ofJson? (j : Json) : Option Translation := do
  let members ← j.obj?
  let language ← (← Json.required? "language" members).str?
  some ⟨language, Json.others ["language"] members⟩

def json (t : Translation) : Json :=
  .obj (("language", .str t.language) :: t.fields.entries)

-- The translations that an array holds.
def listOfJson? (j : Json) : Option (List Translation) := do
  (← j.arr?).mapM ofJson?

end Translation

namespace Entry

def ofJson? (j : Json) : Option Entry := do
  let members ← j.obj?
  let id ← (← Json.required? "id" members).int64?
  let translations ← Translation.listOfJson? (← Json.required? "translations" members)
  some ⟨id, Json.others ["id", "translations"] members, translations⟩

-- The number comes first and the translations last.
def json (e : Entry) : Json :=
  .obj (("id", .int e.id) :: e.attributes.entries ++
    [("translations", .arr (e.translations.map Translation.json))])

end Entry

-- Why a text does not hold what it should.
inductive Unreadable
  | syntaxError
  | shapeError
  deriving DecidableEq, Repr

namespace Json

-- Reads a text that is to hold a value of some shape.
def readAs {α : Type} (ofJson? : Json → Option α) (text : String) : Except Unreadable α :=
  match read? text with
  | none   => throw .syntaxError
  | some j =>
    match ofJson? j with
    | none   => throw .shapeError
    | some a => pure a

end Json

def Entry.read : String → Except Unreadable Entry :=
  Json.readAs Entry.ofJson?

namespace Draft

-- A draft without translations is readable, although none can be created from it.
def ofJson? (j : Json) : Option Draft := do
  let members ← j.obj?
  let translations ←
    match ← Json.single? "translations" members with
    | none   => some []
    | some j => Translation.listOfJson? j
  some ⟨Json.others ["translations"] members, translations⟩

def read : String → Except Unreadable Draft :=
  Json.readAs ofJson?

end Draft

end MediaCatalog
