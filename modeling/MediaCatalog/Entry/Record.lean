import MediaCatalog.Entry
import MediaCatalog.Refusal
import MediaCatalog.LanguageTag
import MediaCatalog.Text.LowerCase
import MediaCatalog.Value

namespace MediaCatalog

-- Columns with the values to be stored in them.
abbrev Columns := List (String × Value)

structure LocalRecord where
  language : String
  columns  : Columns
  deriving DecidableEq

structure Record where
  kind         : Kind
  root         : Columns
  translations : List LocalRecord
  deriving DecidableEq

namespace Field

def dateOfJson? (j : Json) : Option Value := do
  let d ← Date.read? (← j.str?)
  some (.date d)

-- The value that an attribute gives to a field.
def value? (f : Field) (j : Json) : Option Value :=
  if j.isNull then some .null
  else
    match f.type with
    | .text     => j.str?.map .text
    | .integer  => j.int64?.map .int
    | .byte     => (j.int64?.filter fun n => -128 ≤ n ∧ n ≤ 127).map .int
    | .date     => dateOfJson? j
    | .textList => do return .list (← (← j.arr?).mapM Json.str?)

def value (f : Field) (j : Json) : Except Refusal Value :=
  match f.value? j with
  | some v => pure v
  | none   => throw (.attributeValue f)

-- The columns of some fields, where an attribute that is not there counts as null.
def columns (fields : List Field) (attributes : Dictionary Json) : Except Refusal Columns :=
  fields.mapM fun f => do
    let v ← f.value ((attributes.get? f.name).getD .null)
    return (f.column, v)

-- The first attribute that no field is named after.
def unknown? (fields : List Field) (attributes : Dictionary Json) : Option String :=
  attributes.keys.find? fun name => !fields.any (·.name = name)

end Field

namespace Translation

-- The attribute that every translation needs.
def nameField : String := "name"

def isNamed (t : Translation) : Bool :=
  match (t.fields.get? nameField).bind Json.str? with
  | some name => !Text.isAllBlank name
  | none      => false

-- `seen` holds the languages of earlier translations in lower case.
def check (s : Schema) (seen : List String) (t : Translation) : Except Refusal Unit := do
  if !LanguageTag.isValid t.language then throw (.languageTag t.language)
  if seen.contains (Text.lower t.language) then throw (.repeatedLanguage t.language)
  if let some name := Field.unknown? s.translationFields t.fields then
    throw (.unknownTranslationAttribute name)
  if !t.isNamed then throw (.namelessTranslation t.language)

def checkAll (s : Schema) (seen : List String) : List Translation → Except Refusal Unit
  | []      => pure ()
  | t :: ts => do
    t.check s seen
    checkAll s (Text.lower t.language :: seen) ts

end Translation

namespace Draft

-- Whether a draft has the parts that an entry of the kind needs, and no others.
def validate (s : Schema) (d : Draft) : Except Refusal Unit := do
  if let some name := Field.unknown? s.rootFields d.attributes then throw (.unknownAttribute name)
  if d.translations.isEmpty then throw .noTranslation
  Translation.checkAll s [] d.translations

-- The record of a draft, with its columns in the order of the schema.
def prepare (s : Schema) (d : Draft) : Except Refusal Record := do
  d.validate s
  let root ← Field.columns s.rootFields d.attributes
  let translations ← d.translations.mapM fun t => do
    return ⟨t.language, ← Field.columns s.translationFields t.fields⟩
  return ⟨s.kind, root, translations⟩

end Draft

end MediaCatalog
