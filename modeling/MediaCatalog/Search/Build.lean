import MediaCatalog.Filter.Operand
import MediaCatalog.Search
import MediaCatalog.Sql.Style

namespace MediaCatalog

open Sql MediaCatalog.Filter

-- What is compiled while values are bound, unless it fails.
abbrev Building (α : Type) := StateT (List Value) (Except Fault) α

namespace Building

variable {α β : Type}

def ofWriting (m : Writing α) : Building α :=
  fun vs => .ok (m.run vs)

def statement (m : Building String) : Except Fault Statement := do
  let (text, values) ← m.run []
  return ⟨text, values⟩

end Building

-- A value as a text to look for.
def Scalar.asText : Scalar → String
  | text s => s
  | int n  => Text.decimal n
  | date d => d.text

def Filter.Operator.sign? : Operator → Option String
  | equal          => some "="
  | notEqual       => some "<>"
  | greater        => some ">"
  | greaterOrEqual => some ">="
  | less           => some "<"
  | lessOrEqual    => some "<="
  | _              => none

namespace Search

-- What is said of an operator that cannot be rendered with its operand.
def unsupported (f : Field) (o : Operator) : Fault :=
  .invalidFilterValue f.name ("operator '" ++ o.mark ++ "' is not supported here")

section Render

variable (y : Style) (f : Field)

def bindPattern (v : Scalar) : Building String :=
  .ofWriting (y.bind (.text (Like.containing v.asText)))

-- Membership in values that are bound one after the other.
def renderIn (column : String) (vs : List Scalar) : Building String := do
  let places ← vs.mapM fun v => .ofWriting (y.bind (.scalar v))
  return column ++ " IN (" ++ String.intercalate ", " places ++ ")"

def renderScalar (column : String) : Operator → Filter.Operand → Building String
  | .like, .single v          => do
    let operand := if f.type = .text then column else y.castText column
    return operand ++ " LIKE " ++ (← bindPattern y v) ++ Condition.escape
  | .notLike, .single v       => do
    let operand := if f.type = .text then column else y.castText column
    return operand ++ " NOT LIKE " ++ (← bindPattern y v) ++ Condition.escape
  | .between, .range low high => do
    let low ← .ofWriting (y.bind (.scalar low))
    let high ← .ofWriting (y.bind (.scalar high))
    return column ++ " BETWEEN " ++ low ++ " AND " ++ high
  | .isIn, .list vs           => renderIn y column vs
  | .notIn, .list vs          => do return "NOT COALESCE(" ++ (← renderIn y column vs) ++ ", FALSE)"
  | o, .single v              =>
    match o.sign? with
    | some sign => do return column ++ " " ++ sign ++ " " ++ (← .ofWriting (y.bind (.scalar v)))
    | none      => throw (unsupported f o)
  | o, _                      => throw (unsupported f o)

def renderHas (column : String) (v : Scalar) : Building String := do
  return y.has column (← .ofWriting (y.bind (.scalar v)))

def renderHasAll (column : String) (vs : List Scalar) : Building String := do
  return String.intercalate " AND " (← vs.mapM (renderHas y column))

def renderList (column : String) : Operator → Filter.Operand → Building String
  | .equal, .single v    => renderHas y column v
  | .notEqual, .single v => do return "NOT " ++ (← renderHas y column v)
  | .like, .single v     => do return y.hasLike column (← bindPattern y v)
  | .notLike, .single v  => do return "NOT " ++ y.hasLike column (← bindPattern y v)
  | .isIn, .list vs      => do return "(" ++ (← renderHasAll y column vs) ++ ")"
  | .notIn, .list vs     => do return "NOT (" ++ (← renderHasAll y column vs) ++ ")"
  | o, _                 => throw (unsupported f o)

def render (o : Operator) (x : Filter.Operand) : Building String :=
  if f.type.isList then renderList y f (Column.ofField f).text o x
  else renderScalar y f (Column.ofField f).text o x

end Render

def renderFilter (y : Style) (schema : Schema) (name raw : String) : Building String := do
  let f ← (schema.resolve name : Except Fault Field)
  let (o, x) ← ((parse f.type raw).mapError (·.fault f) : Except Fault (Operator × Filter.Operand))
  render y f o x

-- The clause that restricts rows to the entries of given numbers, if any are given.
def renderScope (y : Style) : Option (List Int) → Building (List String)
  | none     => return []
  | some []  => return ["1 = 0"]
  | some ids => do return [← renderIn y Column.id.text (ids.map .int)]

-- The clauses of a search, each filter being resolved, parsed and rendered in its turn.
def build (y : Style) (ids : Option (List Int)) (s : Search) : Building (List String) := do
  let language ← .ofWriting (s.language.predicate.write y)
  let filters ← s.filter.entries.mapM fun (name, raw) => renderFilter y s.schema name raw
  let scope ← renderScope y ids
  return language ++ filters ++ scope

def buildClauses (y : Style) (ids : Option (List Int)) (s : Search) : Building (List String) := do
  let language ← .ofWriting (s.language.predicate.write y)
  let filters ← s.filter.entries.mapM fun (name, raw) => do
    let a ← condition s.schema name raw
    .ofWriting (a.write y)
  let scope ← .ofWriting (Predicate.write y (ids.map among).toList)
  return language ++ filters ++ scope

def buildCount (y : Style) (s : Search) : Building String := do
  let clauses ← s.buildClauses y none
  return "SELECT COUNT(DISTINCT r.id) FROM " ++ source s.schema.kind ++ " WHERE " ++ Predicate.whole clauses

def buildWindow (y : Style) (request : PageRequest) (s : Search) : Building String := do
  let clauses ← s.buildClauses y none
  let order ← (request.sort.mapM (OrderTerm.ofKey s.schema) : Except Fault (List OrderTerm))
  let limit ← .ofWriting (y.bind (.int request.limit.toInt))
  let offset ← .ofWriting (y.bind (.int request.offset.toInt))
  return "SELECT r.id FROM " ++ source s.schema.kind ++ " WHERE " ++ Predicate.whole clauses ++
    " GROUP BY r.id ORDER BY " ++ OrderTerm.orderText order ++ " LIMIT " ++ limit ++ " OFFSET " ++ offset

def buildProjection (y : Style) (ids : List Int) (s : Search) : Building String := do
  let clauses ← s.buildClauses y (some ids)
  return "SELECT " ++ (Projection.mk s.schema []).shown ++ " FROM " ++ source s.schema.kind ++ " WHERE " ++
    Predicate.whole clauses ++ " ORDER BY r.id ASC, t.language ASC"

end Search

end MediaCatalog
