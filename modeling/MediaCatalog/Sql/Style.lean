import MediaCatalog.Sql.Select

namespace MediaCatalog.Sql

-- What each database spells in its own way. A test gets the text of a column and a placeholder.
structure Style where
  placeholder : Nat → String
  castText    : String → String
  has         : String → String → String
  hasLike     : String → String → String

def Dialect.style (d : Dialect) : Style where
  placeholder := d.placeholder
  castText c := "CAST(" ++ c ++ " AS TEXT)"
  has c item :=
    match d with
    | .sqlite   =>
      "EXISTS (SELECT 1 FROM json_each(" ++ c ++ ") WHERE json_each.value = " ++ item ++ ")"
    | .postgres => "array_position(" ++ c ++ ", " ++ item ++ ") IS NOT NULL"
  hasLike c pattern :=
    match d with
    | .sqlite   =>
      "EXISTS (SELECT 1 FROM json_each(" ++ c ++ ") WHERE json_each.value LIKE " ++ pattern ++
        (Condition.escape ++ ")")
    | .postgres =>
      "EXISTS (SELECT 1 FROM unnest(" ++ c ++ ") AS g WHERE g LIKE " ++ pattern ++ (Condition.escape ++ ")")

-- What is written while values are bound.
abbrev Writing (α : Type) := StateM (List Value) α

def Writing.statement (m : Writing String) : Statement :=
  ⟨(m.run []).1, (m.run []).2⟩

-- Binds a value and gives its placeholder.
def Style.bind (y : Style) (v : Value) : Writing String := do
  modify (· ++ [v])
  return y.placeholder (← get).length

def Condition.write (y : Style) : Condition → Writing String
  | never                       => return "1 = 0"
  | compares c r v              => do
    return c.text ++ " " ++ r.sign ++ " " ++ (← y.bind (.scalar v))
  | between c low high          => do
    let low ← y.bind (.scalar low)
    let high ← y.bind (.scalar high)
    return c.text ++ " BETWEEN " ++ low ++ " AND " ++ high
  | isIn c vs                   => do
    let places ← vs.mapM fun v => y.bind (.scalar v)
    return c.text ++ " IN (" ++ String.intercalate ", " places ++ ")"
  | like c negated cast pattern => do
    let operand := if cast then y.castText c.text else c.text
    let keyword := if negated then " NOT LIKE " else " LIKE "
    return operand ++ keyword ++ (← y.bind (.text pattern)) ++ escape
  | has c item                  => do return y.has c.text (← y.bind (.text item))
  | hasAll c items              => do
    let tests ← items.mapM fun item => do return y.has c.text (← y.bind (.text item))
    return "(" ++ String.intercalate " AND " tests ++ ")"
  | hasLike c pattern           => do return y.hasLike c.text (← y.bind (.text pattern))
  | orFalse a                   => do return "COALESCE(" ++ (← write y a) ++ ", FALSE)"
  | not a                       => do return "NOT " ++ (← write y a)

namespace Predicate

-- The clauses of a predicate, one for each condition.
def write (y : Style) (p : Predicate) : Writing (List String) :=
  p.mapM (·.write y)

-- What clauses say together.
def whole : List String → String
  | []      => "1 = 1"
  | clauses => String.intercalate " AND " clauses

end Predicate

def Count.write (y : Style) (c : Count) : Writing String := do
  let clauses ← c.condition.write y
  return "SELECT COUNT(DISTINCT r.id) FROM " ++ source c.kind ++ " WHERE " ++ Predicate.whole clauses

def Window.write (y : Style) (w : Window) : Writing String := do
  let clauses ← w.condition.write y
  let limit ← y.bind (.int w.limit.toInt)
  let offset ← y.bind (.int w.offset.toInt)
  return "SELECT r.id FROM " ++ source w.kind ++ " WHERE " ++ Predicate.whole clauses ++
    " GROUP BY r.id ORDER BY " ++ OrderTerm.orderText w.order ++ " LIMIT " ++ limit ++ " OFFSET " ++ offset

-- The columns that a projection shows, each under its own name.
def Projection.shown (p : Projection) : String :=
  String.intercalate ", " (p.columns.map fun c => c.text ++ " AS " ++ c.name)

def Projection.write (y : Style) (p : Projection) : Writing String := do
  let clauses ← p.condition.write y
  return "SELECT " ++ p.shown ++ " FROM " ++ source p.schema.kind ++ " WHERE " ++
    Predicate.whole clauses ++ " ORDER BY r.id ASC, t.language ASC"

end MediaCatalog.Sql
