import MediaCatalog.Filter.Criterion
import MediaCatalog.Sql.Engine
import MediaCatalog.Sql.Phrase
import MediaCatalog.Sql.Truth

namespace MediaCatalog.Filter.Relation

-- The sign of a relation in SQL.
def sign : Relation → String
  | equal          => "="
  | notEqual       => "<>"
  | greater        => ">"
  | greaterOrEqual => ">="
  | less           => "<"
  | lessOrEqual    => "<="

-- Whether two values in a given order are in the relation.
def holds : Relation → Ordering → Bool
  | equal,          o => o.isEq
  | notEqual,       o => o.isNe
  | greater,        o => o.isGT
  | greaterOrEqual, o => o.isGE
  | less,           o => o.isLT
  | lessOrEqual,    o => o.isLE

end MediaCatalog.Filter.Relation

namespace MediaCatalog.Sql

open MediaCatalog.Filter (Relation)

structure Column where
  owner : Owner
  name  : String
  deriving DecidableEq, Repr

namespace Column

def text (c : Column) : String :=
  c.owner.tableAlias ++ "." ++ c.name

-- The number of an entry.
def id : Column := ⟨.root, "id"⟩

-- The language of a translation.
def language : Column := ⟨.translation, "language"⟩

def ofField (f : Field) : Column :=
  ⟨f.owner, f.column⟩

end Column

-- A condition has a text in each dialect and a truth value on each row of an engine.
inductive Condition
  | never
  | compares (c : Column) (r : Filter.Relation) (v : Scalar)
  | between (c : Column) (low high : Scalar)
  | isIn (c : Column) (vs : List Scalar)
  | like (c : Column) (negated cast : Bool) (pattern : String)
  | has (c : Column) (item : String)
  | hasAll (c : Column) (items : List String)
  | hasLike (c : Column) (pattern : String)
  | orFalse (a : Condition)
  | not (a : Condition)
  deriving DecidableEq

namespace Condition

-- The closing part of a test by pattern.
def escape : String := " ESCAPE '\\'"

-- Whether a list has an element.
def hasPhrase (d : Dialect) (c : Column) (item : String) : Phrase :=
  match d with
  | .sqlite   =>
    [.text ("EXISTS (SELECT 1 FROM json_each(" ++ c.text ++ ") WHERE json_each.value = "),
      .bind (.text item), .text ")"]
  | .postgres =>
    [.text ("array_position(" ++ c.text ++ ", "), .bind (.text item), .text ") IS NOT NULL"]

-- Whether a list has an element that is like a pattern.
def hasLikePhrase (d : Dialect) (c : Column) (pattern : String) : Phrase :=
  match d with
  | .sqlite   =>
    [.text ("EXISTS (SELECT 1 FROM json_each(" ++ c.text ++ ") WHERE json_each.value LIKE "),
      .bind (.text pattern), .text (escape ++ ")")]
  | .postgres =>
    [.text ("EXISTS (SELECT 1 FROM unnest(" ++ c.text ++ ") AS g WHERE g LIKE "),
      .bind (.text pattern), .text (escape ++ ")")]

def phrase (d : Dialect) : Condition → Phrase
  | never                      => "1 = 0"
  | compares c r v             => [.text (c.text ++ " " ++ r.sign ++ " "), .bind (.scalar v)]
  | between c low high         =>
    [.text (c.text ++ " BETWEEN "), .bind (.scalar low), .text " AND ", .bind (.scalar high)]
  | isIn c vs                  =>
    .text (c.text ++ " IN (") :: Phrase.listed (vs.map .scalar) ++ [.text ")"]
  | like c negated cast pattern =>
    let operand := if cast then "CAST(" ++ c.text ++ " AS TEXT)" else c.text
    let keyword := if negated then " NOT LIKE " else " LIKE "
    [.text (operand ++ keyword), .bind (.text pattern), .text escape]
  | has c item                 => hasPhrase d c item
  | hasAll c items             =>
    .text "(" :: Phrase.joined " AND " (items.map (hasPhrase d c)) ++ [.text ")"]
  | hasLike c pattern          => hasLikePhrase d c pattern
  | orFalse a                  => .text "COALESCE(" :: phrase d a ++ [.text ", FALSE)"]
  | not a                      => .text "NOT " :: phrase d a

variable {κ : Type} (e : Engine κ) (row : Column → κ)

-- How the value of a column compares with a bound one.
def compareWith (c : Column) (r : Relation) (v : Scalar) : Truth :=
  (e.compare? (row c) (e.store (.scalar v))).map r.holds

def truth : Condition → Truth
  | never                      => some false
  | compares c r v             => compareWith e row c r v
  | between c low high         =>
    (compareWith e row c .greaterOrEqual low).and (compareWith e row c .lessOrEqual high)
  | isIn c vs                  => .any (vs.map (compareWith e row c .equal))
  | like c negated _ pattern   =>
    let t : Truth := (e.text? (row c)).map (e.like pattern)
    if negated then t.not else t
  | has c item                 => some ((e.elements (row c)).contains item)
  | hasAll c items             => some (items.all (e.elements (row c)).contains)
  | hasLike c pattern          => some ((e.elements (row c)).any (e.like pattern))
  | orFalse a                  => (truth a).orFalse
  | not a                      => (truth a).not

-- Whether a row has to be tested with a pattern that the engine refuses for its length.
def isRefused : Condition → Bool
  | like _ _ _ pattern => tooLong pattern
  | hasLike c pattern  => tooLong pattern && !(e.elements (row c)).isEmpty
  | orFalse a          => isRefused a
  | not a              => isRefused a
  | _                  => false
where
  tooLong (pattern : String) : Bool :=
    e.limits.pattern.any (· < pattern.utf8ByteSize)

-- How many levels the text of a condition has as an expression. A column counts two, since it stands behind
-- the name of its table, and the terms of a conjunction are nested to the left.
def height : Condition → Nat
  | never                  => 2
  | compares ..            => 3
  | between ..             => 3
  | isIn ..                => 3
  | like _ negated cast _  => 3 + negated.toNat + cast.toNat
  | has ..                 => 4
  | hasAll _ items         => 3 + max 1 items.length
  | hasLike ..             => 4
  | orFalse a              => height a + 1
  | not a                  => height a + 1

end Condition

-- Conditions that have to be true together.
abbrev Predicate := List Condition

namespace Predicate

def phrase (d : Dialect) : Predicate → Phrase
  | [] => "1 = 1"
  | cs => Phrase.joined " AND " (cs.map (·.phrase d))

def values (p : Predicate) (d : Dialect) : List Value :=
  (p.phrase d).values

variable {κ : Type} (e : Engine κ) (row : Column → κ)

def truth (p : Predicate) : Truth :=
  .all (p.map (·.truth e row))

def holds (p : Predicate) : Bool :=
  truth e row p == some true

-- How many levels a predicate has: those of the conjunction, and as many more as the statements on the
-- elements of a list have that it may hold.
def depth : Predicate → Nat
  | []      => 2
  | c :: cs => cs.foldl (fun n c => max n c.height + 1) c.height + 4

-- A condition is tested only where those before it are true.
def isRefused : Predicate → Bool
  | []      => false
  | c :: cs => c.isRefused e row || (c.truth e row == some true && isRefused cs)

end Predicate

end MediaCatalog.Sql

namespace MediaCatalog.Filter

open Sql

-- The condition of a test on a column that holds one value. Only texts are like a pattern as they
-- are; other values are turned into text first.
def ScalarTest.condition (c : Column) (type : FieldType) : ScalarTest → Condition
  | compares r v     => .compares c r v
  | between low high => .between c low high
  | isIn vs          => .isIn c vs
  | notIn vs         => .not (.orFalse (.isIn c vs))
  | like s           => .like c false (type ≠ .text) (Like.containing s)
  | notLike s        => .like c true (type ≠ .text) (Like.containing s)

-- The condition of a test on a column that holds a list.
def ListTest.condition (c : Column) : ListTest → Condition
  | has item        => .has c item
  | hasNot item     => .not (.has c item)
  | hasAll items    => .hasAll c items
  | hasNotAll items => .not (.hasAll c items)
  | like s          => .hasLike c (Like.containing s)
  | notLike s       => .not (.hasLike c (Like.containing s))

def Criterion.condition (f : Field) : Criterion → Condition
  | ofScalar test => test.condition (Column.ofField f) f.type
  | ofList test   => test.condition (Column.ofField f)

end MediaCatalog.Filter
