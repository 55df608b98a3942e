import MediaCatalog.Proofs.Sql.Token
import MediaCatalog.Proofs.Sql.Truth
import MediaCatalog.Store.Table

namespace MediaCatalog.Sql

open MediaCatalog.Filter (Relation)

-- What can be compared. Behind `json_each` and `unnest` stand the elements of a list, of which each has
-- its turn: as `json_each.value` or under the name `g`.
inductive Operand
  | zero
  | one
  | value (v : Value)
  | column (c : Column)
  | castText (c : Column)
  | position (c : Column) (v : Value)
  | jsonValue
  | item

-- A list whose elements are tried one after the other.
inductive Series
  | jsonEach (c : Column)
  | unnest (c : Column)

mutual

-- `not` goes before the whole test behind it, and so does `and` of a formula; only parentheses hold tests
-- together under a `not`.
inductive Test
  | compares (a : Operand) (r : Relation) (b : Operand)
  | between (a low high : Operand)
  | isIn (a : Operand) (first : Value) (others : List Value)
  | like (a : Operand) (negated : Bool) (pattern : Operand)
  | isNotNull (a : Operand)
  | any (s : Series) (f : Formula)
  | coalesce (f : Formula)
  | group (f : Formula)
  | not (t : Test)

inductive Formula
  | one (t : Test)
  | and (t : Test) (f : Formula)

end

namespace Operand

variable {κ : Type} (e : Engine κ) (row : Column → κ) (element : String)

-- The value of an operand on a row, while a list has its turn with an element. The position of a value
-- counts from one and is null if the value does not occur.
def cell : Operand → κ
  | zero         => e.store (.int 0)
  | one          => e.store (.int 1)
  | value v      => e.store v
  | column c     => row c
  | castText c   => e.store (((e.text? (row c)).map Value.text).getD .null)
  | position c v =>
    let found := (e.elements (row c)).findIdx? fun x =>
      e.compare? (e.store (.text x)) (e.store v) == some .eq
    e.store ((found.map fun (i : Nat) => Value.int (i + 1)).getD .null)
  | jsonValue    => e.store (.text element)
  | item         => e.store (.text element)

end Operand

def Series.elements {κ : Type} (e : Engine κ) (row : Column → κ) : Series → List String
  | jsonEach c => e.elements (row c)
  | unnest c   => e.elements (row c)

section

variable {κ : Type} (e : Engine κ) (row : Column → κ)

mutual

def Test.truth (element : String) : Test → Truth
  | .compares a r b       =>
    (e.compare? (a.cell e row element) (b.cell e row element)).map r.holds
  | .between a low high   =>
    let compared (r : Relation) (b : Operand) : Truth :=
      (e.compare? (a.cell e row element) (b.cell e row element)).map r.holds
    (compared .greaterOrEqual low).and (compared .lessOrEqual high)
  | .isIn a first others  =>
    .any ((first :: others).map fun v =>
      (e.compare? (a.cell e row element) (e.store v)).map Relation.equal.holds)
  | .like a negated b     =>
    let t : Truth := do
      let text ← e.text? (a.cell e row element)
      let pattern ← e.text? (b.cell e row element)
      some (e.like pattern text)
    if negated then t.not else t
  | .isNotNull a          => some (!e.isNull (a.cell e row element))
  | .any s f              =>
    some ((s.elements e row).any fun x => Formula.truth x f == some true)
  | .coalesce f           => (Formula.truth element f).orFalse
  | .group f              => Formula.truth element f
  | .not t                => (Test.truth element t).not

def Formula.truth (element : String) : Formula → Truth
  | .one t   => Test.truth element t
  | .and t f => (Test.truth element t).and (Formula.truth element f)

end

attribute [simp] Operand.cell Series.elements Test.truth Formula.truth

end

namespace Formula

-- Tests that have to be true together.
def ofTests (t : Test) : List Test → Formula
  | []      => one t
  | u :: us => and t (ofTests u us)

theorem truth_ofTests {κ : Type} (e : Engine κ) (row : Column → κ) (x : String) (t : Test)
    (ts : List Test) :
    (ofTests t ts).truth e row x = Truth.all ((t :: ts).map (·.truth e row x)) := by
  induction ts generalizing t with
  | nil => simp [ofTests, Truth.all]
  | cons u us ih => rw [ofTests, truth, ih]; rfl

end Formula

end MediaCatalog.Sql
