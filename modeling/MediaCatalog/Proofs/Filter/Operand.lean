import MediaCatalog.Proofs.Filter.Meaning
import MediaCatalog.Proofs.Sql.Alike

namespace MediaCatalog.Filter

open Sql

-- The values that a criterion binds. A stretch of text is bound as the pattern of the texts that have it.
def ScalarTest.operands : ScalarTest → List Value
  | compares _ v       => [.scalar v]
  | between low high   => [.scalar low, .scalar high]
  | isIn vs | notIn vs => vs.map .scalar
  | like s | notLike s => [.text (Like.containing s)]

def ListTest.operands : ListTest → List Value
  | has item | hasNot item         => [.text item]
  | hasAll items | hasNotAll items => items.map .text
  | like s | notLike s             => [.text (Like.containing s)]

def Criterion.operands : Criterion → List Value
  | ofScalar test => test.operands
  | ofList test   => test.operands

section Values

variable (d : Dialect) (c : Column)

theorem values_hasPhrase (item : String) : (Condition.hasPhrase d c item).values = [.text item] := by
  cases d <;> rfl

theorem values_hasLikePhrase (pattern : String) :
    (Condition.hasLikePhrase d c pattern).values = [.text pattern] := by
  cases d <;> rfl

theorem values_isIn (vs : List Scalar) :
    ((Condition.isIn c vs).phrase d).values = vs.map .scalar := by
  simp [Condition.phrase, Phrase.values, Phrase.values_append, Phrase.values_listed]

theorem values_hasAll (items : List String) :
    ((Condition.hasAll c items).phrase d).values = items.map .text := by
  simp [Condition.phrase, Phrase.values, Phrase.values_append, Phrase.values_joined, List.flatMap_map,
    values_hasPhrase, ← List.map_eq_flatMap]

theorem ScalarTest.values_condition (type : FieldType) (test : ScalarTest) :
    ((test.condition c type).phrase d).values = test.operands := by
  cases test with
  | compares | between | like | notLike => rfl
  | isIn vs => exact values_isIn d c vs
  | notIn vs =>
    have := values_isIn d c vs
    simpa [condition, Condition.phrase, Phrase.values, Phrase.values_append, operands] using this

theorem ListTest.values_condition (test : ListTest) :
    ((test.condition c).phrase d).values = test.operands := by
  cases test with
  | has item => exact values_hasPhrase d c item
  | hasNot item => exact values_hasPhrase d c item
  | hasAll items => exact values_hasAll d c items
  | hasNotAll items => exact values_hasAll d c items
  | like s => exact values_hasLikePhrase d c _
  | notLike s => exact values_hasLikePhrase d c _

theorem Criterion.values_condition (f : Field) (a : Criterion) :
    ((a.condition f).phrase d).values = a.operands := by
  cases a with
  | ofScalar test => exact test.values_condition d _ f.type
  | ofList test => exact test.values_condition d _

end Values

section Alike

variable {o : Operator} {operand operand' : String}

theorem ScalarTest.alike_condition {c : Column} {type : FieldType} {t t' : ScalarTest}
    (h : read type operand o = .ok t) (h' : read type operand' o = .ok t')
    (hl : t.operands.length = t'.operands.length) :
    (t.condition c type).Alike (t'.condition c type) := by
  cases o
  case between =>
    obtain ⟨_, _, h⟩ := Except.bind_eq_ok.mp h
    obtain ⟨_, _, h'⟩ := Except.bind_eq_ok.mp h'
    split at h
    case h_1 =>
      split at h'
      case h_1 =>
        simp only [Except.bind_eq_ok, Except.pure_eq_ok] at h h'
        obtain ⟨_, _, _, _, rfl⟩ := h
        obtain ⟨_, _, _, _, rfl⟩ := h'
        exact .between ..
      case h_2 => exact absurd h' Except.throw_ne_ok
    case h_2 => exact absurd h Except.throw_ne_ok
  case isIn | notIn =>
    simp only [read, Except.bind_eq_ok, Except.pure_eq_ok] at h h'
    obtain ⟨_, _, vs, _, rfl⟩ := h
    obtain ⟨_, _, ws, _, rfl⟩ := h'
    have hl : vs.length = ws.length := by simpa [operands] using hl
    first | exact .isIn c hl | exact .not (.orFalse (.isIn c hl))
  case like | notLike =>
    cases h
    cases h'
    exact .like ..
  all_goals
    obtain ⟨_, _, rfl⟩ := Except.map_eq_ok.mp h
    obtain ⟨_, _, rfl⟩ := Except.map_eq_ok.mp h'
    exact .compares ..

theorem ListTest.alike_condition {c : Column} {t t' : ListTest} (h : read operand o = .ok t)
    (h' : read operand' o = .ok t') (hl : t.operands.length = t'.operands.length) :
    (t.condition c).Alike (t'.condition c) := by
  cases o
  case isIn | notIn =>
    obtain ⟨xs, _, rfl⟩ := Except.map_eq_ok.mp h
    obtain ⟨ys, _, rfl⟩ := Except.map_eq_ok.mp h'
    have hl : xs.length = ys.length := by simpa [operands] using hl
    first | exact .hasAll c hl | exact .not (.hasAll c hl)
  case equal =>
    cases h
    cases h'
    exact .has ..
  case notEqual =>
    cases h
    cases h'
    exact .not (.has ..)
  case like =>
    cases h
    cases h'
    exact .hasLike ..
  case notLike =>
    cases h
    cases h'
    exact .not (.hasLike ..)
  all_goals exact absurd h Except.throw_ne_ok

theorem Criterion.alike_condition {f : Field} {raw raw' : String} {a a' : Criterion}
    (h : ofField f raw = .ok a) (h' : ofField f raw' = .ok a')
    (ho : (Operator.detect raw).1 = (Operator.detect raw').1)
    (hl : a.operands.length = a'.operands.length) : (a.condition f).Alike (a'.condition f) := by
  by_cases hf : f.type.isList
  case pos =>
    obtain ⟨t, ht, rfl⟩ := (ofField_list hf).mp h
    obtain ⟨t', ht', rfl⟩ := (ofField_list hf).mp h'
    rw [← ho] at ht'
    exact ListTest.alike_condition ht ht' hl
  case neg =>
    obtain ⟨t, ht, rfl⟩ := (ofField_scalar hf).mp h
    obtain ⟨t', ht', rfl⟩ := (ofField_scalar hf).mp h'
    rw [← ho] at ht'
    exact ScalarTest.alike_condition ht ht' hl

end Alike

end MediaCatalog.Filter
