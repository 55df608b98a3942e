import MediaCatalog.Proofs.Except
import MediaCatalog.Proofs.Sql.Condition

namespace MediaCatalog

-- Whether an engine takes a text to have a stretch of text in it.
def Sql.Engine.contains {κ : Type} (e : Engine κ) (stretch text : String) : Bool :=
  e.like (Like.containing stretch) text

namespace Filter

open Sql

-- The tokens of an operand that lists several.
def tokens (operand : String) : List String :=
  (Text.split ',' operand).map Text.trim

section Passing

variable {κ : Type} (e : Engine κ) (type : FieldType)

-- Whether a value is there and compares with the value of a token as it should.
def stands (cell : κ) (accepts : Ordering → Bool) (token : String) : Bool :=
  match readScalar type token with
  | .ok v    => !e.isNull cell && accepts (e.order cell (e.store (.scalar v)))
  | .error _ => false

-- Whether the one value of a field meets what an operator and its operand ask. Only `notIn` is met by null.
def meets (cell : κ) (operand : String) : Operator → Bool
  | .equal          => stands e type cell (· == .eq) operand
  | .notEqual       => stands e type cell (· != .eq) operand
  | .greater        => stands e type cell (· == .gt) operand
  | .greaterOrEqual => stands e type cell (· != .lt) operand
  | .less           => stands e type cell (· == .lt) operand
  | .lessOrEqual    => stands e type cell (· != .gt) operand
  | .between        =>
    match tokens operand with
    | [low, high] => stands e type cell (· != .lt) low && stands e type cell (· != .gt) high
    | _           => false
  | .isIn           => (tokens operand).any (stands e type cell (· == .eq))
  | .notIn          => !(tokens operand).any (stands e type cell (· == .eq))
  | .like           => (e.text? cell).any (e.contains operand)
  | .notLike        => (e.text? cell).any (!e.contains operand ·)

-- Whether the one value of a field passes a filter.
def passes (raw : String) (cell : κ) : Bool :=
  let (o, operand) := Operator.detect raw
  meets e type cell operand o

end Passing

theorem elements_eq_ok_iff {operand : String} {ts : List String} :
    elements operand = .ok ts ↔ "" ∉ tokens operand ∧ ts = tokens operand := by
  rw [elements, ← tokens]
  by_cases h : "" ∈ tokens operand
  case pos => simp [h]
  case neg => simpa [h] using eq_comm

theorem elements_eq_ok {operand : String} {ts : List String}
    (h : elements operand = .ok ts) : ts = tokens operand :=
  (elements_eq_ok_iff.mp h).2

namespace Criterion

variable {f : Field} {raw : String} {a : Criterion}

-- A filter is read by the type of its field, which either has a list or one value.
theorem ofField_list (hf : f.type.isList) : ofField f raw = .ok a ↔
    ∃ test, ListTest.read (Operator.detect raw).2 (Operator.detect raw).1 = .ok test ∧
      ofList test = a := by
  rw [ofField, Except.mapError_eq_ok, read]
  simp only [if_pos hf, Except.map_eq_ok]

theorem ofField_scalar (hf : ¬f.type.isList) : ofField f raw = .ok a ↔
    ∃ test, ScalarTest.read f.type (Operator.detect raw).2 (Operator.detect raw).1 = .ok test ∧
      ofScalar test = a := by
  rw [ofField, Except.mapError_eq_ok, read]
  simp only [if_neg hf, Except.map_eq_ok]

end Criterion

theorem tokens_ne_nil (operand : String) : tokens operand ≠ [] := by
  simp [tokens, Text.split, Text.split.pieces_ne_nil]

-- What is read for a field with one value is of the field's type.
theorem readScalar_isOf {type : FieldType} {token : String} {v : Scalar} (hs : ¬type.isList)
    (h : readScalar type token = .ok v) : v.IsOf type := by
  cases type with
  | text => cases h; trivial
  | textList => exact absurd rfl hs
  | integer | byte | date =>
    obtain ⟨x, _, rfl⟩ := Option.map_eq_some_iff.mp (Except.getDM_throw_eq_ok.mp h)
    trivial

section Tests

variable {κ : Type} (e : Engine κ) (cell : κ)

-- Whether a value that is not null is in a relation to a given one.
def related (r : Relation) (v : Scalar) : Bool :=
  !e.isNull cell && r.holds (e.order cell (e.store (.scalar v)))

namespace ScalarTest

-- What the values of a test are compared with can be stored in a field of the type.
def IsOf (type : FieldType) : ScalarTest → Prop
  | compares _ v       => v.IsOf type
  | between low high   => low.IsOf type ∧ high.IsOf type
  | isIn vs | notIn vs => ∀ v ∈ vs, v.IsOf type
  | like _ | notLike _ => True

-- Whether a value passes a test.
def holds : ScalarTest → Bool
  | compares r v     => related e cell r v
  | between low high => related e cell .greaterOrEqual low && related e cell .lessOrEqual high
  | isIn vs          => vs.any (related e cell .equal)
  | notIn vs         => !vs.any (related e cell .equal)
  | like s           => (e.text? cell).any (e.contains s)
  | notLike s        => (e.text? cell).any (!e.contains s ·)

theorem read_isOf {type : FieldType} {operand : String} {o : Operator} {test : ScalarTest}
    (hs : ¬type.isList) (h : read type operand o = .ok test) : test.IsOf type := by
  have hall {ts : List String} {vs : List Scalar} (h : ts.mapM (readScalar type) = .ok vs) :
      ∀ v ∈ vs, v.IsOf type := by
    intro v hv
    have ⟨t, _, ht⟩ := List.exists_of_mapM_eq_ok h v hv
    exact readScalar_isOf hs ht
  cases o
  case between =>
    obtain ⟨ts, _, h⟩ := Except.bind_eq_ok.mp h
    split at h
    case h_1 low high _ =>
      simp only [Except.bind_eq_ok, Except.pure_eq_ok] at h
      obtain ⟨v, hv, w, hw, rfl⟩ := h
      exact ⟨readScalar_isOf hs hv, readScalar_isOf hs hw⟩
    case h_2 => exact absurd h Except.throw_ne_ok
  case isIn | notIn =>
    simp only [read, Except.bind_eq_ok, Except.pure_eq_ok] at h
    obtain ⟨ts, _, vs, hvs, rfl⟩ := h
    exact hall hvs
  case like | notLike =>
    cases h
    trivial
  all_goals
    obtain ⟨v, hv, rfl⟩ := Except.map_eq_ok.mp h
    exact readScalar_isOf hs hv

-- A test that has been read asks the same as its operator and operand.
theorem holds_read {type : FieldType} {operand : String} {o : Operator} {test : ScalarTest}
    (h : read type operand o = .ok test) : test.holds e cell = meets e type cell operand o := by
  have hone {token : String} {v : Scalar} (hv : readScalar type token = .ok v) (r : Relation)
      {a : Ordering → Bool} (ha : ∀ o, r.holds o = a o) :
      related e cell r v = stands e type cell a token := by
    simp [stands, related, hv, ha]
  have hany {ts : List String} {vs : List Scalar} (h : ts.mapM (readScalar type) = .ok vs) :
      vs.any (related e cell .equal) = ts.any (stands e type cell (· == .eq)) :=
    (List.any_of_mapM_eq_ok h fun t v hv => (hone hv .equal (by decide)).symm).symm
  cases o
  case between =>
    obtain ⟨ts, hts, h⟩ := Except.bind_eq_ok.mp h
    rw [elements_eq_ok hts] at h
    split at h
    case h_1 low high heq =>
      simp only [Except.bind_eq_ok, Except.pure_eq_ok] at h
      obtain ⟨v, hv, w, hw, rfl⟩ := h
      simp only [holds, meets, heq]
      rw [hone hv .greaterOrEqual (a := (· != .lt)) (by decide),
        hone hw .lessOrEqual (a := (· != .gt)) (by decide)]
    case h_2 => exact absurd h Except.throw_ne_ok
  case isIn | notIn =>
    simp only [read, Except.bind_eq_ok, Except.pure_eq_ok] at h
    obtain ⟨ts, hts, vs, hvs, rfl⟩ := h
    simp only [holds, meets, hany hvs, elements_eq_ok hts]
  case like | notLike =>
    cases h
    rfl
  all_goals
    obtain ⟨v, hv, rfl⟩ := Except.map_eq_ok.mp h
    rw [holds, meets]
    exact hone hv _ (by decide)

end ScalarTest

section Truth

variable {e cell} {fits : FieldType → κ → Prop} (h : e.Lawful fits) {type : FieldType}
  {row : Column → κ} {c : Column}

include h

-- A comparison is known where the value is not null.
theorem compareWith_eq (hc : fits type (row c)) (r : Relation) {v : Scalar} (hv : v.IsOf type) :
    Condition.compareWith e row c r v =
      if e.isNull (row c) then none else some (related e (row c) r v) := by
  rw [Condition.compareWith, h.compare_eq hc (h.fits_scalar hv)]
  cases hr : e.isNull (row c) <;> simp [related, h.isNull_scalar, hr]

theorem ScalarTest.truth_condition {test : ScalarTest} (ht : test.IsOf type)
    (hc : fits type (row c)) :
    (test.condition c type).truth e row = some true ↔ test.holds e (row c) := by
  have hone (r : Relation) {v : Scalar} (hv : v.IsOf type) :
      Condition.compareWith e row c r v = some true ↔ related e (row c) r v := by
    rw [compareWith_eq h hc r hv]
    cases hn : e.isNull (row c) <;> simp [related, hn]
  have hany {vs : List Scalar} (hvs : ∀ v ∈ vs, v.IsOf type) :
      (Condition.isIn c vs).truth e row = some true ↔ vs.any (related e (row c) .equal) := by
    simp only [Condition.truth, Truth.any_eq_true, List.any_eq_true, List.mem_map]
    constructor
    · rintro ⟨_, ⟨v, hv, rfl⟩, hvc⟩
      exact ⟨v, hv, (hone .equal (hvs v hv)).mp hvc⟩
    · rintro ⟨v, hv, hvc⟩
      exact ⟨_, ⟨v, hv, rfl⟩, (hone .equal (hvs v hv)).mpr hvc⟩
  cases test with
  | compares r v => exact hone r ht
  | between low high =>
    simp [condition, holds, hone _ ht.1, hone _ ht.2]
  | isIn vs => exact hany ht
  | notIn vs =>
    have := (hany ht).not
    rwa [Bool.not_eq_true, ← Bool.not_eq_true', ← ne_eq, ← Truth.orFalse_eq_false,
      ← Truth.not_eq_true] at this
  | like s =>
    cases hx : e.text? (row c) <;> simp [condition, holds, Engine.contains, hx]
  | notLike s =>
    cases hx : e.text? (row c) <;> simp [condition, holds, Engine.contains, hx]

-- The condition of a filter on a field with one value is true of the values that pass the filter.
theorem Criterion.truth_condition_scalar {f : Field} {raw : String} {a : Criterion}
    (hf : ¬f.type.isList) (ha : Criterion.ofField f raw = .ok a)
    (hc : fits f.type (row (Column.ofField f))) :
    (a.condition f).truth e row = some true ↔ passes e f.type raw (row (Column.ofField f)) := by
  obtain ⟨test, ht, rfl⟩ := (ofField_scalar hf).mp ha
  have htest := ScalarTest.truth_condition h (ScalarTest.read_isOf hf ht) hc
  rwa [ScalarTest.holds_read e _ ht] at htest

end Truth

end Tests

section Lists

-- Whether a list of texts meets what an operator and its operand ask; `contains` says which texts have the
-- operand as a stretch. An operator for single values is met by no list.
def meetsList (contains : (stretch text : String) → Prop) (l : List String) (operand : String) :
    Operator → Prop
  | .equal    => operand ∈ l
  | .notEqual => operand ∉ l
  | .isIn     => ∀ t ∈ tokens operand, t ∈ l
  | .notIn    => ¬∀ t ∈ tokens operand, t ∈ l
  | .like     => ∃ t ∈ l, contains operand t
  | .notLike  => ¬∃ t ∈ l, contains operand t
  | _         => False

-- Whether a list of texts passes a filter.
def passesList (contains : (stretch text : String) → Prop) (raw : String) (l : List String) : Prop :=
  let (o, operand) := Operator.detect raw
  meetsList contains l operand o

variable {κ : Type} {e : Engine κ} {row : Column → κ}

theorem ListTest.truth_condition {operand : String} {o : Operator} {test : ListTest} {c : Column}
    (h : read operand o = .ok test) :
    ∃ b, (test.condition c).truth e row = some b ∧
      (b ↔ meetsList (e.contains · ·) (e.elements (row c)) operand o) := by
  cases o
  case equal | notEqual | like | notLike =>
    cases h
    exact ⟨_, rfl, by simp [meetsList, Engine.contains]⟩
  case isIn | notIn =>
    obtain ⟨ts, hts, rfl⟩ := Except.map_eq_ok.mp h
    rw [elements_eq_ok hts]
    exact ⟨_, rfl, by simp [meetsList]⟩
  all_goals exact absurd h Except.throw_ne_ok

-- The condition of a filter on a list is true or false; null has no elements.
theorem Criterion.truth_condition_list {f : Field} {raw : String} {a : Criterion}
    (hf : f.type.isList) (ha : Criterion.ofField f raw = .ok a) :
    ∃ b, (a.condition f).truth e row = some b ∧
      (b ↔ passesList (e.contains · ·) raw
        (e.elements (row (Column.ofField f)))) := by
  obtain ⟨test, ht, rfl⟩ := (ofField_list hf).mp ha
  exact ListTest.truth_condition ht

end Lists

section Text

variable {operand : String} {o : Operator} {c : Column} (hc : Schema.isIdentifier c.name)

include hc

theorem ScalarTest.isProper_condition {type : FieldType} {test : ScalarTest}
    (h : read type operand o = .ok test) : (test.condition c type).IsProper := by
  have hne {ts : List String} {vs : List Scalar} (hts : elements operand = .ok ts)
      (hvs : ts.mapM (readScalar type) = .ok vs) : vs ≠ [] := by
    rintro rfl
    have := List.forall₂_nil_right_iff.mp (List.mapM_eq_ok.mp hvs)
    exact tokens_ne_nil operand (elements_eq_ok hts ▸ this)
  cases o
  case between =>
    obtain ⟨ts, _, h⟩ := Except.bind_eq_ok.mp h
    split at h
    case h_1 =>
      simp only [Except.bind_eq_ok, Except.pure_eq_ok] at h
      obtain ⟨v, _, w, _, rfl⟩ := h
      exact hc
    case h_2 => exact absurd h Except.throw_ne_ok
  case isIn | notIn =>
    simp only [read, Except.bind_eq_ok, Except.pure_eq_ok] at h
    obtain ⟨ts, hts, vs, hvs, rfl⟩ := h
    exact ⟨hc, hne hts hvs⟩
  case like | notLike =>
    cases h
    exact hc
  all_goals
    obtain ⟨v, _, rfl⟩ := Except.map_eq_ok.mp h
    exact hc

theorem ListTest.isProper_condition {test : ListTest} (h : read operand o = .ok test) :
    (test.condition c).IsProper := by
  cases o
  case isIn | notIn =>
    obtain ⟨ts, hts, rfl⟩ := Except.map_eq_ok.mp h
    exact ⟨hc, elements_eq_ok hts ▸ tokens_ne_nil operand⟩
  case equal | notEqual | like | notLike =>
    cases h
    exact hc
  all_goals exact absurd h Except.throw_ne_ok

omit hc in
-- What a filter asks can be written down if the column of its field can.
theorem Criterion.isProper_condition {f : Field} {raw : String} {a : Criterion}
    (hf : Schema.isIdentifier f.column) (ha : Criterion.ofField f raw = .ok a) :
    (a.condition f).IsProper := by
  by_cases hl : f.type.isList
  case pos =>
    obtain ⟨test, ht, rfl⟩ := (ofField_list hl).mp ha
    exact ListTest.isProper_condition hf ht
  case neg =>
    obtain ⟨test, ht, rfl⟩ := (ofField_scalar hl).mp ha
    exact ScalarTest.isProper_condition hf ht

end Text

end Filter

end MediaCatalog
