import MediaCatalog.Proofs.Filter.Lists
import MediaCatalog.Proofs.Filter.Operator
import MediaCatalog.Proofs.Sql.Dialect
import MediaCatalog.Query

namespace MediaCatalog

open Sql

-- The texts that a value is shown as: a list has one for each of its elements, null has none.
def Json.texts : Json → List String
  | .int n  => [Text.decimal n]
  | .str s  => [s]
  | .arr js => js.filterMap Json.str?
  | _       => []

theorem Json.texts_strs (l : List String) : (Json.strs l).texts = l := by
  rw [strs, texts, List.filterMap_map]
  exact (List.filterMap_congr fun _ _ => rfl).trans List.filterMap_some

-- A text without a mark in front is its own operand.
theorem Filter.Operator.detect_of_not_mark {text : String} (h : ∀ c ∈ text.toList.head?, Query.isMark c = false) :
    detect text = (.equal, text) := by
  have hsequels : ∀ c ∈ equal.sequels, Query.isMark c := List.all_eq_true.mp (by decide)
  have hmark : equal.mark ++ text = text := String.empty_append
  have hdetect : detect (equal.mark ++ text) = (equal, text) := by
    apply detect_mark_iff.mpr
    intro c hc hsequel
    exact absurd (hsequels c hsequel) (by simp [h c hc])
  rwa [hmark] at hdetect

namespace Sql

variable {κ : Type} {e : Engine κ} {fits : FieldType → κ → Prop}

theorem Engine.Lawful.compare_self (h : e.Lawful fits) {τ : FieldType} {v : Scalar} (hv : v.IsOf τ) :
    e.compare? (e.store (.scalar v)) (e.store (.scalar v)) = some .eq := by
  have hfit : fits τ (e.store (.scalar v)) := h.fits_scalar hv
  have heq : e.order (e.store (.scalar v)) (e.store (.scalar v)) = .eq := by
    have hswap := h.order_swap hfit hfit
    generalize e.order _ _ = o at hswap
    cases o <;> first | rfl | cases hswap
  rw [h.compare_eq hfit hfit, h.isNull_scalar, heq]
  rfl

-- Every element of a list is stored.
theorem Dialect.elements_list (d : Dialect) (l : List String) :
    d.engine.elements (d.engine.store (.list l)) = l := by
  cases d with
  | sqlite => exact Filter.elements_sqlite (some l)
  | postgres => exact Filter.elements_postgres (some l)

end Sql

namespace Filter

-- What is read of a text that a value of a type is shown as.
theorem readScalar_of_texts {τ : FieldType} {v : Scalar} (hv : (Value.scalar v).Suits τ) {text : String}
    (ht : text ∈ (Value.scalar v).json.texts) : readScalar τ text = .ok v := by
  cases v with
  | text s =>
    cases List.mem_singleton.mp ht
    cases τ <;> first | rfl | exact hv.elim
  | int n =>
    cases List.mem_singleton.mp ht
    cases τ with
    | integer => rw [readScalar, Text.readInt64?, Text.readInt?_decimal hv]; rfl
    | byte => rw [readScalar, Text.readInt?_decimal hv]; rfl
    | text | date | textList => exact hv.elim
  | date d =>
    cases List.mem_singleton.mp ht
    cases τ with
    | date => rw [readScalar, Date.read?_text]; rfl
    | text | integer | byte | textList => exact hv.elim

-- A text that a value is shown as is a filter which binds the value or an element of it, and what is stored of the
-- value passes the filter.
theorem Criterion.exists_equal (d : Dialect) {f : Field} {v : Value} (hv : v.Suits f.type) {text : String}
    (ht : text ∈ v.json.texts) (hd : Operator.detect text = (.equal, text)) :
    ∃ a, ofField f text = .ok a ∧ (∃ w, a.operands = [w] ∧ (d.engine.takes v → d.engine.takes w)) ∧
      (a.condition f).height ≤ 4 ∧
      (∀ row, (a.condition f).isRefused d.engine row = false) ∧
      ∀ row, row (Column.ofField f) = d.engine.store v → (a.condition f).truth d.engine row = some true := by
  have h := d.faithful_engine.toLawful
  cases v with
  | null => exact absurd ht List.not_mem_nil
  | scalar v =>
    have hof : v.IsOf f.type := hv.isOf
    have hf : ¬f.type.isList := by
      generalize f.type = τ at hof
      cases τ <;> first | decide | exact hof.elim
    have hread : ofField f text = .ok (.ofScalar (.compares .equal v)) := by
      rw [ofField_scalar hf, hd]
      exact ⟨_, by rw [ScalarTest.read, readScalar_of_texts hv ht]; rfl, rfl⟩
    refine ⟨_, hread, ⟨_, rfl, id⟩, Nat.le_succ 3, fun _ => rfl, fun row hrow => ?_⟩
    simp only [condition, ScalarTest.condition, Condition.truth, Condition.compareWith, hrow, h.compare_self hof]
    rfl
  | list l =>
    have hf : f.type.isList := by
      generalize f.type = τ at hv
      cases τ <;> first | rfl | exact hv.elim
    have hread : ofField f text = .ok (.ofList (.has text)) := by
      rw [ofField_list hf, hd]
      exact ⟨_, rfl, rfl⟩
    have hitem : text ∈ l := by rwa [Value.json, Json.texts_strs] at ht
    refine ⟨_, hread, ⟨_, rfl, fun htakes => d.faithful_engine.takes_list htakes text hitem⟩,
      by simp [condition, ListTest.condition, Condition.height], fun _ => rfl, fun row hrow => ?_⟩
    simp [condition, ListTest.condition, Condition.truth, hrow, d.elements_list, hitem]

end Filter

end MediaCatalog
