import MediaCatalog.Proofs.Filter.Shape
import MediaCatalog.Proofs.Search.Dialects

namespace MediaCatalog

open Sql MediaCatalog.Filter

namespace Building

variable {α β : Type}

theorem ofWriting_bind (m : Writing α) (g : α → Writing β) :
    ofWriting (m >>= g) = ofWriting m >>= fun a => ofWriting (g a) :=
  (rfl)

theorem ofWriting_pure (a : α) : ofWriting (pure a) = pure a :=
  (rfl)

theorem ofWriting_mapM (g : α → Writing β) (as : List α) :
    ofWriting (as.mapM g) = as.mapM fun a => ofWriting (g a) := by
  induction as with
  | nil => rfl
  | cons a as ih => simp only [List.mapM_cons, ofWriting_bind, ofWriting_pure, ih]

end Building

namespace Search

open Building

variable (y : Style)

theorem renderIn_eq (c : Column) (vs : List Scalar) :
    renderIn y c.text vs = ofWriting ((Condition.isIn c vs).write y) := by
  rw [renderIn, Condition.write, ofWriting_bind, ofWriting_mapM]
  rfl

theorem renderHasAll_eq (c : Column) (items : List String) :
    renderHasAll y c.text (items.map .text) =
      ofWriting (do return String.intercalate " AND " (← items.mapM fun item => (Condition.has c item).write y)) := by
  rw [renderHasAll, ofWriting_bind, ofWriting_mapM, List.mapM_map]
  rfl

theorem renderScalar_parts (f : Field) (test : ScalarTest) :
    renderScalar y f (Column.ofField f).text test.parts.1 test.parts.2 =
      ofWriting ((test.condition (Column.ofField f) f.type).write y) := by
  cases test with
  | compares r v => cases r <;> rfl
  | between low high => rfl
  | isIn vs => exact renderIn_eq y _ vs
  | notIn vs =>
    have hnot : "NOT COALESCE(" = "NOT " ++ "COALESCE(" := rfl
    simp only [ScalarTest.parts, renderScalar, renderIn_eq, hnot, String.append_assoc]
    simp only [ScalarTest.condition, Condition.write, ofWriting_bind, ofWriting_pure, bind_assoc, pure_bind,
      String.append_assoc]
  | like s =>
    simp only [ScalarTest.parts, renderScalar, bindPattern, Scalar.asText, ScalarTest.condition, Condition.write,
      ofWriting_bind, ofWriting_pure]
    cases f.type <;> rfl
  | notLike s =>
    simp only [ScalarTest.parts, renderScalar, bindPattern, Scalar.asText, ScalarTest.condition, Condition.write,
      ofWriting_bind, ofWriting_pure]
    cases f.type <;> rfl

theorem renderList_parts (f : Field) (test : ListTest) :
    renderList y f (Column.ofField f).text test.parts.1 test.parts.2 =
      ofWriting ((test.condition (Column.ofField f)).write y) := by
  cases test with
  | has item => rfl
  | hasNot item => rfl
  | like s => rfl
  | notLike s => rfl
  | hasAll items =>
    simp only [ListTest.parts, renderList, renderHasAll_eq]
    rfl
  | hasNotAll items =>
    have hnot : "NOT (" = "NOT " ++ "(" := rfl
    simp only [ListTest.parts, renderList, renderHasAll_eq, hnot, String.append_assoc]
    rfl

-- What is rendered for a filter value that has been read is what is written for its criterion.
theorem render_parts {f : Field} {raw : String} {a : Criterion} (ha : Criterion.ofField f raw = .ok a) :
    render y f a.parts.1 a.parts.2 = ofWriting ((a.condition f).write y) := by
  by_cases hf : f.type.isList
  case pos =>
    obtain ⟨test, -, rfl⟩ := (Criterion.ofField_list hf).mp ha
    rw [render, if_pos hf]
    exact renderList_parts y f test
  case neg =>
    obtain ⟨test, -, rfl⟩ := (Criterion.ofField_scalar hf).mp ha
    rw [render, if_neg hf]
    exact renderScalar_parts y f test

theorem mapError_parse (f : Field) (raw : String) :
    (parse f.type raw).mapError (·.fault f) = Criterion.parts <$> Criterion.ofField f raw := by
  rw [parse_eq, Criterion.ofField]
  cases Criterion.read f.type raw <;> rfl

-- A filter is rendered as its condition is written.
theorem renderFilter_eq (schema : Schema) (name raw : String) :
    renderFilter y schema name raw =
      (do let a ← condition schema name raw
          ofWriting (a.write y)) := by
  funext vs
  refine (run_liftM_bind (schema.resolve name) _ vs).trans (Eq.trans ?_ (run_liftM_bind (condition ..) _ vs).symm)
  rw [condition]
  cases schema.resolve name with
  | error m => rfl
  | ok f =>
    simp only [Except.ok_bind, mapError_parse, run_liftM_bind]
    cases ha : Criterion.ofField f raw with
    | error m => rfl
    | ok a => exact congrFun (render_parts y ha) vs

theorem renderScope_eq (ids : Option (List Int)) :
    renderScope y ids = ofWriting (Predicate.write y (ids.map among).toList) := by
  cases ids with
  | none => rfl
  | some ids =>
    cases ids with
    | nil => rfl
    | cons i ids =>
      rw [renderScope, renderIn_eq]
      · rfl
      · exact nofun

theorem build_eq (ids : Option (List Int)) (s : Search) : s.build y ids = s.buildClauses y ids := by
  simp only [build, buildClauses, renderFilter_eq, renderScope_eq]

end Search

end MediaCatalog
