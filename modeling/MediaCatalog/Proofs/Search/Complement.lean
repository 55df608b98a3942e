import MediaCatalog.Proofs.Filter.Operand
import MediaCatalog.Proofs.Filter.Operator
import MediaCatalog.Proofs.Search.Page

namespace MediaCatalog

open Sql

-- Two conditions of which one is true of every row and the other is not.
def Sql.Condition.Opposes {κ : Type} (e : Engine κ) (a b : Condition) : Prop :=
  ∀ row : Column → κ, b.truth e row = some true ↔ a.truth e row ≠ some true

namespace Filter

theorem Operator.detect_notIn (operand : String) : detect ("!:" ++ operand) = (.notIn, operand) :=
  (detect_mark_iff (o := .notIn)).mpr fun _ _ => List.not_mem_nil

variable {κ : Type} {e : Engine κ} {f : Field} {raw raw' operand : String} {a : Criterion}

-- The condition of a criterion is about the column of its field.
theorem Criterion.truth_congr (a : Criterion) {row row' : Column → κ}
    (h : row (Column.ofField f) = row' (Column.ofField f)) :
    (a.condition f).truth e row = (a.condition f).truth e row' := by
  have hcompare : Condition.compareWith e row (Column.ofField f) =
      Condition.compareWith e row' (Column.ofField f) := by
    funext r v
    rw [Condition.compareWith, Condition.compareWith, h]
  cases a with
  | ofScalar test => cases test <;> simp [condition, ScalarTest.condition, Condition.truth, hcompare, h]
  | ofList test => cases test <;> simp [condition, ListTest.condition, Condition.truth, h]

-- How many levels the condition of a filter by a list of tokens has at most.
def heightIn (f : Field) (operand : String) : Nat :=
  if f.type.isList then (tokens operand).length + 4 else 5

-- A list of tokens that IN takes is one that NOT IN takes, and it turns the filter around but binds the same values.
theorem Criterion.exists_notIn (hd : Operator.detect raw = (.isIn, operand))
    (hd' : Operator.detect raw' = (.notIn, operand)) (ha : ofField f raw = .ok a) :
    ∃ b, ofField f raw' = .ok b ∧ b.operands = a.operands ∧ (a.condition f).Opposes e (b.condition f) ∧
      ∀ c ∈ [a.condition f, b.condition f], c.height ≤ heightIn f operand ∧
        ∀ row : Column → κ, c.isRefused e row = false := by
  by_cases hf : f.type.isList
  case pos =>
    obtain ⟨test, ht, rfl⟩ := (ofField_list hf).mp ha
    rw [hd] at ht
    obtain ⟨ts, hts, rfl⟩ := Except.map_eq_ok.mp ht
    have hpos := List.length_pos_iff.mpr (tokens_ne_nil operand)
    rw [← elements_eq_ok hts] at hpos
    refine ⟨.ofList (.hasNotAll ts), (ofField_list hf).mpr ⟨_, by rw [hd', ListTest.read, hts]; rfl, rfl⟩, rfl, ?_, ?_⟩
    · intro row
      simp [condition, ListTest.condition]
    · rw [heightIn, if_pos hf, ← elements_eq_ok hts]
      simp only [condition, ListTest.condition, Condition.height, Condition.isRefused, List.forall_mem_cons,
        List.not_mem_nil, false_imp_iff, implies_true, and_true]
      omega
  case neg =>
    obtain ⟨test, ht, rfl⟩ := (ofField_scalar hf).mp ha
    rw [hd] at ht
    simp only [ScalarTest.read, Except.bind_eq_ok, Except.pure_eq_ok] at ht
    obtain ⟨ts, hts, vs, hvs, rfl⟩ := ht
    refine ⟨.ofScalar (.notIn vs), (ofField_scalar hf).mpr
      ⟨_, by rw [hd']; simp [ScalarTest.read, hts, hvs], rfl⟩, rfl, ?_, ?_⟩
    · intro row
      simp [condition, ScalarTest.condition]
    · rw [heightIn, if_neg hf]
      simp [condition, ScalarTest.condition, Condition.height, Condition.isRefused]

end Filter

namespace Tables

variable {κ : Type} {e : Engine κ} {k : Kind} {p : Predicate} {t : Tables κ} {r : StoredRow κ}

variable {a b : Condition} (hab : a.Opposes e b)

include hab

-- A row that passes a predicate passes one of two opposite conditions.
theorem mem_matching_opposes {j : JoinedRow κ} : j ∈ t.matching e k p r ↔
    j ∈ t.matching e k (p ++ [a]) r ∨ j ∈ t.matching e k (p ++ [b]) r := by
  rw [mem_matching_concat, mem_matching_concat, hab, ← and_or_left, and_iff_left (Classical.em _)]

theorem mem_found_opposes :
    r ∈ t.found e k p ↔ r ∈ t.found e k (p ++ [a]) ∨ r ∈ t.found e k (p ++ [b]) := by
  simp only [mem_found_iff, ← and_or_left, ← exists_or, ← mem_matching_opposes hab]

variable (hu : ∀ r ∈ t.roots, ∀ i ∈ t.matching e k p r, ∀ j ∈ t.matching e k p r,
  a.truth e (i.get e) = a.truth e (j.get e))

include hu

-- Where all rows of an entry are alike, they pass the same condition.
theorem not_mem_found_opposes (hr : r ∈ t.found e k (p ++ [a])) : r ∉ t.found e k (p ++ [b]) := by
  intro hr'
  obtain ⟨hroot, i, hi⟩ := mem_found_iff.mp hr
  obtain ⟨_, j, hj⟩ := mem_found_iff.mp hr'
  obtain ⟨hi, ha⟩ := mem_matching_concat.mp hi
  obtain ⟨hj, hb⟩ := mem_matching_concat.mp hj
  exact (hab _).mp hb (hu r hroot i hi j hj ▸ ha)

theorem length_found_opposes : (t.found e k (p ++ [a])).length + (t.found e k (p ++ [b])).length =
    (t.found e k p).length := by
  have hfound (q : Predicate) (hq : ∀ r ∈ t.found e k q, r ∈ t.found e k p) :
      t.found e k q = (t.found e k p).filter fun r => !(t.matching e k q r).isEmpty := by
    rw [found, found, List.filter_filter]
    refine List.filter_congr fun r hr => ?_
    have := hq r
    simp only [mem_found, hr, true_and] at this
    rw [Bool.eq_iff_iff, Bool.and_eq_true]
    simpa using this
  have hopposite : (t.found e k p).filter (fun r => !(t.matching e k (p ++ [b]) r).isEmpty) =
      (t.found e k p).filter fun r => !!(t.matching e k (p ++ [a]) r).isEmpty := by
    refine List.filter_congr fun r hr => ?_
    have hor := (mem_found_opposes hab).mp hr
    have hnot := not_mem_found_opposes hab hu (r := r)
    simp only [mem_found, (mem_found.mp hr).1, true_and] at hor hnot
    rw [Bool.eq_iff_iff]
    simp only [Bool.not_eq_true', List.isEmpty_eq_false_iff, Bool.not_not, List.isEmpty_iff]
    tauto
  rw [hfound _ fun r hr => (mem_found_opposes hab).mpr (.inl hr),
    hfound _ fun r hr => (mem_found_opposes hab).mpr (.inr hr), hopposite]
  exact (List.length_eq_length_filter_add _).symm

end Tables

namespace Search

variable {κ : Type} {e : Engine κ} {fits : FieldType → κ → Prop} {s : Search} {p : Predicate} {t : Tables κ}
  {k : Kind} {r : StoredRow κ} (h : e.Lawful fits) (ht : t.IsSound e fits s.schema) (hk : s.schema.kind = k)
  (hr : r ∈ t.roots) {i j : JoinedRow κ} (hi : i ∈ t.matching e k p r) (hj : j ∈ t.matching e k p r)

include h ht hk hr hi hj

theorem eq_of_language (hl : i.language e = j.language e) : i = j := by
  subst hk
  exact eq_of_compareLanguages h ht hr hi hj (h.order_text_eq.mpr hl)

-- The rows of an entry are alike to a filter on a field of its own, and in one language there is one row only.
theorem truth_eq_of_matching (hp : s.predicate none = .ok p) {f : Field}
    (hf : f.owner = .root ∨ ∃ tag, s.language = .tag tag) (a : Filter.Criterion) :
    (a.condition f).truth e (i.get e) = (a.condition f).truth e (j.get e) := by
  cases hf with
  | inl hroot =>
    refine a.truth_congr ?_
    simp only [Column.ofField, hroot, JoinedRow.get, (Tables.mem_matching.mp hi).1, (Tables.mem_matching.mp hj).1]
  | inr htag =>
    obtain ⟨tag, htag⟩ := htag
    have hlanguage {j : JoinedRow κ} (hj : j ∈ t.matching e k p r) : j.language e = tag :=
      language_matching h ht hp hr (hk ▸ hj) htag
    rw [eq_of_language h ht hk hr hi hj ((hlanguage hi).trans (hlanguage hj).symm)]

end Search

end MediaCatalog
