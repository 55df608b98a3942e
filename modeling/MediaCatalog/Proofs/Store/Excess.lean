import MediaCatalog.Proofs.Search.Parameters
import MediaCatalog.Proofs.Sql.Dialect

namespace MediaCatalog

open Sql

variable {κ : Type} {e : Engine κ} {p : Predicate}

namespace Sql.Predicate

theorem foldl_height_le {m : Nat} (hm : ∀ a ∈ p, a.height ≤ m) (n : Nat) :
    p.foldl (fun n a => max n a.height + 1) n ≤ max n m + p.length := by
  induction p generalizing n with
  | nil => exact Nat.le_max_left ..
  | cons a p ih =>
    have ha := hm a (by simp)
    have := ih (fun b hb => hm b (by simp [hb])) (max n a.height + 1)
    rw [List.foldl_cons, List.length_cons]
    omega

-- The conditions of a predicate are nested one in the other.
theorem depth_le {m : Nat} (hm : ∀ a ∈ p, a.height ≤ m) : p.depth ≤ m + p.length + 3 := by
  cases p with
  | nil =>
    rw [depth, List.length_nil]
    omega
  | cons a p =>
    have ha := hm a (by simp)
    have := foldl_height_le (p := p) (fun b hb => hm b (List.mem_cons_of_mem a hb)) a.height
    rw [depth, List.length_cons]
    omega

theorem isRefused_eq_false {row : Column → κ} (hp : ∀ a ∈ p, a.isRefused e row = false) :
    p.isRefused e row = false := by
  induction p with
  | nil => rfl
  | cons a p ih => simp [isRefused, hp a (by simp), ih fun b hb => hp b (by simp [hb])]

end Sql.Predicate

namespace Search

-- What the predicate of a search binds: the language, then the operands, then the entries.
theorem values_predicate (d : Dialect) (l : Language) (filters : Predicate) (scope : Option (List Int)) :
    (l.predicate ++ filters ++ (scope.map among).toList : Predicate).values d =
      l.values ++ filters.values d ++ (scope.getD []).map .int := by
  simp only [values_eq_flatMap, List.flatMap_append, ← values_language d]
  cases scope with
  | none => rfl
  | some ids => simp [values_among]

theorem values_unfiltered (d : Dialect) (l : Language) (scope : Option (List Int)) :
    (l.predicate ++ (scope.map among).toList : Predicate).values d = l.values ++ (scope.getD []).map .int := by
  have hvalues := values_predicate d l [] scope
  rwa [List.append_nil, show Predicate.values [] d = [] from rfl, List.append_nil] at hvalues

end Search

namespace Tables

variable {t : Tables κ} {k : Kind} {more : List Value}

theorem excess?_eq_none (hv : e.excess? (p.values .sqlite ++ more) = none) (hd : ∀ n ∈ e.limits.depth, p.depth ≤ n)
    (hp : ∀ a ∈ p, ∀ row : Column → κ, a.isRefused e row = false) : t.excess? e k p more = none := by
  have hrows : excess?.onRows e k p t = none := by
    have hrefused (row : Column → κ) := Predicate.isRefused_eq_false fun a ha => hp a ha row
    simp [excess?.onRows, hrefused]
  have hdeep : excess?.tooDeep e p = none := by
    rw [excess?.tooDeep, Option.map_eq_none_iff, Option.filter_eq_none_iff]
    exact fun n hn => by simpa using hd n hn
  rw [excess?, hv, hdeep, hrows]
  rfl

theorem mem_predicate {l : Language} {a : Condition} (ha : a ∈ l.predicate) :
    ∃ tag, a = .compares Column.language .equal (.text tag) := by
  cases l with
  | any => simp [Language.predicate] at ha
  | tag tag => exact ⟨tag, by simpa [Language.predicate] using ha⟩

-- Neither the language of a search nor its scope makes a statement too much, unless its filters do or its values are
-- too many.
theorem excess?_of_filters (l : Language) (scope : Option (List Int)) (filters : Predicate)
    (hv : e.excess? (l.values ++ filters.values .sqlite ++ (scope.getD []).map .int ++ more) = none)
    (hf : ∀ a ∈ filters, ∀ row : Column → κ, a.isRefused e row = false) {m : Nat} (hm : 3 ≤ m)
    (hh : ∀ a ∈ filters, a.height ≤ m) (hd : ∀ n ∈ e.limits.depth, m + filters.length + 5 ≤ n) :
    t.excess? e k (l.predicate ++ filters ++ (scope.map Search.among).toList) more = none := by
  have hlanguage : ∀ a ∈ l.predicate, a.height ≤ m ∧ ∀ row : Column → κ, a.isRefused e row = false := by
    intro a ha
    obtain ⟨tag, rfl⟩ := mem_predicate ha
    exact ⟨hm, fun _ => rfl⟩
  have hscope : ∀ a ∈ (scope.map Search.among).toList,
      a.height ≤ m ∧ ∀ row : Column → κ, a.isRefused e row = false := by
    intro a ha
    obtain ⟨ids, _, rfl⟩ := Option.map_eq_some_iff.mp (Option.mem_toList.mp ha)
    cases ids with
    | nil => exact ⟨Nat.le_of_succ_le hm, fun _ => rfl⟩
    | cons => exact ⟨hm, fun _ => rfl⟩
  refine excess?_eq_none (by rwa [Search.values_predicate]) (fun n hn => ?depth) ?refused
  case depth =>
    have hle : ∀ a ∈ l.predicate ++ filters ++ (scope.map Search.among).toList, a.height ≤ m := by
      simp only [List.forall_mem_append]
      exact ⟨⟨fun a ha => (hlanguage a ha).1, hh⟩, fun a ha => (hscope a ha).1⟩
    have hdepth := Predicate.depth_le hle
    have hone : l.predicate.length ≤ 1 := by cases l <;> simp [Language.predicate]
    have hone' : (scope.map Search.among).toList.length ≤ 1 := by cases scope <;> simp
    have := hd n hn
    rw [List.length_append, List.length_append] at hdepth
    omega
  case refused =>
    simp only [List.forall_mem_append]
    exact ⟨⟨fun a ha => (hlanguage a ha).2, hf⟩, fun a ha => (hscope a ha).2⟩

-- A statement without filters is too much for the engine only for what it binds.
theorem excess?_unfiltered {fits : FieldType → κ → Prop} (h : e.Faithful fits) (l : Language)
    (scope : Option (List Int)) (hv : e.excess? (l.values ++ (scope.getD []).map .int ++ more) = none) :
    t.excess? e k (l.predicate ++ (scope.map Search.among).toList) more = none := by
  have hnone : t.excess? e k (l.predicate ++ [] ++ (scope.map Search.among).toList) more = none :=
    excess?_of_filters l scope [] (by rwa [show Predicate.values [] .sqlite = [] from rfl, List.append_nil]) (by simp)
      (le_refl 3) (by simp) fun n hn => Nat.le_trans (by decide) (h.depth n hn)
  rwa [List.append_nil] at hnone

-- A statement about a single entry is never too much, if there is such a language.
theorem excess?_single {fits : FieldType → κ → Prop} (h : e.Faithful fits) {l : Language}
    (hl : ∀ v ∈ l.values, e.takes v) (id : Int) :
    t.excess? e k (l.predicate ++ [Search.among [id]]) [] = none := by
  refine excess?_unfiltered h l (some [id]) (Engine.excess?_eq_none.mpr ⟨?_, ?_⟩)
  · have hone : l.values.length ≤ 1 := by cases l <;> simp [Language.values]
    have := h.values
    simp
    omega
  · simp only [Option.getD_some, List.map_singleton, List.append_nil, List.forall_mem_append,
      List.forall_mem_singleton]
    exact ⟨hl, h.takes_int id⟩

end Tables

end MediaCatalog
