import MediaCatalog.Proofs.Sql.Condition
import MediaCatalog.Proofs.Store.Order
import Mathlib.Data.List.Nodup

namespace MediaCatalog.Tables

open Sql

variable {κ : Type}

-- Tables that keep what a schema promises: entries have numbers of their own, and every translation belongs to
-- an entry, which it is the only one of in its language.
structure IsSound (e : Engine κ) (fits : FieldType → κ → Prop) (s : Schema) (t : Tables κ) : Prop where
  roots    : (t.roots.map (·.id)).Nodup
  owned    : ∀ u ∈ t.translations, ∃ r ∈ t.roots, u.get e s.kind.foreignKey = e.store (.int r.id)
  language : ∀ u ∈ t.translations, ∃ l, u.get e "language" = e.store (.text l)
  single   : t.translations.Pairwise fun u v =>
    u.get e s.kind.foreignKey = v.get e s.kind.foreignKey → u.get e "language" ≠ v.get e "language"
  fits     : ∀ f ∈ s.fields, ∀ r ∈ t.rows f.owner, fits f.type (r.get e f.column)

section

variable (e : Engine κ) (k : Kind) (p : Predicate) (t : Tables κ)

-- The rows that pass of those that an entry makes up with its translations.
def matching (r : StoredRow κ) : List (JoinedRow κ) :=
  (t.translations.map (JoinedRow.mk r)).filter fun j =>
    e.compare? (j.translation.get e k.foreignKey) (e.store (.int r.id)) == some .eq &&
      p.holds e (j.get e)

-- The entries with a row that passes.
def found : List (StoredRow κ) :=
  t.roots.filter fun r => !(matching e k p t r).isEmpty

-- How two entries compare, each by the least or the greatest values of its rows, and then by their numbers.
def compareFound : List OrderTerm → StoredRow κ → StoredRow κ → Ordering
  | [],      a, b => compare a.id b.id
  | o :: os, a, b =>
    let key (r : StoredRow κ) :=
      e.aggregate o.direction ((matching e k p t r).map (·.get e o.column))
    let first :=
      match o.direction with
      | .ascending  => e.order (key a) (key b)
      | .descending => e.order (key b) (key a)
    first.then (compareFound os a b)

def ranked (order : List OrderTerm) : List (StoredRow κ) :=
  (found e k p t).mergeSort fun a b => (compareFound e k p t order a b).isLE

end

section

variable (e : Engine κ)

-- How two rows of an entry compare by their languages.
def compareLanguages (a b : JoinedRow κ) : Ordering :=
  e.order (e.store (.text (a.language e))) (e.store (.text (b.language e)))

variable (s : Schema) (p : Predicate) (t : Tables κ)

-- All that is shown of an entry: what is its own, and those of its translations that passed.
def entryOf (r : StoredRow κ) : Entry where
  id := r.id
  attributes := r.shown e s.rootFields
  translations :=
    ((matching e s.kind p t r).mergeSort fun a b => (compareLanguages e a b).isLE).map fun j =>
      ⟨j.language e, j.translation.shown e s.translationFields⟩

-- All entries that are found, in order.
def listing (order : List OrderTerm) : List Entry :=
  (ranked e s.kind p t order).map (entryOf e s p t)

-- The page of a number and a size.
def pageOf (order : List OrderTerm) (number size : Nat) : List Entry :=
  ((listing e s p t order).drop (number * size)).take size

end

section Rows

variable {e : Engine κ} {k : Kind} {p : Predicate} {t : Tables κ}

theorem mem_matching {r : StoredRow κ} {j : JoinedRow κ} :
    j ∈ matching e k p t r ↔ j.root = r ∧ j.translation ∈ t.translations ∧
      e.compare? (j.translation.get e k.foreignKey) (e.store (.int r.id)) = some .eq ∧
        p.holds e (j.get e) := by
  simp only [matching, List.mem_filter, List.mem_map, Bool.and_eq_true, beq_iff_eq]
  constructor
  · rintro ⟨⟨u, hu, rfl⟩, hk, hp⟩
    exact ⟨rfl, hu, hk, hp⟩
  · rintro ⟨rfl, hu, hk, hp⟩
    exact ⟨⟨j.translation, hu, rfl⟩, hk, hp⟩

-- More conditions leave the rows that they are true of.
theorem matching_append {r : StoredRow κ} {q : Predicate} :
    matching e k (p ++ q) t r = (matching e k p t r).filter fun j => q.holds e (j.get e) := by
  rw [matching, matching, List.filter_filter]
  refine List.filter_congr fun j _ => ?_
  rw [Bool.eq_iff_iff]
  simp only [Bool.and_eq_true, beq_iff_eq, Predicate.holds_eq_true, List.forall_mem_append]
  exact ⟨fun ⟨hk, hp, hq⟩ => ⟨hq, hk, hp⟩, fun ⟨hq, hk, hp⟩ => ⟨hk, hp, hq⟩⟩

theorem matching_concat {r : StoredRow κ} {a : Condition} : matching e k (p ++ [a]) t r =
    (matching e k p t r).filter fun j => a.truth e (j.get e) == some true := by
  simp [matching_append, Predicate.holds, Predicate.truth, Truth.all]

theorem mem_matching_concat {r : StoredRow κ} {a : Condition} {j : JoinedRow κ} :
    j ∈ matching e k (p ++ [a]) t r ↔ j ∈ matching e k p t r ∧ a.truth e (j.get e) = some true := by
  rw [matching_concat, List.mem_filter, beq_iff_eq]

theorem selected_eq_flatMap : t.selected e k p = t.roots.flatMap (matching e k p t) := by
  rw [selected, joined, List.filter_flatMap]
  congr 1
  funext r
  rw [matching, List.filter_map, List.filter_map, List.filter_filter, Function.comp_def,
    Function.comp_def]
  congr 2
  funext u
  rw [Bool.and_comm]

-- Where each entry has its own number, the rows of one entry are told by its number.
theorem filter_flatMap_root {rows : StoredRow κ → List (JoinedRow κ)}
    (hrows : ∀ r, ∀ j ∈ rows r, j.root = r) {roots : List (StoredRow κ)}
    (hn : (roots.map (·.id)).Nodup) {r : StoredRow κ} (hr : r ∈ roots) :
    (roots.flatMap rows).filter (·.root.id = r.id) = rows r := by
  induction roots with
  | nil => cases hr
  | cons a as ih =>
    have ⟨hfresh, hn⟩ := List.nodup_cons.mp hn
    rw [List.flatMap_cons, List.filter_append]
    cases hr with
    | head =>
      have hown : (rows r).filter (·.root.id = r.id) = rows r := by
        rw [List.filter_eq_self]
        intro j hj
        simp [hrows r j hj]
      have hother : (as.flatMap rows).filter (·.root.id = r.id) = [] := by
        rw [List.filter_eq_nil_iff]
        intro j hj heq
        have ⟨b, hb, hjb⟩ := List.mem_flatMap.mp hj
        rw [hrows b j hjb, decide_eq_true_eq] at heq
        exact hfresh (List.mem_map.mpr ⟨b, hb, heq⟩)
      rw [hown, hother, List.append_nil]
    | tail _ hr =>
      have hother : (rows a).filter (·.root.id = r.id) = [] := by
        rw [List.filter_eq_nil_iff]
        intro j hj heq
        rw [hrows a j hj, decide_eq_true_eq] at heq
        exact hfresh (List.mem_map.mpr ⟨r, hr, heq.symm⟩)
      rw [hother, List.nil_append, ih hn hr]

theorem filter_selected (hn : (t.roots.map (·.id)).Nodup) {r : StoredRow κ} (hr : r ∈ t.roots) :
    (t.selected e k p).filter (·.root.id = r.id) = matching e k p t r := by
  rw [selected_eq_flatMap]
  exact filter_flatMap_root (fun _ _ hj => (mem_matching.mp hj).1) hn hr

theorem mem_found {r : StoredRow κ} :
    r ∈ found e k p t ↔ r ∈ t.roots ∧ matching e k p t r ≠ [] := by
  simp [found]

theorem mem_found_iff {r : StoredRow κ} :
    r ∈ found e k p t ↔ r ∈ t.roots ∧ ∃ j, j ∈ matching e k p t r := by
  rw [mem_found, Ne, List.eq_nil_iff_forall_not_mem, not_forall_not]

theorem nodup_found (hn : (t.roots.map (·.id)).Nodup) : ((found e k p t).map (·.id)).Nodup :=
  hn.sublist ((List.filter_sublist).map _)

theorem ranked_perm (order : List OrderTerm) : (ranked e k p t order).Perm (found e k p t) :=
  List.mergeSort_perm ..

@[simp]
theorem id_entryOf {s : Schema} (r : StoredRow κ) : (entryOf e s p t r).id = r.id :=
  rfl

theorem mem_translations {s : Schema} {r : StoredRow κ} {u : Translation} :
    u ∈ (entryOf e s p t r).translations ↔ ∃ j ∈ matching e s.kind p t r,
      ⟨j.language e, j.translation.shown e s.translationFields⟩ = u := by
  simp only [entryOf, List.mem_map, List.mem_mergeSort]

theorem mem_listing {s : Schema} {order : List OrderTerm} {item : Entry} :
    item ∈ listing e s p t order ↔ ∃ r ∈ found e s.kind p t, entryOf e s p t r = item := by
  rw [listing, List.mem_map]
  simp only [(ranked_perm order).mem_iff]

theorem map_id_listing {s : Schema} (order : List OrderTerm) :
    (listing e s p t order).map (·.id) = (ranked e s.kind p t order).map (·.id) := by
  rw [listing, List.map_map]
  rfl

end Rows

section Fits

variable {e : Engine κ} {fits : FieldType → κ → Prop} {s : Schema} {p : Predicate} {t : Tables κ}

theorem mem_selected {k : Kind} {j : JoinedRow κ} :
    j ∈ t.selected e k p ↔ ∃ r ∈ t.roots, j ∈ matching e k p t r := by
  rw [selected_eq_flatMap, List.mem_flatMap]

variable (ht : ∀ f ∈ s.fields, ∀ r ∈ t.rows f.owner, fits f.type (r.get e f.column))

include ht

theorem fits_get {f : Field} (hf : f ∈ s.fields) {r : StoredRow κ} (hr : r ∈ t.roots)
    {j : JoinedRow κ} (hj : j ∈ matching e s.kind p t r) :
    fits f.type (j.get e (Column.ofField f)) := by
  have ⟨hroot, hu, _⟩ := mem_matching.mp hj
  have hfit := ht f hf
  cases ho : f.owner with
  | root =>
    have := hfit j.root (by rw [ho, hroot]; exact hr)
    simpa [JoinedRow.get, Column.ofField, ho] using this
  | translation =>
    have := hfit j.translation (by rw [ho]; exact hu)
    simpa [JoinedRow.get, Column.ofField, ho] using this

-- Every column of an order by fields has values of one type.
theorem exists_fits {order : List OrderTerm}
    (ho : ∀ o ∈ order, ∃ f ∈ s.fields, o.column = Column.ofField f) :
    ∀ o ∈ order, ∃ τ, ∀ j ∈ t.selected e s.kind p, fits τ (j.get e o.column) := by
  intro o hm
  have ⟨f, hf, hc⟩ := ho o hm
  refine ⟨f.type, fun j hj => ?_⟩
  have ⟨r, hr, hm⟩ := mem_selected.mp hj
  exact hc ▸ fits_get ht hf hr hm

end Fits

section Sorted

variable {e : Engine κ} {fits : FieldType → κ → Prop} (h : e.Lawful fits) {s : Schema} {p : Predicate}
  {t : Tables κ} (ht : t.IsSound e fits s)

include ht

-- A row that is selected has a language.
theorem IsSound.exists_language {k : Kind} {j : JoinedRow κ} (hj : j ∈ t.selected e k p) :
    ∃ l, j.get e Column.language = e.store (.text l) := by
  have ⟨_, _, hm⟩ := mem_selected.mp hj
  exact ht.language j.translation (mem_matching.mp hm).2.1

include h

-- The values that a page is sorted by are those that its statement sorts by.
theorem compareFound_eq {order : List OrderTerm}
    (ho : ∀ o ∈ order, ∃ f ∈ s.fields, o.column = Column.ofField f) {a b : StoredRow κ}
    (ha : a ∈ t.roots) (hb : b ∈ t.roots) :
    compareFound e s.kind p t order a b =
      compareEntries e order (t.selected e s.kind p) a.id b.id := by
  induction order with
  | nil => rfl
  | cons o os ih =>
    have ⟨f, hf, hof⟩ := ho o (by simp)
    have hkey {r : StoredRow κ} (hr : r ∈ t.roots) :
        e.extreme o.direction (((t.selected e s.kind p).filter (·.root.id = r.id)).map
          (·.get e o.column)) =
        e.aggregate o.direction ((matching e s.kind p t r).map (·.get e o.column)) := by
      rw [filter_selected ht.roots hr]
      apply Engine.extreme_eq_aggregate h (τ := f.type)
      simp only [List.forall_mem_map, hof]
      exact fun j hj => fits_get ht.fits hf hr hj
    have htail := ih fun o ho' => ho o (List.mem_cons_of_mem _ ho')
    cases hd : o.direction with
    | ascending =>
      simp only [hd] at hkey
      simp only [compareFound, compareEntries, hd, htail, hkey ha, hkey hb]
    | descending =>
      simp only [hd] at hkey
      simp only [compareFound, compareEntries, hd, htail, hkey ha, hkey hb]

end Sorted

end MediaCatalog.Tables
