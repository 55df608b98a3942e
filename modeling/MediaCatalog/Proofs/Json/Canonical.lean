import MediaCatalog.Proofs.Dictionary
import MediaCatalog.Proofs.Json

namespace MediaCatalog.Json

-- What holds of values that hold no others, and of an array and an object if it holds of what is in them, holds
-- of every value.
@[elab_as_elim]
theorem ofParts {motive : Json → Prop} (atom : ∀ j, j.IsAtom → motive j)
    (arr : ∀ items, (∀ j ∈ items, motive j) → motive (.arr items))
    (obj : ∀ members, (∀ m ∈ members, motive m.2) → motive (.obj members)) (j : Json) : motive j := by
  generalize hn : j.depth = n
  induction n using Nat.strongRecOn generalizing j with
  | ind n ih =>
    subst hn
    cases j with
    | arr items =>
      exact arr items fun j hj => ih _ (Nat.lt_succ_of_le (itemsDepth_le.mp (Nat.le_refl _) j hj)) j rfl
    | obj members =>
      exact obj members fun m hm => ih _ (Nat.lt_succ_of_le (membersDepth_le.mp (Nat.le_refl _) m hm)) m.2 rfl
    | null | bool | int | real | str => exact atom _ trivial

-- The member whose value is in its canonical form.
def canonicalMember (m : String × Json) : String × Json :=
  (m.1, m.2.canonical)

theorem canonicalItems_eq_map (js : List Json) : canonicalItems js = js.map canonical := by
  induction js with
  | nil => rfl
  | cons j js ih => rw [canonicalItems, ih, List.map_cons]

theorem canonicalMembers_eq_map (ms : List (String × Json)) : canonicalMembers ms = ms.map canonicalMember := by
  induction ms with
  | nil => rfl
  | cons m ms ih => rw [canonicalMembers, ih, List.map_cons, canonicalMember]

theorem canonical_of_isAtom {j : Json} (h : j.IsAtom) : j.canonical = j := by
  cases j <;> first | rfl | exact h.elim

-- A member of an object in its canonical form was a member before.
theorem mem_of_mem_canonicalMembers {ms : List (String × Json)} {m : String × Json}
    (h : m ∈ (Dictionary.ofList (canonicalMembers ms)).entries) : ∃ m' ∈ ms, m = canonicalMember m' := by
  rw [canonicalMembers_eq_map] at h
  obtain ⟨m', hm', rfl⟩ := List.mem_map.mp (Dictionary.mem_of_mem_ofList h)
  exact ⟨m', hm', rfl⟩

theorem canonical_canonical (j : Json) : j.canonical.canonical = j.canonical := by
  induction j using ofParts with
  | atom j h => rw [canonical_of_isAtom h, canonical_of_isAtom h]
  | arr items ih =>
    simp only [canonical, canonicalItems_eq_map, List.map_map]
    exact congrArg Json.arr (List.map_congr_left ih)
  | obj members ih =>
    have hmembers : ∀ m ∈ (Dictionary.ofList (canonicalMembers members)).entries, canonicalMember m = m := by
      intro m hm
      obtain ⟨m', hm', rfl⟩ := mem_of_mem_canonicalMembers hm
      rw [canonicalMember, canonicalMember, ih m' hm']
    rw [canonical, canonical, canonicalMembers_eq_map, List.map_congr_left hmembers, List.map_id',
      Dictionary.ofList_entries]

theorem depth_canonical_le (j : Json) : j.canonical.depth ≤ j.depth := by
  induction j using ofParts with
  | atom j h => exact Nat.le_of_eq (congrArg depth (canonical_of_isAtom h))
  | arr items ih =>
    rw [canonical, canonicalItems_eq_map]
    refine Nat.succ_le_succ (itemsDepth_le.mpr fun k hk => ?_)
    obtain ⟨j, hj, rfl⟩ := List.mem_map.mp hk
    exact Nat.le_trans (ih j hj) (itemsDepth_le.mp (Nat.le_refl _) j hj)
  | obj members ih =>
    rw [canonical]
    refine Nat.succ_le_succ (membersDepth_le.mpr fun m hm => ?_)
    obtain ⟨m', hm', rfl⟩ := mem_of_mem_canonicalMembers hm
    exact Nat.le_trans (ih m' hm') (membersDepth_le.mp (Nat.le_refl _) m' hm')

theorem IsWhole.canonical {j : Json} (h : j.IsWhole) : j.canonical.IsWhole := by
  induction j using ofParts with
  | atom j ha => rwa [canonical_of_isAtom ha]
  | arr items ih =>
    rw [Json.canonical, canonicalItems_eq_map]
    refine areWhole_iff.mpr fun k hk => ?_
    obtain ⟨j, hj, rfl⟩ := List.mem_map.mp hk
    exact ih j hj (areWhole_iff.mp h j hj)
  | obj members ih =>
    rw [Json.canonical]
    refine areWholeMembers_iff.mpr fun m hm => ?_
    obtain ⟨m', hm', rfl⟩ := mem_of_mem_canonicalMembers hm
    exact ih m' hm' (areWholeMembers_iff.mp h m' hm')

end MediaCatalog.Json
