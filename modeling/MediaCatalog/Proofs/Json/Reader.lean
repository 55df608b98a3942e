import MediaCatalog.Proofs.Json

namespace MediaCatalog.Json

mutual

-- The floating-point numbers of a value, as they were written.
def reals : Json → List String
  | real l                          => [l]
  | arr items                       => itemReals items
  | obj members                     => memberReals members
  | null | bool _ | int _ | str _   => []

def itemReals : List Json → List String
  | []      => []
  | j :: js => reals j ++ itemReals js

def memberReals : List (String × Json) → List String
  | []           => []
  | (_, j) :: ms => reals j ++ memberReals ms

end

theorem itemReals_eq_nil {js : List Json} : itemReals js = [] ↔ ∀ j ∈ js, j.reals = [] := by
  induction js with
  | nil => simp [itemReals]
  | cons j js ih => rw [itemReals, List.append_eq_nil_iff, ih, List.forall_mem_cons]

theorem memberReals_eq_nil {ms : List (String × Json)} : memberReals ms = [] ↔ ∀ m ∈ ms, m.2.reals = [] := by
  induction ms with
  | nil => simp [memberReals]
  | cons m ms ih => rw [memberReals, List.append_eq_nil_iff, ih, List.forall_mem_cons]

section Items

variable {α : Type} {close : Char} {item? : List Char → Option (α × Rest)} {P : α → Prop}
  (h : ∀ cs x rest, item? cs = some (x, rest) → P x)

include h

theorem forall_mem_of_items? {n : Nat} {cs rest : List Char} {xs : List α}
    (hread : items? close item? n cs = some (xs, rest)) : ∀ x ∈ xs, P x := by
  induction n generalizing cs xs with
  | zero => cases hread
  | succ n ih =>
    simp only [items?, Option.bind_eq_bind, Option.bind_eq_some_iff, Prod.exists] at hread
    obtain ⟨x, after, hx, hread⟩ := hread
    split at hread
    · cases hread
    · split at hread
      · cases hread
        exact List.forall_mem_singleton.mpr (h _ _ _ hx)
      · split at hread
        · obtain ⟨⟨xs', rest'⟩, hxs, heq⟩ := Option.map_eq_some_iff.mp hread
          cases heq
          exact List.forall_mem_cons.mpr ⟨h _ _ _ hx, ih hxs⟩
        · cases hread

theorem forall_mem_of_sequence? {cs rest : List Char} {xs : List α}
    (hread : sequence? close item? cs = some (xs, rest)) : ∀ x ∈ xs, P x := by
  rw [sequence?] at hread
  split at hread
  · cases hread
  · split at hread
    · cases hread
      exact List.forall_mem_nil _
    · exact forall_mem_of_items? h hread

end Items

theorem value_of_member? {value? : List Char → Option (Json × Rest)} {cs rest : List Char} {m : String × Json}
    (h : member? value? cs = some (m, rest)) : ∃ cs, value? cs = some (m.2, rest) := by
  unfold member? at h
  split at h
  · simp only [Option.bind_eq_bind, Option.bind_eq_some_iff, Prod.exists] at h
    obtain ⟨key, after, -, h⟩ := h
    split at h
    · obtain ⟨⟨j, rest'⟩, hj, heq⟩ := Option.map_eq_some_iff.mp h
      cases heq
      exact ⟨_, hj⟩
    · cases h
  · cases h

-- What the reader gives: nothing nested deeper than `d`, and integers of 64 bits only.
structure IsRead (d : Nat) (j : Json) : Prop where
  depth : j.depth ≤ d
  whole : j.reals = [] → j.IsWhole

theorem isRead_unsigned? {d : Nat} {negative : Bool} {cs rest : List Char} {j : Json}
    (h : unsigned? negative cs = some (j, rest)) : j.IsRead d := by
  simp only [unsigned?, Option.bind_eq_bind, Option.bind_eq_some_iff, Prod.exists] at h
  obtain ⟨whole, after, -, h⟩ := h
  split at h
  · cases h
  · simp only [Option.bind_eq_some_iff, Prod.exists] at h
    obtain ⟨fraction, after, -, exponent, after, -, h⟩ := h
    generalize (if negative = true then -(Nat.ofDigitChars 10 whole 0 : Int) else _) = value at h
    split at h
    case isTrue hint =>
      cases h
      simp only [Bool.and_eq_true, decide_eq_true_eq] at hint
      exact ⟨Nat.zero_le d, fun _ => ⟨hint.1.1.2, hint.1.2⟩⟩
    case isFalse =>
      split at h
      · cases h
        exact ⟨Nat.zero_le d, fun hreals => absurd hreals (List.cons_ne_nil _ _)⟩
      · cases h

theorem isRead_atom? {d : Nat} {cs rest : List Char} {j : Json} (h : atom? cs = some (j, rest)) : j.IsRead d := by
  unfold atom? at h
  split at h
  case h_5 =>
    unfold number? at h
    split at h <;> exact isRead_unsigned? h
  all_goals
    obtain ⟨_, -, heq⟩ := Option.map_eq_some_iff.mp h
    cases heq
    exact ⟨Nat.zero_le d, fun _ => trivial⟩

theorem isRead_value? {d : Nat} {cs rest : List Char} {j : Json} (h : value? d cs = some (j, rest)) :
    j.IsRead d := by
  induction d generalizing cs j rest with
  | zero => exact isRead_atom? h
  | succ d ih =>
    unfold value? at h
    split at h
    case h_1 hdepth =>
      cases hdepth
      obtain ⟨⟨items, rest'⟩, hitems, heq⟩ := Option.map_eq_some_iff.mp h
      cases heq
      have hread : ∀ j ∈ items, j.IsRead d := forall_mem_of_sequence? (fun _ _ _ => ih) hitems
      refine ⟨Nat.succ_le_succ (itemsDepth_le.mpr fun j hj => (hread j hj).depth), fun hreals => ?_⟩
      exact areWhole_iff.mpr fun j hj => (hread j hj).whole (itemReals_eq_nil.mp hreals j hj)
    case h_2 hdepth =>
      cases hdepth
      obtain ⟨⟨members, rest'⟩, hmembers, heq⟩ := Option.map_eq_some_iff.mp h
      cases heq
      have hread : ∀ m ∈ members, m.2.IsRead d :=
        forall_mem_of_sequence? (fun _ _ _ hm => ih (value_of_member? hm).choose_spec) hmembers
      refine ⟨Nat.succ_le_succ (membersDepth_le.mpr fun m hm => (hread m hm).depth), fun hreals => ?_⟩
      exact areWholeMembers_iff.mpr fun m hm => (hread m hm).whole (memberReals_eq_nil.mp hreals m hm)
    case h_3 => exact isRead_atom? h

theorem isRead_of_read? {s : String} {j : Json} (h : read? s = some j) : j.IsRead maxDepth := by
  simp only [read?, Option.bind_eq_bind, Option.bind_eq_some_iff, Prod.exists] at h
  obtain ⟨j', rest, hvalue, h⟩ := h
  split at h
  · cases h
    exact isRead_value? hvalue
  · cases h

end MediaCatalog.Json
