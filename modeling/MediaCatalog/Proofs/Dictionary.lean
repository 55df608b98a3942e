import MediaCatalog.Dictionary
import Mathlib.Data.List.Induction
import Mathlib.Data.List.Nodup

namespace MediaCatalog.Dictionary

variable {α β : Type} {key k : String} {value v : α}

theorem find?_put (es : List (String × α)) :
    (put key value es).find? (·.1 = k) =
      if k = key then some (key, value) else es.find? (·.1 = k) := by
  induction es with
  | nil => simp [put, List.find?_singleton, eq_comm]
  | cons e es ih =>
    simp only [put]
    split
    case isTrue => grind
    case isFalse => split <;> grind

theorem get?_insert (d : Dictionary α) :
    (d.insert key value).get? k = if k = key then some value else d.get? k := by
  rw [get?, insert, find?_put, get?]
  split <;> rfl

theorem ofList_append (es es' : List (String × α)) :
    ofList (es ++ es') = es'.foldl (fun d e => d.insert e.1 e.2) (ofList es) :=
  List.foldl_append ..

section List

variable {es : List (String × α)}

theorem get?_ofList_concat (es : List (String × α)) :
    (ofList (es ++ [(key, value)])).get? k = if k = key then some value else (ofList es).get? k := by
  rw [ofList_append]
  exact get?_insert _

theorem get?_ofList_eq_none : (ofList es).get? k = none ↔ k ∉ es.map (·.1) := by
  induction es using List.reverseRecOn with
  | nil => simp [ofList, get?, EmptyCollection.emptyCollection, empty]
  | append_singleton es e ih =>
    rw [get?_ofList_concat]
    by_cases hk : k = e.1 <;> simp_all

-- Where no key occurs twice, everything in the list is found.
theorem get?_ofList (hn : (es.map (·.1)).Nodup) (he : (k, v) ∈ es) : (ofList es).get? k = some v := by
  induction es using List.reverseRecOn with
  | nil => cases he
  | append_singleton es e ih =>
    rw [List.map_append, List.map_singleton, List.nodup_append] at hn
    have ⟨hn, _, hfresh⟩ := hn
    rw [get?_ofList_concat]
    rcases List.mem_append.mp he with he | he
    · have hne : k ≠ e.1 := hfresh k (List.mem_map_of_mem he) e.1 (by simp)
      rw [if_neg hne, ih hn he]
    · rw [List.mem_singleton] at he
      subst he
      simp

end List

theorem mem_keys {d : Dictionary α} : k ∈ d.keys ↔ d.get? k ≠ none := by
  simp [keys, get?]

theorem mem_keys_ofList {es : List (String × α)} : k ∈ (ofList es).keys ↔ k ∈ es.map (·.1) := by
  rw [mem_keys, Ne, get?_ofList_eq_none, not_not]

section Entries

theorem put_eq_append {es : List (String × α)} (h : ∀ e ∈ es, e.1 < key) :
    put key value es = es ++ [(key, value)] := by
  induction es with
  | nil => rfl
  | cons e es ih =>
    have he : e.1 < key := h e (by simp)
    have hlt : ¬key < e.1 := fun hlt => String.lt_irrefl _ (String.lt_trans hlt he)
    have hne : key ≠ e.1 := fun heq => String.lt_irrefl key (heq ▸ he)
    rw [put, if_neg hlt, if_neg hne, ih fun x hx => h x (by simp [hx])]
    rfl

theorem entries_ofList {es : List (String × α)} (h : es.Pairwise fun a b => a.1 < b.1) :
    (ofList es).entries = es := by
  induction es using List.reverseRecOn with
  | nil => rfl
  | append_singleton es e ih =>
    have ⟨hes, _, hlast⟩ := List.pairwise_append.mp h
    rw [ofList_append]
    have hlt : ∀ x ∈ (ofList es).entries, x.1 < e.1 := by
      rw [ih hes]
      exact fun x hx => hlast x hx e (by simp)
    exact (put_eq_append hlt).trans (by rw [ih hes])

-- A dictionary is what its entries make up.
theorem ofList_entries (d : Dictionary α) : ofList d.entries = d := by
  have h := entries_ofList d.ascending
  cases d
  cases ho : ofList _
  simp_all

theorem nodup_keys (d : Dictionary α) : d.keys.Nodup := by
  refine List.pairwise_map.mpr (d.ascending.imp ?_)
  rintro a b hab heq
  exact String.lt_irrefl _ (heq ▸ hab)

-- What is found is an entry, as no other entry has its key.
theorem get?_eq_some {d : Dictionary α} : d.get? k = some v ↔ (k, v) ∈ d.entries := by
  rw [get?, Option.map_eq_some_iff]
  constructor
  · rintro ⟨e, he, rfl⟩
    have hk : e.1 = k := by simpa using List.find?_some he
    exact hk ▸ List.mem_of_find?_eq_some he
  · intro he
    have hsome : (d.entries.find? (·.1 = k)).isSome := List.find?_isSome.mpr ⟨_, he, decide_eq_true rfl⟩
    obtain ⟨e, hfound⟩ := Option.isSome_iff_exists.mp hsome
    have hk : e.1 = k := by simpa using List.find?_some hfound
    obtain rfl : e = (k, v) := List.inj_on_of_nodup_map d.nodup_keys (List.mem_of_find?_eq_some hfound) he hk
    exact ⟨_, hfound, rfl⟩

theorem mem_of_mem_put {es : List (String × α)} {e : String × α} (h : e ∈ put key value es) :
    e = (key, value) ∨ e ∈ es := by
  induction es with
  | nil => exact .inl (List.mem_singleton.mp h)
  | cons x xs ih =>
    rw [put] at h
    split at h
    case isTrue => exact List.mem_cons.mp h
    case isFalse =>
      split at h
      case isTrue => exact (List.mem_cons.mp h).imp_right (List.mem_cons_of_mem _)
      case isFalse =>
        rcases List.mem_cons.mp h with rfl | h
        · exact .inr List.mem_cons_self
        · exact (ih h).imp_right (List.mem_cons_of_mem _)

theorem put_perm {es : List (String × α)} (h : ∀ e ∈ es, e.1 ≠ key) :
    (put key value es).Perm ((key, value) :: es) := by
  induction es with
  | nil => exact .refl _
  | cons e es ih =>
    have ⟨he, hes⟩ := List.forall_mem_cons.mp h
    rw [put]
    split
    case isTrue => exact .refl _
    case isFalse =>
      rw [if_neg he.symm]
      exact ((ih hes).cons e).trans (.swap ..)

theorem contains_eq_true {d : Dictionary α} : d.contains key = true ↔ ∃ e ∈ d.entries, e.1 = key := by
  simp [contains]

-- A new key stands beside the ones that were there.
theorem insert_perm {d : Dictionary α} (h : d.contains key = false) :
    (d.insert key value).entries.Perm ((key, value) :: d.entries) :=
  put_perm fun e he heq => Bool.false_ne_true (h.symm.trans (contains_eq_true.mpr ⟨e, he, heq⟩))

-- A dictionary has one form only.
theorem eq_of_perm {d d' : Dictionary α} (h : d.entries.Perm d'.entries) : d = d' := by
  have heq : d.entries = d'.entries := h.eq_of_pairwise
    (fun _ _ _ _ hab hba => absurd (String.lt_trans hab hba) (String.lt_irrefl _)) d.ascending d'.ascending
  cases d
  cases d'
  cases heq
  rfl

-- Nothing is in a dictionary but what it is made of.
theorem mem_of_mem_ofList {es : List (String × α)} {e : String × α} (h : e ∈ (ofList es).entries) : e ∈ es := by
  induction es using List.reverseRecOn with
  | nil => cases h
  | append_singleton es x ih =>
    rw [ofList_append] at h
    rcases mem_of_mem_put h with rfl | h
    · exact List.mem_append_right _ List.mem_cons_self
    · exact List.mem_append_left _ (ih h)

-- What is found first in a dictionary is found under the least of the keys that have it.
theorem findSome?_entries {β : Type} {d : Dictionary α} {g : String × α → Option β} {x : β} :
    d.entries.findSome? g = some x ↔
      ∃ e ∈ d.entries, g e = some x ∧ ∀ e' ∈ d.entries, (g e').isSome → e.1 ≤ e'.1 := by
  have hfirst {x : β} (h : d.entries.findSome? g = some x) :
      ∃ e ∈ d.entries, g e = some x ∧ ∀ e' ∈ d.entries, (g e').isSome → e.1 ≤ e'.1 := by
    obtain ⟨before, e, after, heq, hx, hbefore⟩ := List.findSome?_eq_some_iff.mp h
    have ⟨_, hafter, _⟩ := List.pairwise_append.mp (heq ▸ d.ascending)
    rw [heq]
    refine ⟨e, by simp, hx, fun e' he' hsome => ?_⟩
    rcases List.mem_append.mp he' with he' | he'
    · rw [hbefore e' he'] at hsome
      cases hsome
    · rcases List.mem_cons.mp he' with rfl | he'
      · exact String.le_refl _
      · exact String.not_lt.mp (String.lt_asymm (List.rel_of_pairwise_cons hafter he'))
  refine ⟨hfirst, fun ⟨e, he, hx, hleast⟩ => ?_⟩
  have hsome : (d.entries.findSome? g).isSome :=
    List.findSome?_isSome_iff.mpr ⟨e, he, Option.isSome_of_eq_some hx⟩
  obtain ⟨y, hy⟩ := Option.isSome_iff_exists.mp hsome
  obtain ⟨e', he', hy', hleast'⟩ := hfirst hy
  have hkey : e.1 = e'.1 := String.le_antisymm (hleast e' he' (Option.isSome_of_eq_some hy'))
    (hleast' e he (Option.isSome_of_eq_some hx))
  obtain rfl : e = e' := List.inj_on_of_nodup_map d.nodup_keys he he' hkey
  rw [hy, ← hx, hy']

end Entries

end MediaCatalog.Dictionary
