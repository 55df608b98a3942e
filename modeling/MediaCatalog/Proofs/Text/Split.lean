import MediaCatalog.Text
import Mathlib.Data.List.Basic
import Mathlib.Data.List.TakeWhile

namespace MediaCatalog.Text

variable {sep : Char} {cs w : List Char} {s t : String} {c : Char}

theorem pieces_of_not_mem (h : sep ∉ cs) : split.pieces sep cs = [cs] := by
  induction cs with
  | nil => rfl
  | cons c cs ih =>
    obtain ⟨hc, hcs⟩ := not_or.mp (mt List.mem_cons.mpr h)
    rw [split.pieces, if_neg (Ne.symm hc), ih hcs]
    rfl

theorem not_mem_of_mem_pieces (h : w ∈ split.pieces sep cs) : sep ∉ w := by
  induction cs generalizing w with
  | nil => simp [List.mem_singleton.mp h]
  | cons c cs ih =>
    rw [split.pieces] at h
    split at h
    case isTrue =>
      rcases List.mem_cons.mp h with rfl | h
      · exact List.not_mem_nil
      · exact ih h
    case isFalse hc =>
      cases hp : split.pieces sep cs with
      | nil => exact absurd hp (split.pieces_ne_nil sep cs)
      | cons v vs =>
        rw [hp] at h ih
        rcases List.mem_cons.mp h with rfl | h
        · exact mt List.mem_cons.mp (not_or.mpr ⟨Ne.symm hc, ih List.mem_cons_self⟩)
        · exact ih (List.mem_cons_of_mem _ h)

-- A text without separators is a single piece, and no piece has a separator.
theorem split_of_not_mem (h : sep ∉ s.toList) : split sep s = [s] := by
  rw [split, pieces_of_not_mem h, List.map_singleton, String.ofList_toList]

theorem not_mem_of_mem_split (h : t ∈ split sep s) : sep ∉ t.toList := by
  obtain ⟨w, hw, rfl⟩ := List.mem_map.mp h
  rw [String.toList_ofList]
  exact not_mem_of_mem_pieces hw

-- Any other character of a text is in one of its pieces.
theorem exists_mem_pieces (hc : c ≠ sep) (h : c ∈ cs) : ∃ w ∈ split.pieces sep cs, c ∈ w := by
  induction cs with
  | nil => cases h
  | cons d cs ih =>
    rw [split.pieces]
    split
    case isTrue hd =>
      obtain ⟨w, hw, hcw⟩ := ih ((List.mem_cons.mp h).resolve_left fun heq => hc (heq.trans hd))
      exact ⟨w, List.mem_cons_of_mem _ hw, hcw⟩
    case isFalse =>
      obtain ⟨v, vs, hp⟩ := List.exists_cons_of_ne_nil (split.pieces_ne_nil sep cs)
      rw [hp] at ih ⊢
      rcases List.mem_cons.mp h with rfl | h
      · exact ⟨c :: v, List.mem_cons_self, List.mem_cons_self⟩
      · obtain ⟨w, hw, hcw⟩ := ih h
        rcases List.mem_cons.mp hw with rfl | hw
        · exact ⟨d :: w, List.mem_cons_self, List.mem_cons_of_mem _ hcw⟩
        · exact ⟨w, List.mem_cons_of_mem _ hw, hcw⟩

theorem mem_of_mem_pieces (hw : w ∈ split.pieces sep cs) (hc : c ∈ w) : c ∈ cs := by
  induction cs generalizing w with
  | nil =>
    cases List.mem_singleton.mp hw
    exact hc
  | cons d cs ih =>
    rw [split.pieces] at hw
    split at hw
    case isTrue =>
      rcases List.mem_cons.mp hw with rfl | hw
      · cases hc
      · exact List.mem_cons_of_mem _ (ih hw hc)
    case isFalse =>
      obtain ⟨v, vs, hp⟩ := List.exists_cons_of_ne_nil (split.pieces_ne_nil sep cs)
      rw [hp] at hw ih
      rcases List.mem_cons.mp hw with rfl | hw
      · exact (List.mem_cons.mp hc).elim (fun heq => heq ▸ List.mem_cons_self)
          fun hc => List.mem_cons_of_mem _ (ih List.mem_cons_self hc)
      · exact List.mem_cons_of_mem _ (ih (List.mem_cons_of_mem _ hw) hc)

theorem exists_mem_split (hc : c ≠ sep) : (∃ t ∈ split sep s, c ∈ t.toList) ↔ c ∈ s.toList := by
  constructor
  · rintro ⟨t, ht, hct⟩
    obtain ⟨w, hw, rfl⟩ := List.mem_map.mp ht
    rw [String.toList_ofList] at hct
    exact mem_of_mem_pieces hw hct
  · intro h
    obtain ⟨w, hw, hcw⟩ := exists_mem_pieces hc h
    exact ⟨_, List.mem_map_of_mem hw, by rwa [String.toList_ofList]⟩

theorem mem_of_mem_trim (h : c ∈ (trim s).toList) : c ∈ s.toList := by
  rw [trim, String.toList_ofList, List.mem_reverse] at h
  have h := (List.dropWhile_sublist _).mem h
  exact (List.dropWhile_sublist _).mem (List.mem_reverse.mp h)

theorem mem_dropWhile {p : Char → Bool} (hc : p c = false) (h : c ∈ cs) : c ∈ cs.dropWhile p := by
  rw [← List.takeWhile_append_dropWhile (p := p) (l := cs)] at h
  refine (List.mem_append.mp h).resolve_left fun ht => ?_
  exact absurd (List.mem_takeWhile_imp ht) (by simp [hc])

-- Only blanks are lost at the ends.
theorem mem_trim (hc : isBlank c = false) : c ∈ (trim s).toList ↔ c ∈ s.toList := by
  refine ⟨mem_of_mem_trim, fun h => ?_⟩
  rw [trim, String.toList_ofList, List.mem_reverse]
  exact mem_dropWhile hc (List.mem_reverse.mpr (mem_dropWhile hc h))

end MediaCatalog.Text
