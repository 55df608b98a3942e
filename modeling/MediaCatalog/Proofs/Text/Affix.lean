import MediaCatalog.Text
import Mathlib.Data.List.Infix

namespace MediaCatalog.Text

variable {b s : String}

theorem startsWith_iff : startsWith b s ↔ b.toList <+: s.toList := by
  rw [startsWith, List.isPrefixOf_iff_prefix]

theorem startsWith_append (t : String) (h : b.toList.length ≤ s.toList.length) :
    startsWith b (s ++ t) = startsWith b s := by
  rw [startsWith, startsWith, String.toList_append, Bool.eq_iff_iff, List.isPrefixOf_iff_prefix,
    List.isPrefixOf_iff_prefix]
  exact ⟨fun hp => List.prefix_of_prefix_length_le hp (List.prefix_append ..) h,
    fun hp => hp.trans (List.prefix_append ..)⟩

theorem startsWith_append_self (b t : String) : startsWith b (b ++ t) = true :=
  startsWith_iff.mpr (String.toList_append ▸ List.prefix_append ..)

theorem exists_of_startsWith (h : startsWith b s = true) : ∃ t, s = b ++ t := by
  obtain ⟨cs, hcs⟩ := startsWith_iff.mp h
  exact ⟨String.ofList cs, String.toList_inj.mp (by rw [String.toList_append, String.toList_ofList, hcs])⟩

-- A list of texts begins with its first one.
theorem exists_intercalate_cons (sep s : String) (ss : List String) :
    ∃ t, String.intercalate sep (s :: ss) = s ++ t := by
  cases ss with
  | nil => exact ⟨"", by rw [String.intercalate_singleton, String.append_empty]⟩
  | cons t ts => exact ⟨_, by rw [String.intercalate_cons_cons, String.append_assoc]⟩

theorem endsWith_append {e t : String} (s : String) (h : e.toList.length ≤ t.toList.length) :
    endsWith e (s ++ t) = endsWith e t := by
  rw [endsWith, endsWith, String.toList_append, Bool.eq_iff_iff, List.isSuffixOf_iff_suffix,
    List.isSuffixOf_iff_suffix]
  exact ⟨fun hp => List.suffix_of_suffix_length_le hp (List.suffix_append ..) h,
    fun hp => hp.trans (List.suffix_append ..)⟩

end MediaCatalog.Text
