import MediaCatalog.Schema
import Mathlib.Data.List.Nodup

namespace MediaCatalog.Schema

-- A schema without defects.
structure IsSound (s : Schema) : Prop where
  names      : (s.fields.map (·.name)).Nodup
  identifier : ∀ f ∈ s.fields, isIdentifier f.column
  free       : ∀ f ∈ s.fields, f.column ∉ reservedColumns

theorem chars_of_isIdentifier {w : String} (h : isIdentifier w) :
    w.toList ≠ [] ∧ ∀ c ∈ w.toList, c.isLower ∨ c.isDigit ∨ c = '_' := by
  unfold isIdentifier at h
  split at h
  case h_1 => simp at h
  case h_2 c cs heq =>
    simp only [Bool.and_eq_true, Bool.or_eq_true, beq_iff_eq, List.all_eq_true, or_assoc] at h
    rw [heq]
    refine ⟨List.cons_ne_nil c cs, fun x hx => ?_⟩
    rcases List.mem_cons.mp hx with rfl | hx
    · exact h.1.imp_right .inr
    · exact h.2 x hx

theorem defect?_eq_none {seen : List String} {fs : List Field} :
    defect? seen fs = none ↔
      (∀ f ∈ fs, f.name ∉ seen) ∧ (fs.map (·.name)).Nodup ∧
        ∀ f ∈ fs, isIdentifier f.column ∧ f.column ∉ reservedColumns := by
  induction fs generalizing seen with
  | nil => simp [defect?]
  | cons f fs ih =>
    simp only [defect?]
    split
    case isTrue h => simp_all
    case isFalse hs =>
      split
      case isTrue h => simp_all
      case isFalse hi =>
        split
        case isTrue h => simp_all
        case isFalse hr =>
          rw [ih]
          simp only [List.contains_eq_mem, decide_eq_true_eq, Bool.not_eq_true,
            Bool.not_eq_false'] at hs hi hr
          simp only [List.mem_cons, List.map_cons, List.nodup_cons, List.mem_map, not_or]
          grind

theorem validate_eq_ok {s : Schema} : s.validate = .ok () ↔ s.IsSound := by
  have h : s.validate = .ok () ↔ defect? [] s.fields = none := by
    unfold validate
    split <;> simp_all
  rw [h, defect?_eq_none]
  constructor
  · rintro ⟨_, hn, hc⟩
    exact ⟨hn, fun f hf => (hc f hf).1, fun f hf => (hc f hf).2⟩
  · rintro ⟨hn, hi, hr⟩
    exact ⟨by simp, hn, fun f hf => ⟨hi f hf, hr f hf⟩⟩

section

variable {s : Schema} {name : String} {f : Field}

theorem mem_rootFields : f ∈ s.rootFields ↔ f ∈ s.fields ∧ f.owner = .root := by
  simp [rootFields]

theorem mem_translationFields : f ∈ s.translationFields ↔ f ∈ s.fields ∧ f.owner = .translation := by
  simp [translationFields]

-- A name stands for a field that has it.
theorem mem_of_find? (h : s.find? name = some f) : f ∈ s.fields ∧ f.name = name := by
  rw [find?, Option.or_eq_some_iff] at h
  cases h with
  | inl h =>
    have hm := List.mem_of_find?_eq_some h
    have hn := List.find?_some h
    exact ⟨(mem_rootFields.mp hm).1, by simpa using hn⟩
  | inr h =>
    have hm := List.mem_of_find?_eq_some h.2
    have hn := List.find?_some h.2
    exact ⟨(mem_translationFields.mp hm).1, by simpa using hn⟩

-- Every field is found by its own name.
theorem IsSound.find?_name (hs : s.IsSound) (hf : f ∈ s.fields) : s.find? f.name = some f := by
  cases hg : s.find? f.name with
  | some g =>
    have ⟨hg, hn⟩ := mem_of_find? hg
    rw [List.inj_on_of_nodup_map hs.names hg hf hn]
  | none =>
    obtain ⟨hroot, htranslation⟩ := Option.or_eq_none_iff.mp hg
    rw [List.find?_eq_none] at hroot htranslation
    cases ho : f.owner with
    | root => exact absurd (decide_eq_true rfl) (hroot f (mem_rootFields.mpr ⟨hf, ho⟩))
    | translation => exact absurd (decide_eq_true rfl) (htranslation f (mem_translationFields.mpr ⟨hf, ho⟩))

-- No field has a column that tables number their rows by or tell their languages by.
theorem IsSound.column_ne (hs : s.IsSound) (hf : f ∈ s.fields) : f.column ≠ "id" ∧ f.column ≠ "language" := by
  have hfree := hs.free f hf
  simp only [reservedColumns, List.mem_cons, not_or] at hfree
  exact ⟨hfree.1, hfree.2.1⟩

theorem resolve_eq_ok : s.resolve name = .ok f ↔ s.find? name = some f := by
  unfold resolve
  split <;> simp_all

end

end MediaCatalog.Schema
