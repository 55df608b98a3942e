import MediaCatalog.Text
import MediaCatalog.Text.LowerCase

namespace MediaCatalog.Text

def IsAscii (s : String) : Prop :=
  ∀ c ∈ s.toList, c.toNat < 0x80

instance (s : String) : Decidable (IsAscii s) :=
  List.decidableBAll (fun c : Char => c.toNat < 0x80) s.toList

section Characters

variable {c : Char} {previous cs : List Char}

theorem lowerLetter_of_ascii (h : c.toNat < 0x80) : lowerLetter c = c.toLower :=
  if_pos h

theorem lowerChars_of_ascii (h : ∀ c ∈ cs, c.toNat < 0x80) : lowerChars previous cs = cs.map Char.toLower := by
  induction cs generalizing previous with
  | nil => rfl
  | cons c cs ih =>
    have ⟨hc, hcs⟩ := List.forall_mem_cons.mp h
    have hsigma : c ≠ 'Σ' := fun heq => absurd (heq ▸ hc) (by decide)
    have hdotted : c ≠ 'İ' := fun heq => absurd (heq ▸ hc) (by decide)
    rw [lowerChars, ih hcs, if_neg hsigma, if_neg hdotted, lowerLetter_of_ascii hc]
    rfl

-- The letters of a run are in ASCII, or none of them moves there, unless it is the sign of the kelvin. All of them
-- move to characters.
def CaseRun.keepsOut (r : CaseRun) : Bool :=
  r.last < 0x80 || (r.first == 0x212A && r.last == 0x212A && r.shift == -8383) ||
    (0x80 ≤ r.first + r.shift && r.last + r.shift < 0xD800) ||
    (0xDFFF < r.first + r.shift && r.last + r.shift < 0x110000)

theorem CaseRun.all_keepsOut : CaseRun.all.all keepsOut := by
  decide +kernel

theorem CaseRun.toNat_move {r : CaseRun} (hr : r ∈ CaseRun.all) (hc : r.covers c.toNat) (h : 0x80 ≤ c.toNat) :
    Char.ofNat (c.toNat + r.shift).toNat = 'k' ∨ 0x80 ≤ (Char.ofNat (c.toNat + r.shift).toNat).toNat := by
  have hkeep := List.all_eq_true.mp all_keepsOut r hr
  simp only [covers, Bool.and_eq_true, decide_eq_true_eq] at hc
  simp only [keepsOut, Bool.or_eq_true, Bool.and_eq_true, decide_eq_true_eq, beq_iff_eq] at hkeep
  have hchar {n : Nat} (hn : n.isValidChar) : (Char.ofNat n).toNat = n := by
    rw [Char.ofNat, dif_pos hn]
    rfl
  obtain ((hlast | ⟨⟨hfirst, hlast⟩, hshift⟩) | hlow) | hhigh := hkeep
  case inl.inl.inl => omega
  case inl.inl.inr =>
    have hn : (c.toNat + r.shift).toNat = 'k'.toNat := by
      have hk : 'k'.toNat = 107 := rfl
      omega
    exact .inl (hn ▸ Char.ofNat_toNat _)
  case inl.inr =>
    rw [hchar (.inl (by omega))]
    omega
  case inr =>
    rw [hchar (.inr (by omega))]
    omega

theorem lowerLetter_of_not_ascii (h : 0x80 ≤ c.toNat) : lowerLetter c = 'k' ∨ 0x80 ≤ (lowerLetter c).toNat := by
  rw [lowerLetter, if_neg (Nat.not_lt.mpr h)]
  cases hr : CaseRun.all.find? (·.covers c.toNat) with
  | none => exact .inr h
  | some r =>
    have hcovers := List.find?_some hr
    exact CaseRun.toNat_move (List.mem_of_find?_eq_some hr) hcovers h

theorem ascii_of_lowerChars (h : ∀ d ∈ lowerChars previous cs, d.toNat < 0x80 ∧ d ≠ 'k') :
    ∀ c ∈ cs, c.toNat < 0x80 := by
  induction cs generalizing previous with
  | nil => exact List.forall_mem_nil _
  | cons c cs ih =>
    rw [lowerChars] at h
    have ⟨hc, hcs⟩ := List.forall_mem_append.mp h
    refine List.forall_mem_cons.mpr ⟨Nat.lt_of_not_le fun hle => ?_, ih hcs⟩
    split at hc
    case isTrue =>
      have hfinal := (hc _ List.mem_cons_self).1
      rw [lowerSigma] at hfinal
      split at hfinal <;> exact absurd hfinal (by decide)
    case isFalse =>
      split at hc
      case isTrue => exact absurd (hc '\u0307' (by simp)).1 (by decide)
      case isFalse =>
        obtain ⟨hlt, hk⟩ := hc _ List.mem_cons_self
        exact (lowerLetter_of_not_ascii hle).elim hk (Nat.not_le.mpr hlt)

theorem toNat_toLower (h : c.isUpper) : c.toLower.toNat = c.toNat + 32 := by
  have hmove : c.toLower = ⟨c.val + ('a'.val - 'A'.val), _⟩ := dif_pos (of_decide_eq_true h)
  have hupper : 65 ≤ c.toNat ∧ c.toNat ≤ 90 := of_decide_eq_true h
  have hshift : ('a'.val - 'A'.val).toNat = 32 := rfl
  rw [hmove]
  simp only [Char.toNat] at hupper ⊢
  rw [UInt32.toNat_add]
  omega

theorem lowerLetter_eq {d : Char} (hd : d.toNat < 'a'.toNat) (h : lowerLetter c = d) : c = d := by
  have ha : 'a'.toNat = 97 := rfl
  by_cases hc : c.toNat < 0x80
  case neg =>
    rcases lowerLetter_of_not_ascii (Nat.not_lt.mp hc) with hk | hle
    · exact absurd ((hk.symm.trans h) ▸ hd) (by decide)
    · rw [h] at hle
      omega
  case pos =>
    rw [lowerLetter_of_ascii hc] at h
    cases hu : c.isUpper with
    | false => exact (dif_neg (of_decide_eq_false hu)).symm.trans h
    | true =>
      have hupper : 65 ≤ c.toNat := (of_decide_eq_true hu : _ ∧ _).1
      have hn := toNat_toLower hu
      rw [h] at hn
      omega

-- No character that comes before the small letters stands for another one.
theorem mem_of_mem_lowerChars {d : Char} (hd : d.toNat < 'a'.toNat) (h : d ∈ lowerChars previous cs) : d ∈ cs := by
  induction cs generalizing previous with
  | nil => exact h
  | cons c cs ih =>
    rw [lowerChars] at h
    rcases List.mem_append.mp h with h | h
    · split at h
      case isTrue =>
        rw [List.mem_singleton.mp h, lowerSigma] at hd
        split at hd <;> exact absurd hd (by decide)
      case isFalse =>
        split at h
        case isTrue =>
          rcases List.mem_cons.mp h with rfl | h
          · exact absurd hd (by decide)
          · exact absurd (List.mem_singleton.mp h ▸ hd) (by decide)
        case isFalse => exact lowerLetter_eq hd (List.mem_singleton.mp h).symm ▸ List.mem_cons_self
    · exact List.mem_cons_of_mem _ (ih h)

end Characters

theorem mem_of_mem_lower {s : String} {d : Char} (hd : d.toNat < 'a'.toNat) (h : d ∈ (lower s).toList) :
    d ∈ s.toList :=
  mem_of_mem_lowerChars hd (by rwa [lower, String.toList_ofList] at h)

theorem lower_of_isAscii {s : String} (h : IsAscii s) : lower s = asciiLower s := by
  rw [lower, lowerChars_of_ascii h, asciiLower]

-- A word of ASCII letters other than k is only ever the lower case of an ASCII text.
theorem asciiLower_eq_of_lower_eq {s t : String} (h : lower s = t) (ht : IsAscii t) (hk : 'k' ∉ t.toList) :
    asciiLower s = t := by
  have hchars : ∀ d ∈ lowerChars [] s.toList, d.toNat < 0x80 ∧ d ≠ 'k' := by
    intro d hd
    have hd : d ∈ t.toList := by rwa [← h, lower, String.toList_ofList]
    exact ⟨ht d hd, fun heq => hk (heq ▸ hd)⟩
  rw [← lower_of_isAscii (ascii_of_lowerChars hchars), h]

theorem isAscii_of_asciiLower {s : String} (h : IsAscii (asciiLower s)) : IsAscii s := by
  intro c hc
  cases hu : c.isUpper with
  | true =>
    have hz : c.toNat ≤ 'Z'.toNat := (of_decide_eq_true hu).2
    exact Nat.lt_of_le_of_lt hz (by decide)
  | false =>
    have hlower : c.toLower = c := dif_neg (of_decide_eq_false hu)
    exact hlower ▸ h _ (by rw [asciiLower, String.toList_ofList]; exact List.mem_map_of_mem hc)

theorem lower_eq_iff {s t : String} (ht : IsAscii t) (hk : 'k' ∉ t.toList) : lower s = t ↔ asciiLower s = t := by
  refine ⟨fun h => asciiLower_eq_of_lower_eq h ht hk, fun h => ?_⟩
  rw [lower_of_isAscii (isAscii_of_asciiLower (h ▸ ht)), h]

end MediaCatalog.Text
