import MediaCatalog.Language
import MediaCatalog.Proofs.Except

namespace MediaCatalog

namespace LanguageTag

def isTagChar (c : Char) : Bool :=
  Text.isAsciiAlphanumeric c || c == '-'

section Characters

variable {c : Char}

theorem toLower_eq_self (h : c.isUpper = false) : c.toLower = c :=
  dif_neg (of_decide_eq_false h)

theorem isAsciiAlphanumeric_of_isUpper (h : c.isUpper) : Text.isAsciiAlphanumeric c := by
  change (c.isUpper || c.isLower || c.isDigit) = true
  rw [h]
  rfl

theorem isTagChar_of_toLower (h : isTagChar c.toLower) : isTagChar c := by
  cases hu : c.isUpper with
  | true =>
    rw [isTagChar, isAsciiAlphanumeric_of_isUpper hu]
    rfl
  | false => rwa [toLower_eq_self hu] at h

theorem isTagChar_iff : isTagChar c ↔ (((65 ≤ c.toNat ∧ c.toNat ≤ 90) ∨ (97 ≤ c.toNat ∧ c.toNat ≤ 122)) ∨
    (48 ≤ c.toNat ∧ c.toNat ≤ 57)) ∨ c = '-' := by
  have hupper : c.isUpper = true ↔ 65 ≤ c.toNat ∧ c.toNat ≤ 90 := decide_eq_true_iff
  have hlower : c.isLower = true ↔ 97 ≤ c.toNat ∧ c.toNat ≤ 122 :=
    Bool.and_eq_true_iff.trans (and_congr decide_eq_true_iff decide_eq_true_iff)
  have hdigit : c.isDigit = true ↔ 48 ≤ c.toNat ∧ c.toNat ≤ 57 :=
    Bool.and_eq_true_iff.trans (and_congr decide_eq_true_iff decide_eq_true_iff)
  change (c.isUpper || c.isLower || c.isDigit || c == '-') = true ↔ _
  rw [Bool.or_eq_true, Bool.or_eq_true, Bool.or_eq_true, hupper, hlower, hdigit, beq_iff_eq]

theorem isBlank_of_isTagChar (h : isTagChar c) : Text.isBlank c = false := by
  simp only [Text.isBlank, Bool.or_eq_false_iff, Bool.and_eq_false_iff, beq_eq_false_iff_ne,
    decide_eq_false_iff_not]
  rcases isTagChar_iff.mp h with ((h | h) | h) | rfl
  case inr => decide
  all_goals omega

end Characters

section Subtags

-- Subtags of letters and digits.
def ArePlain (ss : List Subtag) : Prop :=
  ∀ s ∈ ss, s.all Text.isAsciiAlphanumeric

variable {s : Subtag} {ss : List Subtag}

theorem arePlain_cons : ArePlain (s :: ss) ↔ s.all Text.isAsciiAlphanumeric ∧ ArePlain ss :=
  List.forall_mem_cons

namespace Subtag

theorem all_of_isAlpha {least most : Nat} (h : isAlpha least most s) : s.all Text.isAsciiAlphanumeric := by
  simp only [isAlpha, Bool.and_eq_true, List.all_eq_true] at h ⊢
  exact fun c hc => by simp [Text.isAsciiAlphanumeric, h.2 c hc]

theorem all_of_isAlphanumeric {least most : Nat} (h : isAlphanumeric least most s) :
    s.all Text.isAsciiAlphanumeric := by
  rw [isAlphanumeric, Bool.and_eq_true] at h
  exact h.2

theorem all_of_isRegion (h : isRegion s) : s.all Text.isAsciiAlphanumeric := by
  rw [isRegion, Bool.or_eq_true, Bool.and_eq_true] at h
  rcases h with h | ⟨_, h⟩
  · exact all_of_isAlpha h
  · rw [List.all_eq_true] at h ⊢
    exact fun c hc => by simp [Text.isAsciiAlphanumeric, h c hc]

theorem all_of_isVariant (h : isVariant s) : s.all Text.isAsciiAlphanumeric := by
  rw [isVariant, Bool.or_eq_true, Bool.and_eq_true] at h
  rcases h with h | ⟨h, _⟩ <;> exact all_of_isAlphanumeric h

theorem all_of_isPrivate (h : isPrivate s) : s.all Text.isAsciiAlphanumeric := by
  rw [isPrivate, beq_iff_eq] at h
  obtain ⟨c, rfl, hc⟩ := List.map_eq_singleton_iff.mp h
  cases hu : c.isUpper with
  | true =>
    rw [List.all_cons, isAsciiAlphanumeric_of_isUpper hu]
    rfl
  | false =>
    rw [toLower_eq_self hu] at hc
    subst hc
    rfl

theorem all_of_isSingleton (h : isSingleton s) : s.all Text.isAsciiAlphanumeric := by
  rw [isSingleton, Bool.and_eq_true] at h
  exact all_of_isAlphanumeric h.1

end Subtag

open Subtag

theorem arePlain_of_privatePart (h : privatePart ss) : ArePlain ss := by
  rw [privatePart, Bool.and_eq_true, List.all_eq_true] at h
  exact fun s hs => all_of_isAlphanumeric (h.2 s hs)

theorem arePlain_of_extensions {p : Phase} (h : extensions p ss) : ArePlain ss := by
  induction ss generalizing p with
  | nil => exact fun s hs => absurd hs List.not_mem_nil
  | cons s ss ih =>
    rw [arePlain_cons]
    cases p with
    | opened =>
      rw [extensions, Bool.and_eq_true] at h
      exact ⟨all_of_isAlphanumeric h.1, ih h.2⟩
    | outside =>
      rw [extensions] at h
      split at h
      case isTrue hp => exact ⟨all_of_isPrivate hp, arePlain_of_privatePart h⟩
      case isFalse =>
        rw [Bool.and_eq_true] at h
        exact ⟨all_of_isSingleton h.1, ih h.2⟩
    | inside =>
      rw [extensions] at h
      split at h
      case isTrue ha => exact ⟨all_of_isAlphanumeric ha, ih h⟩
      case isFalse =>
        split at h
        case isTrue hp => exact ⟨all_of_isPrivate hp, arePlain_of_privatePart h⟩
        case isFalse =>
          rw [Bool.and_eq_true] at h
          exact ⟨all_of_isSingleton h.1, ih h.2⟩

-- What is passed over is plain as well.
theorem arePlain_of_dropIf {p : Subtag → Bool} (hp : ∀ s, p s → s.all Text.isAsciiAlphanumeric)
    (h : ArePlain (dropIf p ss)) : ArePlain ss := by
  cases ss with
  | nil => exact h
  | cons s ss =>
    rw [dropIf] at h
    split at h
    case isTrue hs => exact arePlain_cons.mpr ⟨hp s hs, h⟩
    case isFalse => exact h

theorem arePlain_of_dropWhile {p : Subtag → Bool} (hp : ∀ s, p s → s.all Text.isAsciiAlphanumeric)
    (h : ArePlain (ss.dropWhile p)) : ArePlain ss := by
  induction ss with
  | nil => exact h
  | cons s ss ih =>
    rw [List.dropWhile_cons] at h
    split at h
    case isTrue hs => exact arePlain_cons.mpr ⟨hp s hs, ih h⟩
    case isFalse => exact h

theorem arePlain_of_afterLanguage (h : afterLanguage ss) : ArePlain ss :=
  arePlain_of_dropIf (fun _ => all_of_isAlpha) <| arePlain_of_dropIf (fun _ => all_of_isRegion) <|
    arePlain_of_dropWhile (fun _ => all_of_isVariant) (arePlain_of_extensions h)

theorem arePlain_of_afterExtended (h : afterExtended ss) : ArePlain ss :=
  have hdrop {ss : List Subtag} : ArePlain (afterExtended.drop3 ss) → ArePlain ss :=
    arePlain_of_dropIf fun _ => all_of_isAlpha
  hdrop (hdrop (hdrop (arePlain_of_afterLanguage h)))

theorem arePlain_of_regular (h : regular ss) : ArePlain ss := by
  cases ss with
  | nil => cases h
  | cons s ss =>
    rw [arePlain_cons]
    rw [regular] at h
    split at h
    case isTrue hp => exact ⟨all_of_isPrivate hp, arePlain_of_privatePart h⟩
    case isFalse =>
      split at h
      case isTrue ha => exact ⟨all_of_isAlpha ha, arePlain_of_afterExtended h⟩
      case isFalse =>
        rw [Bool.and_eq_true] at h
        exact ⟨all_of_isAlpha h.1, arePlain_of_afterLanguage h.2⟩

end Subtags

-- A character of a text is a separator or stands in a piece.
theorem eq_or_mem_pieces {sep c : Char} {cs : List Char} (h : c ∈ cs) :
    c = sep ∨ ∃ w ∈ Text.split.pieces sep cs, c ∈ w := by
  induction cs with
  | nil => cases h
  | cons d ds ih =>
    rw [Text.split.pieces]
    split
    case isTrue hd =>
      rcases List.mem_cons.mp h with rfl | h
      · exact .inl hd
      · rcases ih h with heq | ⟨w, hw, hc⟩
        · exact .inl heq
        · exact .inr ⟨w, List.mem_cons_of_mem _ hw, hc⟩
    case isFalse hd =>
      cases hp : Text.split.pieces sep ds with
      | nil => exact absurd hp (Text.split.pieces_ne_nil sep ds)
      | cons w ws =>
        rw [hp] at ih
        rw [Text.split.grow]
        rcases List.mem_cons.mp h with rfl | h
        · exact .inr ⟨_, List.mem_cons_self, List.mem_cons_self⟩
        · rcases ih h with heq | ⟨v, hv, hc⟩
          · exact .inl heq
          · rcases List.mem_cons.mp hv with rfl | hv
            · exact .inr ⟨_, List.mem_cons_self, List.mem_cons_of_mem _ hc⟩
            · exact .inr ⟨v, List.mem_cons_of_mem _ hv, hc⟩

theorem isTagChar_of_isValid {tag : String} (h : isValid tag) {c : Char} (hc : c ∈ tag.toList) : isTagChar c := by
  rw [isValid, Bool.or_eq_true] at h
  rcases h with h | h
  · have hall : grandfathered.all fun g => g.toList.all isTagChar := by decide
    have htag := List.all_eq_true.mp hall _ (List.contains_iff_mem.mp h)
    refine isTagChar_of_toLower (List.all_eq_true.mp htag _ ?_)
    rw [Text.asciiLower, String.toList_ofList]
    exact List.mem_map_of_mem hc
  · have hpiece : c = '-' ∨ ∃ w ∈ Text.split.pieces '-' tag.toList, c ∈ w := eq_or_mem_pieces hc
    rcases hpiece with rfl | ⟨w, hw, hc⟩
    · rfl
    · have := List.all_eq_true.mp (arePlain_of_regular h w hw) c hc
      simp [isTagChar, this]

end LanguageTag

-- A text without blanks has none at its ends.
theorem Text.trim_eq_self {s : String} (h : ∀ c ∈ s.toList, isBlank c = false) : trim s = s := by
  have hdrop {cs : List Char} (hcs : ∀ c ∈ cs, isBlank c = false) : cs.dropWhile isBlank = cs := by
    cases cs with
    | nil => rfl
    | cons c cs => rw [List.dropWhile_cons_of_neg (by simp [hcs c])]
  rw [trim, hdrop h, hdrop (fun c hc => h c (List.mem_reverse.mp hc)), List.reverse_reverse, String.ofList_toList]

-- A tag stands for itself.
theorem Language.read_of_isValid {t : String} (h : LanguageTag.isValid t) : read t = .ok (tag t) := by
  have htrim : Text.trim t = t :=
    Text.trim_eq_self fun c hc => LanguageTag.isBlank_of_isTagChar (LanguageTag.isTagChar_of_isValid h hc)
  have hstar : t ≠ any.text := by
    rintro rfl
    cases LanguageTag.isTagChar_of_isValid h (c := '*') (by decide)
  rw [read]
  simp only [htrim, if_neg hstar, h, if_true]
  rfl

end MediaCatalog
