import MediaCatalog.Proofs.Filter.Operator
import MediaCatalog.Query
import Mathlib.Data.List.TakeWhile

namespace MediaCatalog

namespace Text

variable {sep : Char} {s a b : String}

theorem cut_of_not_mem (h : sep ∉ s.toList) : cut sep s = (s, "") := by
  have hne : ∀ c ∈ s.toList, decide (c ≠ sep) := fun c hc => decide_eq_true fun heq => h (heq ▸ hc)
  rw [cut, before, List.takeWhile_eq_self_iff.mpr hne, List.dropWhile_eq_nil_iff.mpr hne, String.ofList_toList]
  rfl

-- Text with a separator behind a part that has none.
theorem cut_append (h : sep ∉ a.toList) : cut sep (a ++ .singleton sep ++ b) = (a, b) := by
  have hne : ∀ c ∈ a.toList, decide (c ≠ sep) := fun c hc => decide_eq_true fun heq => h (heq ▸ hc)
  have hchars : (a ++ .singleton sep ++ b).toList = a.toList ++ sep :: b.toList := by simp
  rw [cut, before, hchars, List.takeWhile_append_of_pos hne, List.dropWhile_append_of_pos hne]
  simp

end Text

namespace Query

variable {word value : String} {c : Char} {tail : List Char}

theorem isWord_of_isMark (h : isMark c) : Text.isWord c = false := by
  simp only [isMark, Bool.or_eq_true, beq_iff_eq] at h
  obtain (((rfl | rfl) | rfl) | rfl) | rfl := h <;> rfl

-- A name without a mark keeps its value.
theorem normalize_word (hw : ∀ c ∈ word.toList, Text.isWord c) : normalize word value = (Text.lower word, value) := by
  rw [normalize, List.dropWhile_eq_nil_iff.mpr hw]
  rfl

-- A parameter is left as it is but for the case of its name, or what stands behind the word in its name moves to the
-- front of the value.
theorem normalize_cases (name value : String) : normalize name value = (Text.lower name, value) ∨
    ∃ sign, name.toList.dropWhile Text.isWord ≠ [] ∧ normalize name value =
      (Text.lower (.ofList (name.toList.takeWhile Text.isWord)),
        .ofList (name.toList.dropWhile Text.isWord) ++ sign ++ value) := by
  rw [normalize]
  generalize name.toList.takeWhile Text.isWord = word, name.toList.dropWhile Text.isWord = tail
  split
  case isTrue => exact .inl rfl
  case isFalse htail =>
    have hne : tail ≠ [] := by simpa using htail
    split
    case isTrue => exact .inl rfl
    case isFalse =>
      split
      case isTrue hv =>
        have hvalue : value = "" := by simpa using hv
        exact .inr ⟨"", hne, by simp [hvalue]⟩
      case isFalse =>
        split
        case isTrue => exact .inl rfl
        case isFalse =>
          split
          case isTrue => exact .inr ⟨"=", hne, rfl⟩
          case isFalse => exact .inr ⟨"", hne, by simp⟩

-- Where the value is left as it is, so is the name.
theorem lower_of_normalize {name field : String} (h : normalize name value = (field, value)) :
    Text.lower name = field := by
  obtain hkept | ⟨sign, hne, hmoved⟩ := normalize_cases name value
  case inl => exact congrArg Prod.fst (hkept.symm.trans h)
  case inr =>
    have hlength := congrArg (·.2.length) (hmoved.symm.trans h)
    simp only [String.length_append, String.length_ofList] at hlength
    exact absurd (List.length_eq_zero_iff.mp (by omega)) hne

section Marked

variable (hw : ∀ c ∈ word.toList, Text.isWord c) (hc : isMark c)

include hw hc

theorem word_of_marked : (word ++ .ofList (c :: tail)).toList.takeWhile Text.isWord = word.toList := by
  rw [String.toList_append, String.toList_ofList, List.takeWhile_append_of_pos hw,
    List.takeWhile_cons_of_neg (by simp [isWord_of_isMark hc]), List.append_nil]

theorem tail_of_marked : (word ++ .ofList (c :: tail)).toList.dropWhile Text.isWord = c :: tail := by
  rw [String.toList_append, String.toList_ofList, List.dropWhile_append_of_pos hw,
    List.dropWhile_cons_of_neg (by simp [isWord_of_isMark hc])]

-- Without a value all of it stands behind the name.
theorem normalize_marked_nil :
    normalize (word ++ .ofList (c :: tail)) "" = (Text.lower word, .ofList (c :: tail)) := by
  rw [normalize, word_of_marked hw hc, tail_of_marked hw hc]
  simp [hc]

-- A name and nothing but marks behind it. The equals sign that divided them from the value is part of the mark if
-- this is a comparison.
theorem normalize_marked (ht : tail.all isMark) (hv : value ≠ "") :
    normalize (word ++ .ofList (c :: tail)) value = (Text.lower word,
      if c :: tail = ['<'] ∨ c :: tail = ['>'] then .ofList (c :: tail) ++ "=" ++ value
      else .ofList (c :: tail) ++ value) := by
  have hall : (c :: tail).all isMark := by rw [List.all_cons, hc, ht, Bool.true_and]
  have hvalue : value.isEmpty = false := by simpa using hv
  rw [normalize, word_of_marked hw hc, tail_of_marked hw hc]
  simp only [List.isEmpty_cons, List.take_succ_cons, List.take_zero, List.all_cons, hc, List.all_nil,
    Bool.and_true, Bool.not_true, Bool.false_eq_true, if_false, hvalue, hall, String.ofList_toList]
  split <;> rfl

end Marked

open MediaCatalog.Filter

section Spellings

-- The ways to write a filter as a parameter. What a client writes is divided where its first equals sign stands.
inductive Spells (field : String) (o : Operator) (operand : String) : String → String → Prop
  -- The mark opens the value.
  | plain : Spells field o operand field (o.mark ++ operand)
  -- The mark and the operand follow the name. But for a comparison by ≤ or ≥, whose mark has an equals sign of its
  -- own, the operand has none.
  | glued (h : o = .greaterOrEqual ∨ o = .lessOrEqual ∨ '=' ∉ operand.toList) :
    Spells field o operand (Text.cut '=' (field ++ o.mark ++ operand)).1
      (Text.cut '=' (field ++ o.mark ++ operand)).2
  -- The mark follows the name, and the operand comes behind an equals sign.
  | divided (h : o.isComparison = false) : Spells field o operand (field ++ o.mark) operand

variable {field operand name value : String} {o : Operator}

theorem mark_eq (ho : o ≠ .equal) : ∃ c tail, o.mark = .ofList (c :: tail) ∧ isMark c ∧
    (o.isComparison = false → tail.all isMark ∧ ¬(c :: tail = ['<'] ∨ c :: tail = ['>'])) ∧
    (o ≠ .greaterOrEqual → o ≠ .lessOrEqual → '=' ∉ c :: tail) := by
  cases o with
  | equal => exact absurd rfl ho
  | _ => exact ⟨_, _, rfl, by decide⟩

theorem isMark_of_sequel {c : Char} (h : c ∈ o.sequels) : isMark c ∨ c = '=' := by
  have hall : o.sequels.all fun c => isMark c || c == '=' := by cases o <;> decide
  simpa using List.all_eq_true.mp hall c h

-- An operand that cannot go on with the mark in front of it is told apart from the mark.
theorem detect_mark (h : ∀ c ∈ operand.toList.head?, isMark c = false ∧ c ≠ '=') :
    Operator.detect (o.mark ++ operand) = (o, operand) := by
  apply Operator.detect_mark_iff.mpr
  intro c hc hsequel
  have ⟨hmark, hequals⟩ := h c hc
  cases isMark_of_sequel hsequel
  case inl h => exact absurd h (by simp [hmark])
  case inr h => exact hequals h

section Parts

variable (hf : ∀ c ∈ field.toList, Text.isWord c)

include hf

theorem not_mem_word : '=' ∉ field.toList :=
  fun h => absurd (hf _ h) (by decide)

-- A comparison by ≤ or ≥ is divided within its mark.
theorem cut_comparison {sign : Char} (hs : sign ≠ '=') :
    Text.cut '=' (field ++ (.singleton sign ++ "=") ++ operand) = (field ++ .singleton sign, operand) := by
  have hsign : '=' ∉ (field ++ .singleton sign).toList := by
    simpa [hs.symm] using not_mem_word hf
  rw [← Text.cut_append hsign]
  simp only [String.append_assoc]
  rfl

theorem normalize_comparison {sign : Char} (hs : sign = '<' ∨ sign = '>') (hr : operand ≠ "") :
    normalize (field ++ .singleton sign) operand = (Text.lower field, .singleton sign ++ "=" ++ operand) := by
  have hmark : isMark sign := by
    obtain rfl | rfl := hs <;> rfl
  have h := normalize_marked hf hmark List.all_nil hr
  obtain rfl | rfl := hs <;> exact h

-- Without an equals sign nothing is divided.
theorem cut_undivided (ho : o ≠ .equal) (hle : o ≠ .lessOrEqual) (hge : o ≠ .greaterOrEqual)
    (hr : '=' ∉ operand.toList) : Text.cut '=' (field ++ o.mark ++ operand) = (field ++ o.mark ++ operand, "") := by
  obtain ⟨c, tail, hmark, -, -, hequals⟩ := mark_eq ho
  refine Text.cut_of_not_mem ?_
  simp only [String.toList_append, hmark, String.toList_ofList, List.mem_append, not_or]
  exact ⟨⟨not_mem_word hf, hequals hge hle⟩, hr⟩

end Parts

-- Whichever way a filter is written, the parameter has one name and one value, which are the plain ones, and so the
-- operator and the operand that are told apart in the value are the same. They are those that were written unless
-- the operand goes on like a mark.
theorem normalize_of_spells (hf : ∀ c ∈ field.toList, Text.isWord c) (ho : o ≠ .equal) (hr : operand ≠ "")
    (h : Spells field o operand name value) :
    normalize name value = (Text.lower field, o.mark ++ operand) ∧
    normalize name value = normalize field (o.mark ++ operand) ∧
    Operator.detect (normalize name value).2 = Operator.detect (o.mark ++ operand) ∧
    ((∀ c ∈ operand.toList.head?, isMark c = false ∧ c ≠ '=') →
      Operator.detect (normalize name value).2 = (o, operand)) := by
  have hplain : normalize field (o.mark ++ operand) = (Text.lower field, o.mark ++ operand) := normalize_word hf
  have hspelled : normalize name value = (Text.lower field, o.mark ++ operand) := by
    cases h with
    | plain => exact hplain
    | glued h =>
      by_cases hle : o = .lessOrEqual
      case pos =>
        subst hle
        rw [Operator.mark, show "<=" = .singleton '<' ++ "=" from rfl, cut_comparison hf (by decide)]
        exact normalize_comparison hf (.inl rfl) hr
      case neg =>
        by_cases hge : o = .greaterOrEqual
        case pos =>
          subst hge
          rw [Operator.mark, show ">=" = .singleton '>' ++ "=" from rfl, cut_comparison hf (by decide)]
          exact normalize_comparison hf (.inr rfl) hr
        case neg =>
          obtain ⟨c, tail, hmark, hc, -⟩ := mark_eq ho
          have hequals := (h.resolve_left hge).resolve_left hle
          have hbehind : o.mark ++ operand = .ofList (c :: (tail ++ operand.toList)) := by
            rw [hmark, ← List.cons_append, String.ofList_append, String.ofList_toList]
          rw [cut_undivided hf ho hle hge hequals, String.append_assoc, hbehind]
          exact normalize_marked_nil hf hc
    | divided h =>
      obtain ⟨c, tail, hmark, hc, hmarks, -⟩ := mark_eq ho
      obtain ⟨htail, hsingle⟩ := hmarks h
      rw [hmark, normalize_marked hf hc htail hr, if_neg hsingle]
  refine ⟨hspelled, hspelled.trans hplain.symm, ?_, fun hoperand => ?_⟩
  case refine_1 => rw [hspelled]
  case refine_2 => rw [hspelled, detect_mark hoperand]

-- A comparison whose operand has equals signs and a mark of its own.
theorem normalize_of_spells_duration :
    normalize "Duration>" "=5>=0" = ("duration", ">==5>=0") ∧
      Operator.detect (normalize "Duration>" "=5>=0").2 = Operator.detect ">==5>=0" := by
  have hf : ∀ c ∈ "Duration".toList, Text.isWord c := List.all_eq_true.mp (by decide)
  have hspells : Spells "Duration" .greaterOrEqual "=5>=0" "Duration>" "=5>=0" := .glued (.inl rfl)
  have ⟨hname, _, hdetect, _⟩ := normalize_of_spells hf (by decide) (by decide) hspells
  exact ⟨hname, hdetect⟩

end Spellings

section Signs

-- What a parameter asks for: a field, an operator and an operand. A client writes it as one text, which is divided
-- where its first equals sign stands.
def asked (parameter : String) : String × Operator × String :=
  let (name, value) := Text.cut '=' parameter
  let (field, raw) := normalize name value
  (field, Operator.detect raw)

variable {field operand : String} (hf : ∀ c ∈ field.toList, Text.isWord c) (hr : operand ≠ "")

include hf hr

theorem asked_comparison (sign : Char) (hs : sign = '<' ∨ sign = '>') :
    asked (field ++ (.singleton sign ++ "=") ++ operand) =
      (Text.lower field, Operator.detect (.singleton sign ++ "=" ++ operand)) := by
  have hne : sign ≠ '=' := by
    cases hs with
    | inl h => subst h; decide
    | inr h => subst h; decide
  simp only [asked, cut_comparison hf hne, normalize_comparison hf hs hr]

-- The equals sign behind an exclamation mark is gone before the operator is told.
theorem asked_unequal :
    asked (field ++ "!=" ++ operand) = (Text.lower field, Operator.detect ("!" ++ operand)) := by
  have hcut : Text.cut '=' (field ++ "!=" ++ operand) = (field ++ .ofList ['!'], operand) := by
    rw [show "!=" = .singleton '!' ++ "=" from rfl]
    exact cut_comparison hf (by decide)
  have hmark : isMark '!' := rfl
  simp only [asked, hcut, normalize_marked hf hmark List.all_nil hr]
  rfl

-- Behind ≥ and ≤ the operand is read as it was written, whatever it is. Behind ≠ it is so unless it opens with a star
-- or a colon, which goes on with the mark: then it is another operator, and the operand lacks its first character.
theorem asked_signs :
    asked (field ++ ">=" ++ operand) = (Text.lower field, .greaterOrEqual, operand) ∧
    asked (field ++ "<=" ++ operand) = (Text.lower field, .lessOrEqual, operand) ∧
    (asked (field ++ "!=" ++ operand) = (Text.lower field, .notEqual, operand) ↔
      ∀ c ∈ operand.toList.head?, c ≠ '*' ∧ c ≠ ':') ∧
    (∀ rest, operand = "*" ++ rest → asked (field ++ "!=" ++ operand) = (Text.lower field, .notLike, rest)) ∧
    (∀ rest, operand = ":" ++ rest → asked (field ++ "!=" ++ operand) = (Text.lower field, .notIn, rest)) := by
  have hdetect {o : Operator} (operand : String) (ho : o.sequels = []) :
      Operator.detect (o.mark ++ operand) = (o, operand) :=
    Operator.detect_mark_iff.mpr fun c _ => by simp [ho]
  refine ⟨?greater, ?less, ?unequal, ?like, ?list⟩
  case greater =>
    have h := asked_comparison hf hr '>' (.inr rfl)
    exact h.trans (congrArg _ (hdetect (o := .greaterOrEqual) operand rfl))
  case less =>
    have h := asked_comparison hf hr '<' (.inl rfl)
    exact h.trans (congrArg _ (hdetect (o := .lessOrEqual) operand rfl))
  case unequal =>
    rw [asked_unequal hf hr, Prod.mk.injEq, and_iff_right rfl]
    apply (Operator.detect_mark_iff (o := .notEqual)).trans
    simp [Operator.sequels]
  case like =>
    intro rest h
    rw [asked_unequal hf hr, h, ← String.append_assoc]
    exact congrArg _ (hdetect (o := .notLike) rest rfl)
  case list =>
    intro rest h
    rw [asked_unequal hf hr, h, ← String.append_assoc]
    exact congrArg _ (hdetect (o := .notIn) rest rfl)

omit hf hr

-- A movie that is not called "=*Up" is asked for, and one that is not called "*Up".
theorem asked_signs_star :
    asked "Name!==*Up" = ("name", .notEqual, "=*Up") ∧ asked "Name!=*Up" = ("name", .notLike, "Up") := by
  have hf : ∀ c ∈ "Name".toList, Text.isWord c := List.all_eq_true.mp (by decide)
  have ⟨_, _, hunequal, _⟩ := asked_signs hf (show "=*Up" ≠ "" by decide)
  have ⟨_, _, _, hlike, _⟩ := asked_signs hf (show "*Up" ≠ "" by decide)
  exact ⟨hunequal.mpr (by simp), hlike "Up" rfl⟩

-- Whoever asks for the movies that are not called "*Up" gets those whose name does not have "Up" in it.
theorem asked_unequal_star : asked "name!=*Up" = ("name", .notLike, "Up") ∧
    asked "name!=*Up" ≠ ("name", .notEqual, "*Up") := by
  decide

end Signs

end Query

end MediaCatalog
