import MediaCatalog.Http.MediaType
import MediaCatalog.Proofs.Language
import Mathlib.Data.List.TakeWhile

namespace MediaCatalog.Http.MediaType

-- What is in front of the first slash.
def type (mediaType : String) : List Char :=
  mediaType.toList.takeWhile (· ≠ '/')

-- What is behind the first slash, up to a semicolon.
def subtype (mediaType : String) : List Char :=
  ((mediaType.toList.dropWhile (· ≠ '/')).drop 1).takeWhile (· ≠ ';')

-- What is behind that semicolon.
def parameterText (mediaType : String) : List Char :=
  (((mediaType.toList.dropWhile (· ≠ '/')).drop 1).dropWhile (· ≠ ';')).drop 1

-- A well-formed media type for applications.
structure IsApplication (mediaType : String) : Prop where
  type       : (type mediaType).map Char.toLower = "application".toList
  subtype    : ∀ c ∈ subtype mediaType, isToken c
  parameters : parameters .beforeName (parameterText mediaType)

section Suffix

-- What begins with a character ends a text as it ends the part of it that follows the character's last place.
theorem suffix_append_iff {c : Char} {cs front back : List Char} (h : c ∉ front) :
    c :: cs <:+ front ++ back ↔ c :: cs <:+ back := by
  refine ⟨fun ⟨before, heq⟩ => ?_, fun hback => hback.trans (List.suffix_append front back)⟩
  rcases List.append_eq_append_iff.mp heq with ⟨between, hfront, hback⟩ | ⟨between, -, hback⟩
  case inr => exact ⟨between, hback.symm⟩
  case inl =>
    cases between with
    | nil => exact ⟨[], hback⟩
    | cons d between =>
      refine absurd ?_ h
      rw [hfront, (List.cons.inj hback).1]
      exact List.mem_append_right _ List.mem_cons_self

theorem go_eq_some {last : Option (List Char)} {cs t : List Char} :
    suffix?.go last cs = some t ↔
      (∃ p, cs = p ++ '+' :: t ∧ '+' ∉ t) ∨ ('+' ∉ cs ∧ last = some t) := by
  induction cs generalizing last with
  | nil => simp [suffix?.go]
  | cons c cs ih =>
    rw [suffix?.go, ih]
    by_cases hc : c = '+'
    case pos =>
      subst hc
      simp only [if_true, Option.some.injEq]
      constructor
      · rintro (⟨p, rfl, ht⟩ | ⟨ht, rfl⟩)
        · exact .inl ⟨'+' :: p, rfl, ht⟩
        · exact .inl ⟨[], rfl, ht⟩
      · rintro (⟨_ | ⟨d, p⟩, heq, ht⟩ | ⟨hno, -⟩)
        · exact .inr ⟨(List.cons.inj heq).2 ▸ ht, (List.cons.inj heq).2⟩
        · exact .inl ⟨p, (List.cons.inj heq).2, ht⟩
        · exact absurd List.mem_cons_self hno
    case neg =>
      simp only [if_neg hc]
      constructor
      · rintro (⟨p, rfl, ht⟩ | ⟨hno, hlast⟩)
        · exact .inl ⟨c :: p, rfl, ht⟩
        · exact .inr ⟨by simp [hno, Ne.symm hc], hlast⟩
      · rintro (⟨_ | ⟨d, p⟩, heq, ht⟩ | ⟨hno, hlast⟩)
        · exact absurd (List.cons.inj heq).1 hc
        · exact .inl ⟨p, (List.cons.inj heq).2, ht⟩
        · exact .inr ⟨fun hmem => hno (List.mem_cons_of_mem c hmem), hlast⟩

theorem isJsonSubtype_iff {s : List Char} :
    isJsonSubtype s ↔ s = "json".toList ∨ ∃ p, p ≠ [] ∧ s = p ++ "+json".toList := by
  have hsuffix : suffix? s = some "json".toList ↔ ∃ p, p ≠ [] ∧ s = p ++ "+json".toList := by
    cases s with
    | nil => simp [suffix?]
    | cons c cs =>
      rw [suffix?, go_eq_some]
      constructor
      · rintro (⟨p, rfl, -⟩ | ⟨-, hnone⟩)
        · exact ⟨c :: p, List.cons_ne_nil c p, rfl⟩
        · cases hnone
      · rintro ⟨_ | ⟨d, p⟩, hne, heq⟩
        · exact absurd rfl hne
        · exact .inl ⟨p, (List.cons.inj heq).2, by decide⟩
  rw [isJsonSubtype, Bool.or_eq_true, decide_eq_true_eq, decide_eq_true_eq, hsuffix]

end Suffix

section Essence

variable {t : String}

theorem isBlank_of_isToken {c : Char} (h : isToken c) : Text.isBlank c = false := by
  have hmarks : "!#$%&\x27*+-.^_`|~".toList.all (!Text.isBlank ·) = true := by decide
  rw [isToken, Bool.or_eq_true, List.contains_iff_mem] at h
  rcases h with h | h
  · exact LanguageTag.isBlank_of_isTagChar (by rw [LanguageTag.isTagChar, h, Bool.true_or])
  · simpa using List.all_eq_true.mp hmarks c h

-- The letters of a word are none of the marks between the parts.
theorem isTagChar_type (h : (type t).map Char.toLower = "application".toList) :
    ∀ c ∈ type t, LanguageTag.isTagChar c := by
  intro c hc
  have hletters : "application".toList.all LanguageTag.isTagChar = true := by decide
  exact LanguageTag.isTagChar_of_toLower (List.all_eq_true.mp hletters _ (h ▸ List.mem_map_of_mem hc))

-- The part in front of the parameters, if it is well-formed. Without a slash it is the type alone.
theorem essence_cases (h : IsApplication t) :
    (subtype t = [] ∧ Text.asciiLower (Text.trim (Text.before ';' t)) = "application") ∨
      Text.asciiLower (Text.trim (Text.before ';' t)) =
        .ofList ("application/".toList ++ (subtype t).map Char.toLower) := by
  have hchars : t.toList = type t ++ t.toList.dropWhile (· ≠ '/') := List.takeWhile_append_dropWhile.symm
  have htag := isTagChar_type h.type
  have hsemicolon : ∀ c ∈ type t, decide (c ≠ ';') := by
    intro c hc
    rw [decide_eq_true_eq]
    rintro rfl
    cases htag ';' hc
  have hblank : ∀ c ∈ type t, Text.isBlank c = false := fun c hc => LanguageTag.isBlank_of_isTagChar (htag c hc)
  cases hrest : t.toList.dropWhile (· ≠ '/') with
  | nil =>
    have htype : t.toList = type t := by rw [hchars, hrest, List.append_nil]
    have hbefore : Text.before ';' t = t := by
      rw [Text.before, htype, List.takeWhile_eq_self_iff.mpr hsemicolon, ← htype, String.ofList_toList]
    refine .inl ⟨by rw [subtype, hrest]; rfl, ?_⟩
    rw [hbefore, Text.trim_eq_self (htype ▸ hblank), Text.asciiLower, htype, h.type]
    rfl
  | cons c more =>
    have hc : c = '/' := by
      have := List.head?_dropWhile_not (· ≠ '/') t.toList
      rw [hrest] at this
      simpa using this
    subst hc
    have hsubtype : subtype t = more.takeWhile (· ≠ ';') := by rw [subtype, hrest]; rfl
    have hbefore : (Text.before ';' t).toList = type t ++ '/' :: subtype t := by
      rw [Text.before, String.toList_ofList, hchars, hrest, List.takeWhile_append_of_pos hsemicolon, hsubtype]
      rfl
    have hplain : ∀ c ∈ (Text.before ';' t).toList, Text.isBlank c = false := by
      intro c hc
      rw [hbefore] at hc
      rcases List.mem_append.mp hc with hc | hc
      · exact hblank c hc
      · rcases List.mem_cons.mp hc with rfl | hc
        · decide
        · exact isBlank_of_isToken (h.subtype c hc)
    refine .inr ?_
    rw [Text.trim_eq_self hplain, Text.asciiLower, hbefore, List.map_append, List.map_cons, h.type]
    rfl

theorem isNearlyJson_iff (h : IsApplication t) :
    isNearlyJson t ↔ (subtype t).map Char.toLower = "json".toList ∨
      ∃ p, (subtype t).map Char.toLower = p ++ "+json".toList := by
  have hsuffix : "+json".toList = '+' :: "json".toList := by decide
  rw [isNearlyJson, Bool.or_eq_true, decide_eq_true_eq, Text.endsWith, List.isSuffixOf_iff_suffix, hsuffix]
  rcases essence_cases h with ⟨hnone, hessence⟩ | hessence
  case inl =>
    have hshort : ¬('+' :: "json".toList <:+ "application".toList) := by decide
    rw [hessence, hnone, List.map_nil]
    constructor
    · rintro (hjson | hjson)
      · exact absurd hjson (by decide)
      · exact absurd hjson hshort
    · rintro (hjson | ⟨p, hjson⟩)
      · exact absurd hjson (by decide)
      · simp at hjson
  case inr =>
    have hjson : "application/json".toList = "application/".toList ++ "json".toList := by decide
    rw [hessence, ← String.toList_inj, String.toList_ofList, hjson, List.append_right_inj,
      suffix_append_iff (by decide)]
    exact or_congr_right ⟨fun ⟨p, hp⟩ => ⟨p, hp.symm⟩, fun ⟨p, hp⟩ => ⟨p, hp.symm⟩⟩

end Essence

-- A media type says that a body is JSON if it looks like it, is well-formed, is for applications and has a suffix
-- with something in front of it.
theorem isJson_iff {t : String} :
    isJson t ↔ isNearlyJson t ∧ IsApplication t ∧ (subtype t).map Char.toLower ≠ "+json".toList := by
  have hparts : isJson t ↔ IsApplication t ∧ isJsonSubtype ((subtype t).map Char.toLower) := by
    rw [isJson]
    simp only [Bool.and_eq_true, decide_eq_true_eq, List.all_eq_true]
    constructor
    · rintro ⟨⟨⟨htype, hsubtype⟩, hjson⟩, hparameters⟩
      exact ⟨⟨htype, hsubtype, hparameters⟩, hjson⟩
    · rintro ⟨⟨htype, hsubtype, hparameters⟩, hjson⟩
      exact ⟨⟨⟨htype, hsubtype⟩, hjson⟩, hparameters⟩
  rw [hparts, isJsonSubtype_iff]
  constructor
  · rintro ⟨happlication, hjson⟩
    rw [isNearlyJson_iff happlication]
    rcases hjson with hjson | ⟨p, hp, hjson⟩
    · exact ⟨.inl hjson, happlication, by rw [hjson]; decide⟩
    · refine ⟨.inr ⟨p, hjson⟩, happlication, fun heq => hp ?_⟩
      exact List.append_left_eq_self.mp (hjson.symm.trans heq)
  · rintro ⟨hnearly, happlication, hne⟩
    refine ⟨happlication, ((isNearlyJson_iff happlication).mp hnearly).imp_right ?_⟩
    rintro ⟨p, hjson⟩
    refine ⟨p, ?_, hjson⟩
    rintro rfl
    exact hne hjson

end MediaCatalog.Http.MediaType
