import MediaCatalog.Proofs.Language
import MediaCatalog.Proofs.Query.Parameters
import MediaCatalog.Proofs.Query.Spelling
import MediaCatalog.Proofs.Text.LowerCase

namespace MediaCatalog

theorem Text.IsAscii.of_alphanumeric {s : String} (h : ∀ c ∈ s.toList, isAsciiAlphanumeric c) : IsAscii s := by
  intro c hc
  have htag : LanguageTag.isTagChar c := by rw [LanguageTag.isTagChar, h c hc, Bool.true_or]
  obtain ((h | h) | h) | rfl := LanguageTag.isTagChar_iff.mp htag
  case inr => decide
  all_goals omega

namespace Query

theorem alphanumeric_language : ∀ c ∈ "language".toList, Text.isAsciiAlphanumeric c :=
  List.all_eq_true.mp (by decide)

section Case

variable {name value field : String}

-- A name that is a word in any ASCII case.
theorem normalize_of_asciiLower (hf : ∀ c ∈ field.toList, Text.isAsciiAlphanumeric c)
    (h : Text.asciiLower name = field) : normalize name value = (field, value) := by
  subst h
  have hname : ∀ c ∈ name.toList, Text.isAsciiAlphanumeric c := by
    intro c hc
    cases hu : c.isUpper with
    | true => exact LanguageTag.isAsciiAlphanumeric_of_isUpper hu
    | false =>
      rw [← LanguageTag.toLower_eq_self hu]
      exact hf _ (by rw [Text.asciiLower, String.toList_ofList]; exact List.mem_map_of_mem hc)
  have hword : ∀ c ∈ name.toList, Text.isWord c := fun c hc => by rw [Text.isWord, hname c hc, Bool.true_or]
  rw [normalize_word hword, Text.lower_of_isAscii (.of_alphanumeric hname)]

theorem asciiLower_of_normalize (h : normalize name value = ("language", value)) :
    Text.asciiLower name = "language" :=
  Text.asciiLower_eq_of_lower_eq (lower_of_normalize h) (.of_alphanumeric alphanumeric_language) (by decide)

end Case

variable {pairs : List (String × String)}

theorem normalize_language {p : String × String} (h : Text.asciiLower p.1 = "language") :
    normalize p.1 p.2 = ("language", p.2) :=
  normalize_of_asciiLower alphanumeric_language h

-- What an entry is fetched by is among what a search looks at.
theorem mem_given_of_firstLanguage {first : String} (h : firstLanguage pairs = some first) :
    first ∈ given (normalized pairs) "language" := by
  obtain ⟨p, hp, rfl⟩ := Option.map_eq_some_iff.mp h
  have hname : Text.asciiLower p.1 = "language" := by simpa using List.find?_some hp
  have hmem : ("language", p.2) ∈ normalized pairs := by
    rw [← normalize_language hname]
    exact List.mem_map_of_mem (List.mem_of_find?_eq_some hp)
  exact List.mem_map.mpr ⟨_, List.mem_filter.mpr ⟨hmem, rfl⟩, rfl⟩

-- Without glued marks it is the first one.
theorem firstLanguage_eq_head? (h : ∀ p ∈ pairs, (normalize p.1 p.2).1 = "language" → (normalize p.1 p.2).2 = p.2) :
    firstLanguage pairs = (given (normalized pairs) "language").head? := by
  induction pairs with
  | nil => rfl
  | cons p pairs ih =>
    have ⟨hp, hpairs⟩ := List.forall_mem_cons.mp h
    have ih := ih hpairs
    rw [firstLanguage, given, normalized] at ih
    rw [firstLanguage, given, normalized, List.map_cons, List.find?_cons, List.filter_cons]
    by_cases hname : (normalize p.1 p.2).1 = "language"
    case pos =>
      have hkept : normalize p.1 p.2 = ("language", p.2) := Prod.ext hname (hp hname)
      simp [hkept, asciiLower_of_normalize hkept]
    case neg =>
      have hother : Text.asciiLower p.1 ≠ "language" := fun heq =>
        hname (congrArg Prod.fst (normalize_language heq))
      simpa [hname, hother] using ih

end Query

namespace Language

-- A text can be no language only for what it is itself.
theorem read_cases (s : String) :
    (∃ l, read s = .ok l) ∨ read s = .error (.languageTag (Text.trim s)) := by
  rw [read]
  split
  case isTrue => exact .inl ⟨_, rfl⟩
  case isFalse =>
    split
    case isTrue => exact .inl ⟨_, rfl⟩
    case isFalse => exact .inr rfl

-- Texts that are answered alike are read alike.
theorem read_eq_of_mapError {s t : String} (h : (read s).mapError Refusal.fault = (read t).mapError Refusal.fault) :
    read s = read t := by
  obtain ⟨l, hs⟩ | hs := read_cases s <;> obtain ⟨m, ht⟩ | ht := read_cases t <;> rw [hs, ht] at h ⊢
  all_goals simp only [Except.mapError, Except.ok.injEq, Except.error.injEq, reduceCtorEq] at h
  case inl.inl => rw [h]
  case inr.inr =>
    have htext := (String.append_right_inj "Invalid language tag: ").mp (Fault.badRequest.inj h)
    rw [htext]

end Language

namespace Service

open Http Query

theorem language_some (settings : Settings) (r : Request) (s : String) :
    language settings r (some s) = (Language.read s).mapError Refusal.fault :=
  rfl

theorem language_default (settings : Settings) {r : Request} (h : r.headers = []) :
    language settings r none = (Language.read settings.defaultLanguage).mapError Refusal.fault := by
  rw [language, Request.readable?, Request.header?, h]
  rfl

-- For the same parameters a search and the fetching of an entry go by one language, whatever the headers are and
-- whatever the default is, if and only if no parameter names the language, or the first one that names nothing else
-- and the last one with its mark are read alike, be it as a language or as none. One parameter without a mark is
-- enough.
theorem language_alike_iff {pairs : List (String × String)} {q : Query} (hq : Query.ofPairs pairs = .ok q) :
    ((∀ (settings : Settings) (r : Request),
        language settings r q.language = language settings r (firstLanguage pairs)) ↔
      q.language = none ∨ ∃ first last, firstLanguage pairs = some first ∧ q.language = some last ∧
        Language.read first = Language.read last) ∧
    ((given (normalized pairs) "language").length ≤ 1 →
      (∀ p ∈ pairs, (normalize p.1 p.2).1 = "language" → (normalize p.1 p.2).2 = p.2) →
      ∀ (settings : Settings) (r : Request),
        language settings r q.language = language settings r (firstLanguage pairs)) := by
  have hlast : q.language = (given (normalized pairs) "language").getLast? := (gathers_ofPairs hq).language
  refine ⟨⟨fun hall => ?alike, ?condition⟩, fun hone hkept settings r => ?plain⟩
  case alike =>
    cases hl : q.language with
    | none => exact .inl rfl
    | some last =>
      rw [hl] at hall
      cases hf : firstLanguage pairs with
      | some first =>
        have hsame := hall Settings.standard ⟨"GET", "/", [], ""⟩
        rw [hf, language_some, language_some] at hsame
        exact .inr ⟨first, last, rfl, rfl, (Language.read_eq_of_mapError hsame).symm⟩
      | none =>
        -- One text would be read as two defaults.
        have hdefault (default : String) := hall ⟨⟨20, 100, false⟩, default⟩ ⟨"GET", "/", [], ""⟩
        simp only [hf, language_some, language_default _ (r := ⟨"GET", "/", [], ""⟩) rfl] at hdefault
        have htwo := (hdefault "en").symm.trans (hdefault "de")
        exact absurd htwo (by decide)
  case condition =>
    rintro (hnone | ⟨first, last, hf, hl, hread⟩) settings r
    · have hfirst : firstLanguage pairs = none := by
        by_contra hne
        obtain ⟨first, hf⟩ := Option.ne_none_iff_exists'.mp hne
        have hmem := mem_given_of_firstLanguage hf
        rw [hlast, List.getLast?_eq_none_iff] at hnone
        rw [hnone] at hmem
        cases hmem
      rw [hnone, hfirst]
    · rw [hf, hl, language_some, language_some, hread]
  case plain =>
    rw [hlast, firstLanguage_eq_head? hkept]
    generalize given (normalized pairs) "language" = values at hone
    match values with
    | []          => rfl
    | [_]         => rfl
    | _ :: _ :: _ => simp at hone

-- The language is named twice, in two cases and with blanks, but it is the same one.
theorem language_alike_iff_blank :
    let pairs := [("LANGUAGE", "en"), ("name!", "Up"), ("language", " en ")]
    let r : Request := ⟨"GET", "/", [("accept-language", "fr")], ""⟩
    ∃ q, Query.ofPairs pairs = .ok q ∧ q.language = some " en " ∧ firstLanguage pairs = some "en" ∧
      language Settings.standard r q.language = language Settings.standard r (firstLanguage pairs) := by
  intro pairs r
  obtain ⟨q, hq⟩ : ∃ q, Query.ofPairs pairs = .ok q := exists_ofPairs_iff.mpr ⟨by decide, by decide⟩
  have hlast : q.language = some " en " := (gathers_ofPairs hq).language
  have hfirst : firstLanguage pairs = some "en" := by decide
  have hread : Language.read "en" = Language.read " en " := by decide
  have halike := (language_alike_iff hq).1.mpr (.inr ⟨_, _, hfirst, hlast, hread⟩)
  exact ⟨q, hq, hlast, hfirst, halike Settings.standard r⟩

-- With two languages a search is in the last one, and an entry is fetched in the first one. With a mark glued to the
-- name a search is refused, and an entry is fetched in the default language.
theorem language_differs :
    let twice : Request := ⟨"GET", "/api/v1/movies?language=en&language=de", [], ""⟩
    let glued : Request := ⟨"GET", "/api/v1/movies?language!=en", [], ""⟩
    (∃ q, Query.ofPairs twice.parameters = .ok q ∧
      language Settings.standard twice q.language = .ok (.tag "de") ∧
      language Settings.standard twice (firstLanguage twice.parameters) = .ok (.tag "en")) ∧
    ∃ q, Query.ofPairs glued.parameters = .ok q ∧
      language Settings.standard glued q.language = .error (.badRequest "Invalid language tag: !en") ∧
      language Settings.standard glued (firstLanguage glued.parameters) = .ok (.tag "en-US") := by
  intro twice glued
  have htwice : twice.parameters = [("language", "en"), ("language", "de")] := by decide +kernel
  have hglued : glued.parameters = [("language!", "en")] := by decide +kernel
  rw [htwice, hglued]
  exact ⟨⟨_, rfl, by decide, by decide⟩, _, rfl, by decide, by decide⟩

end Service

end MediaCatalog
