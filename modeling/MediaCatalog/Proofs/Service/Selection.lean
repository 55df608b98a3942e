import MediaCatalog.Proofs.Service.Language
import MediaCatalog.Proofs.Service.Paging

namespace MediaCatalog

open Http

namespace Text

-- What stands in front of the first separator, or all of a text without one.
def IsFront (sep : Char) (s front : String) : Prop :=
  sep ∉ front.toList ∧ (s = front ∨ ∃ rest, s = front ++ .singleton sep ++ rest)

theorem isFront_iff {sep : Char} {s front : String} : IsFront sep s front ↔ before sep s = front := by
  constructor
  · rintro ⟨hfront, rfl | ⟨rest, rfl⟩⟩
    · exact congrArg Prod.fst (cut_of_not_mem hfront)
    · exact congrArg Prod.fst (cut_append hfront)
  · rintro rfl
    have hparts : s.toList = (before sep s).toList ++ s.toList.dropWhile (· ≠ sep) := by
      rw [before, String.toList_ofList, List.takeWhile_append_dropWhile]
    refine ⟨fun hmem => ?_, ?_⟩
    · rw [before, String.toList_ofList] at hmem
      simpa using List.mem_takeWhile_imp hmem
    · cases hrest : s.toList.dropWhile (· ≠ sep) with
      | nil =>
        rw [hrest, List.append_nil] at hparts
        exact .inl (String.toList_inj.mp hparts)
      | cons c rest =>
        have hc : c = sep := by
          have := List.head?_dropWhile_not (· ≠ sep) s.toList
          rw [hrest] at this
          simpa using this
        refine .inr ⟨.ofList rest, String.toList_inj.mp ?_⟩
        rw [hparts, hrest, hc]
        simp

end Text

namespace Language

-- The texts that name a language, or all of them.
inductive Names : String → Language → Prop
  | any : Names "*" any
  | tag {t : String} (valid : LanguageTag.isValid t) : Names t (tag t)

-- What the first range of a list of accepted languages names, without its weight and the blanks around it.
inductive Prefers (accepted : String) (l : Language) : Prop
  | intro {range weightless : String} (first : Text.IsFront ',' accepted range)
    (front : Text.IsFront ';' range weightless) (names : Names (Text.trim weightless) l)

variable {s : String} {l : Language}

theorem not_isValid_any : LanguageTag.isValid any.text = false := by
  decide

theorem read_eq_ok : read s = .ok l ↔ Names (Text.trim s) l := by
  rw [read]
  generalize Text.trim s = t
  split
  case isTrue ht =>
    subst ht
    constructor
    · rintro ⟨⟩
      exact .any
    · rintro (_ | hvalid)
      · rfl
      · rw [not_isValid_any] at hvalid
        cases hvalid
  case isFalse ht =>
    split
    case isTrue hvalid =>
      constructor
      · rintro ⟨⟩
        exact .tag hvalid
      · rintro (_ | _)
        · exact absurd rfl ht
        · rfl
    case isFalse hvalid =>
      refine iff_of_false (fun herror => by cases herror) ?_
      rintro (_ | h)
      · exact ht rfl
      · exact hvalid h

theorem not_names : (∀ l, ¬Names (Text.trim s) l) ↔ read s = .error (.languageTag (Text.trim s)) := by
  simp only [← read_eq_ok]
  obtain ⟨l, hl⟩ | herror := read_cases s
  · exact iff_of_false (fun h => h l hl) (by rw [hl]; nofun)
  · exact iff_of_true (fun l => by rw [herror]; nofun) herror

theorem preferred?_eq_some {accepted : String} : preferred? accepted = some l ↔ Prefers accepted l := by
  rw [preferred?, Except.toOption_eq_some, read_eq_ok]
  constructor
  · exact .intro (Text.isFront_iff.mpr rfl) (Text.isFront_iff.mpr rfl)
  · rintro ⟨hitem, hfront, hnames⟩
    rwa [Text.isFront_iff.mp hitem, Text.isFront_iff.mp hfront]

-- A language is read back from its own text.
theorem Names.read_text (h : Names s l) : read l.text = .ok l := by
  cases h with
  | any =>
    have htrim : Text.trim Language.any.text = "*" := by decide
    rw [read_eq_ok, htrim]
    exact .any
  | tag hvalid => exact read_of_isValid hvalid

end Language

namespace Http.Request

variable (r : Request) (name : String)

-- The values of the headers of a name, in their order.
def values : List String :=
  (r.headers.filter fun h => Text.asciiLower h.1 = name).map (·.2)

theorem readable?_eq : r.readable? name = (r.values name).head?.filter isReadable := by
  rw [readable?, header?, values, List.head?_map, List.head?_filter]

-- Letters, digits and hyphens can be read.
theorem isReadable_of_isValid {t : String} (h : LanguageTag.isValid t) : isReadable t := by
  refine List.all_eq_true.mpr fun c hc => ?_
  simp only [Bool.or_eq_true, Bool.and_eq_true, decide_eq_true_eq, beq_iff_eq]
  obtain ((h | h) | h) | rfl := LanguageTag.isTagChar_iff.mp (LanguageTag.isTagChar_of_isValid h hc)
  case inr => decide
  all_goals exact .inl (by omega)

end Http.Request

namespace Run

variable {σ α β : Type} {x : σ} {b : β}

-- What cannot touch a state leaves it to what comes next.
theorem outcome_ofExcept_bind {e : Except Fault α} {f : α → Run σ β} :
    ((liftM e : Run σ α) >>= f).outcome x = .ok b ↔ ∃ a, e = .ok a ∧ (f a).outcome x = .ok b := by
  cases e with
  | error => exact iff_of_false nofun nofun
  | ok a =>
    constructor
    · exact fun h => ⟨a, rfl, h⟩
    · rintro ⟨_, ⟨⟩, h⟩
      exact h

end Run

namespace Service

-- The language that is selected by a parameter, if there is one, or by the values of a header and a default.
inductive Selects (values : List String) (default : String) : Option String → Language → Prop
  | parameter {s : String} {l : Language} (names : Language.Names (Text.trim s) l) : Selects values default (some s) l
  | header {value : String} {l : Language} (first : values.head? = some value) (readable : Request.isReadable value)
    (prefers : Language.Prefers value l) : Selects values default none l
  | default (unusable : ∀ value, values.head? = some value → Request.isReadable value →
    ∀ l, ¬Language.Prefers value l) : Selects values default none (.tag default)

-- The language as a header of an answer says it. What no header can say is said by a star.
def announced (l : Language) : String :=
  if Request.isReadable l.text then l.text else Language.any.text

-- An answer with one header that says its language.
def Announces (response : Response) (text : String) : Prop :=
  response.headers.filter (·.1 = "content-language") = [("content-language", text)]

section Selection

variable {settings : Settings} {r : Request} {parameter : Option String} {l : Language}

theorem accepted_eq_some : (r.readable? "accept-language").bind Language.preferred? = some l ↔
    ∃ value, (r.values "accept-language").head? = some value ∧ Request.isReadable value ∧ Language.Prefers value l := by
  simp only [Request.readable?_eq, Option.bind_eq_some_iff, Option.filter_eq_some_iff, Language.preferred?_eq_some,
    and_assoc]

theorem choose_eq_ok (hdefault : LanguageTag.isValid settings.defaultLanguage) :
    Language.choose parameter (r.readable? "accept-language") settings.defaultLanguage = .ok l ↔
      Selects (r.values "accept-language") settings.defaultLanguage parameter l := by
  cases parameter with
  | some s =>
    rw [Language.choose, Language.read_eq_ok]
    constructor
    · exact .parameter
    · rintro (hnames | _)
      exact hnames
  | none =>
    rw [Language.choose]
    cases haccepted : (r.readable? "accept-language").bind Language.preferred? with
    | some preferred =>
      obtain ⟨value, hfirst, hreadable, hprefers⟩ := accepted_eq_some.mp haccepted
      constructor
      · rintro ⟨⟩
        exact .header hfirst hreadable hprefers
      · rintro (_ | ⟨hfirst', hreadable', hprefers'⟩ | hunusable)
        · have hsame := accepted_eq_some.mpr ⟨_, hfirst', hreadable', hprefers'⟩
          cases haccepted.symm.trans hsame
          rfl
        · exact absurd hprefers (hunusable value hfirst hreadable preferred)
    | none =>
      have hunusable (l : Language) : (r.readable? "accept-language").bind Language.preferred? ≠ some l := by
        rw [haccepted]
        nofun
      simp only [Language.read_of_isValid hdefault]
      constructor
      · rintro ⟨⟩
        exact .default fun value hfirst hreadable l hprefers =>
          hunusable l (accepted_eq_some.mpr ⟨value, hfirst, hreadable, hprefers⟩)
      · rintro (_ | ⟨hfirst, hreadable, hprefers⟩ | _)
        · exact absurd (accepted_eq_some.mpr ⟨_, hfirst, hreadable, hprefers⟩) (hunusable l)
        · rfl

-- A request selects no language for nothing but its parameter.
theorem choose_eq_error (hdefault : LanguageTag.isValid settings.defaultLanguage) {x : Refusal} :
    Language.choose parameter (r.readable? "accept-language") settings.defaultLanguage = .error x ↔
      ∃ s, parameter = some s ∧ (∀ l, ¬Language.Names (Text.trim s) l) ∧ x = .languageTag (Text.trim s) := by
  cases parameter with
  | some s =>
    rw [Language.choose]
    simp only [Option.some.injEq, exists_eq_left', Language.not_names]
    constructor
    · intro h
      obtain ⟨l, hl⟩ | herror := Language.read_cases s
      · cases hl.symm.trans h
      · cases herror.symm.trans h
        exact ⟨herror, rfl⟩
    · rintro ⟨herror, rfl⟩
      exact herror
  | none =>
    refine iff_of_false (fun h => ?_) nofun
    rw [Language.choose] at h
    split at h
    · cases h
    · rw [Language.read_of_isValid hdefault] at h
      cases h

theorem Selects.names {values : List String} {default : String} (hdefault : LanguageTag.isValid default)
    (h : Selects values default parameter l) : ∃ s, Language.Names s l := by
  cases h with
  | parameter hnames => exact ⟨_, hnames⟩
  | header _ _ hprefers =>
    cases hprefers with
    | intro _ _ hnames => exact ⟨_, hnames⟩
  | default => exact ⟨_, .tag hdefault⟩

-- What is named can be announced, and a single language is not announced as all of them.
theorem announced_of_names {s : String} (h : Language.Names s l) :
    announced l = l.text ∧ (announced l = "*" → l = .any) := by
  cases h with
  | any => exact ⟨by decide, fun _ => rfl⟩
  | tag hvalid =>
    have hkept : announced (.tag s) = s := if_pos (Request.isReadable_of_isValid hvalid)
    refine ⟨hkept, fun hstar => ?_⟩
    rw [← hkept, hstar] at hvalid
    exact absurd hvalid (Bool.eq_false_iff.mp Language.not_isValid_any)

end Selection

section Answers

variable {σ : Type} {c : Catalog σ} {settings : Settings} {kind id : String} {r : Request} {x : σ}
  {response : Response}

-- An answer to a search is a page in the language of the search.
theorem announces_of_search (h : (search c settings kind r).outcome x = .ok response) :
    ∃ k q request l page, Query.ofPairs r.parameters = .ok q ∧ language settings r q.language = .ok l ∧
      (c.findPage k q.filter l request).outcome x = .ok page ∧ Announces response l.text := by
  rw [search] at h
  obtain ⟨k, -, h⟩ := Run.outcome_ofExcept_bind.mp h
  obtain ⟨q, hq, h⟩ := Run.outcome_ofExcept_bind.mp h
  obtain ⟨request, -, h⟩ := Run.outcome_ofExcept_bind.mp h
  obtain ⟨l, hl, h⟩ := Run.outcome_ofExcept_bind.mp h
  obtain ⟨page, _, hpage, h⟩ := Run.outcome_bind_eq_ok h
  cases h
  exact ⟨k, q, request, l, page, Except.mapError_eq_ok.mp hq, hl, hpage, rfl⟩

-- An answer to the fetching of an entry has it in the language that it is fetched in.
theorem announces_of_fetch (h : (fetch c settings kind id r).outcome x = .ok response) :
    ∃ k number l e, language settings r (Query.firstLanguage r.parameters) = .ok l ∧
      (c.findEntry k l number).outcome x = .ok (some e) ∧ Announces response l.text := by
  rw [fetch] at h
  obtain ⟨k, -, h⟩ := Run.outcome_ofExcept_bind.mp h
  split at h
  case h_1 number _ =>
    obtain ⟨l, hl, h⟩ := Run.outcome_ofExcept_bind.mp h
    obtain ⟨found, _, hfound, h⟩ := Run.outcome_bind_eq_ok h
    cases found with
    | some e =>
      cases h
      exact ⟨k, number, l, e, hl, hfound, rfl⟩
    | none => cases h
  case h_2 => cases h

end Answers

-- A request selects a language unless its parameter, without the blanks around it, names none: the language of the
-- parameter, or else that of the first range of the first header, if it can be read and names one, or else the
-- default, which a sound configuration has. What is selected is read back from its own text, and just this text is
-- announced by the answers that are restricted to it; so a star announces all languages and never a single one.
theorem language_iff_selects {config : Config} (h : config.check = .ok ()) (r : Request) (parameter : Option String) :
    let settings := config.settings
    (∀ l, language settings r parameter = .ok l ↔
      Selects (r.values "accept-language") settings.defaultLanguage parameter l) ∧
    (∀ x, language settings r parameter = .error x ↔ ∃ s, parameter = some s ∧
      (∀ l, ¬Language.Names (Text.trim s) l) ∧ x = (Refusal.languageTag (Text.trim s)).fault) ∧
    (∀ l, language settings r parameter = .ok l →
      Language.read l.text = .ok l ∧ announced l = l.text ∧ (announced l = "*" → l = .any)) ∧
    ∀ {σ : Type} (c : Catalog σ) (x : σ) (kind id : String) (response : Response),
      ((search c settings kind r).outcome x = .ok response → ∃ k q request l page,
        Query.ofPairs r.parameters = .ok q ∧ language settings r q.language = .ok l ∧
        (c.findPage k q.filter l request).outcome x = .ok page ∧ Announces response (announced l)) ∧
      ((fetch c settings kind id r).outcome x = .ok response → ∃ k number l e,
        language settings r (Query.firstLanguage r.parameters) = .ok l ∧
        (c.findEntry k l number).outcome x = .ok (some e) ∧ Announces response (announced l)) := by
  intro settings
  have ⟨_, _, _, hdefault⟩ := Config.check_eq_ok.mp h
  have hselects (parameter : Option String) (l : Language) : language settings r parameter = .ok l ↔
      Selects (r.values "accept-language") settings.defaultLanguage parameter l :=
    Except.mapError_eq_ok.trans (choose_eq_ok hdefault)
  have hnames {parameter : Option String} {l : Language} (hl : language settings r parameter = .ok l) :
      ∃ s, Language.Names s l :=
    ((hselects parameter l).mp hl).names hdefault
  refine ⟨hselects parameter, fun x => ?refused, fun l hl => ?announced, fun c x kind id response => ⟨?search, ?fetch⟩⟩
  case refused =>
    rw [language, Except.mapError_eq_error]
    constructor
    · rintro ⟨_, hrefusal, rfl⟩
      obtain ⟨s, hs, hnot, rfl⟩ := (choose_eq_error hdefault).mp hrefusal
      exact ⟨s, hs, hnot, rfl⟩
    · rintro ⟨s, hs, hnot, rfl⟩
      exact ⟨_, (choose_eq_error hdefault).mpr ⟨s, hs, hnot, rfl⟩, rfl⟩
  case announced =>
    obtain ⟨s, hs⟩ := hnames hl
    exact ⟨hs.read_text, announced_of_names hs⟩
  case search =>
    intro hresponse
    obtain ⟨k, q, request, l, page, hq, hl, hpage, hsays⟩ := announces_of_search hresponse
    obtain ⟨s, hs⟩ := hnames hl
    exact ⟨k, q, request, l, page, hq, hl, hpage, (announced_of_names hs).1 ▸ hsays⟩
  case fetch =>
    intro hresponse
    obtain ⟨k, number, l, e, hl, hfound, hsays⟩ := announces_of_fetch hresponse
    obtain ⟨s, hs⟩ := hnames hl
    exact ⟨k, number, l, e, hl, hfound, (announced_of_names hs).1 ▸ hsays⟩

-- The first header has a weight and a second range, and there is another header behind it.
theorem language_iff_selects_range :
    let r : Request := ⟨"GET", "/api/v1/movies", [("Accept-Language", " fr-CA ;q=0.9, en;q=0.5"),
      ("accept-language", "es")], ""⟩
    Config.standard.check = .ok () ∧ language Config.standard.settings r none = .ok (.tag "fr-CA") ∧
      Language.read "fr-CA" = .ok (.tag "fr-CA") ∧ announced (.tag "fr-CA") = "fr-CA" := by
  intro r
  have hcheck : Config.standard.check = .ok () := by decide
  obtain ⟨hselects, _, hannounced, _⟩ := language_iff_selects hcheck r none
  have hfirst : Text.IsFront ',' " fr-CA ;q=0.9, en;q=0.5" " fr-CA ;q=0.9" := Text.isFront_iff.mpr (by decide)
  have hfront : Text.IsFront ';' " fr-CA ;q=0.9" " fr-CA " := Text.isFront_iff.mpr (by decide)
  have hnames : Language.Names (Text.trim " fr-CA ") (.tag "fr-CA") := by
    have htrim : Text.trim " fr-CA " = "fr-CA" := by decide
    rw [htrim]
    exact .tag (by decide)
  have hl := (hselects (.tag "fr-CA")).mpr (.header rfl (by decide) ⟨hfirst, hfront, hnames⟩)
  have ⟨hread, hsaid, _⟩ := hannounced _ hl
  exact ⟨hcheck, hl, hread, hsaid⟩

end Service

end MediaCatalog
