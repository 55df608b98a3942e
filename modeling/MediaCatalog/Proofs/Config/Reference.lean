import MediaCatalog.Config
import MediaCatalog.Proofs.Except
import Mathlib.Data.List.TakeWhile

namespace MediaCatalog.Config

-- A letter or an underscore, and behind it letters, digits and underscores.
def IsName (name : List Char) : Prop :=
  ∃ c cs, name = c :: cs ∧ startsName c ∧ ∀ d ∈ cs, Text.isWord d

namespace Reference

-- A reference that is read as it is written: it has a name, and no default holds the closing brace.
structure IsPlain (r : Reference) : Prop where
  name    : IsName r.name.toList
  default : ∀ d, r.default = some d → closing ∉ d.toList

-- What comes in place of a reference: the value of its variable, which may be empty, or else its default.
inductive Gives (env : Environment) (r : Reference) : String → Prop
  | value {v : String} (set : env r.name = some v) : Gives env r v
  | default {d : String} (unset : env r.name = none) (default : r.default = some d) : Gives env r d

-- A reference that nothing comes in place of.
structure Lacks (env : Environment) (r : Reference) : Prop where
  unset   : env r.name = none
  default : r.default = none

end Reference

open Reference

-- Whether a text starts with a reference.
def Opens (cs : List Char) : Prop :=
  ∃ r rest, IsPlain r ∧ cs = r.chars ++ rest

-- What may follow a dollar sign with an opening brace that are not the start of a reference: no name, a name with
-- neither the closing brace nor a default behind it, or a default without an end.
inductive IsMalformed : List Char → Prop
  | unnamed {cs : List Char} (h : ∀ c ∈ cs.head?, startsName c = false) : IsMalformed cs
  | unclosed {name rest : List Char} (named : IsName name) (ends : ∀ c ∈ rest.head?, Text.isWord c = false)
    (unclosed : ¬[closing] <+: rest) (undefaulted : ¬defaultChars <+: rest) : IsMalformed (name ++ rest)
  | endless {name rest : List Char} (named : IsName name) (endless : closing ∉ rest) :
    IsMalformed (name ++ defaultChars ++ rest)

section Reading

variable {cs rest name : List Char} {r : Reference}

theorem isWord_of_startsName {c : Char} (h : startsName c) : Text.isWord c := by
  simp only [startsName, Bool.or_eq_true] at h
  obtain h | h := h <;> simp [Text.isWord, Text.isAsciiAlphanumeric, h]

theorem IsName.isWord (h : IsName name) : ∀ c ∈ name, Text.isWord c := by
  obtain ⟨c, cs, rfl, hc, hcs⟩ := h
  exact List.forall_mem_cons.mpr ⟨isWord_of_startsName hc, hcs⟩

theorem any_startsName_iff (hwords : ∀ c ∈ name, Text.isWord c) : (name.take 1).any startsName ↔ IsName name := by
  cases name with
  | nil => simp [IsName]
  | cons c cs =>
    have hcs := (List.forall_mem_cons.mp hwords).2
    simp only [List.take_succ_cons, List.take_zero, List.any_cons, List.any_nil, Bool.or_false]
    constructor
    · exact fun hstart => ⟨c, cs, rfl, hstart, hcs⟩
    · rintro ⟨_, _, ⟨⟩, hstart, _⟩
      exact hstart

-- A text that does not start with something else than a name starts with one.
theorem exists_name (h : ¬∀ c ∈ cs.head?, startsName c = false) :
    ∃ name rest, cs = name ++ rest ∧ IsName name ∧ ∀ c ∈ rest.head?, Text.isWord c = false := by
  refine ⟨cs.takeWhile Text.isWord, cs.dropWhile Text.isWord, List.takeWhile_append_dropWhile.symm, ?_,
    fun c hc => ?_⟩
  · cases cs with
    | nil => exact absurd (by simp) h
    | cons c cs =>
      have hstart : startsName c := by simpa using h
      rw [List.takeWhile_cons_of_pos (isWord_of_startsName hstart)]
      exact ⟨c, _, rfl, hstart, fun d hd => List.mem_takeWhile_imp hd⟩
  · have := List.head?_dropWhile_not Text.isWord cs
    rw [hc] at this
    simpa using this

theorem body?_unnamed (h : ∀ c ∈ cs.head?, startsName c = false) : body? cs = none := by
  rw [body?, if_neg]
  cases cs with
  | nil => simp
  | cons c cs =>
    have hc : startsName c = false := h c rfl
    by_cases hword : Text.isWord c
    · simp [List.takeWhile_cons_of_pos hword, hc]
    · simp [List.takeWhile_cons_of_neg hword]

-- Neither a closing brace nor what comes before a default goes on with a name.
theorem isWord_closing (rest : List Char) : ∀ c ∈ (closing :: rest).head?, Text.isWord c = false := by
  rintro c ⟨⟩
  decide

theorem isWord_defaultChars (rest : List Char) : ∀ c ∈ (defaultChars ++ rest).head?, Text.isWord c = false := by
  rintro c ⟨⟩
  decide

section Named

variable (hname : IsName name)

include hname

-- A name ends where something else begins.
theorem body?_name (hends : ∀ c ∈ rest.head?, Text.isWord c = false) :
    (name ++ rest).takeWhile Text.isWord = name ∧ (name ++ rest).dropWhile Text.isWord = rest ∧
      (name.take 1).any startsName := by
  have hrest : rest.takeWhile Text.isWord = [] ∧ rest.dropWhile Text.isWord = rest := by
    cases rest with
    | nil => exact ⟨rfl, rfl⟩
    | cons c rest =>
      have hc : ¬Text.isWord c := Bool.eq_false_iff.mp (hends c rfl)
      exact ⟨List.takeWhile_cons_of_neg hc, List.dropWhile_cons_of_neg hc⟩
  rw [List.takeWhile_append_of_pos hname.isWord, List.dropWhile_append_of_pos hname.isWord, hrest.1, hrest.2,
    List.append_nil]
  exact ⟨rfl, rfl, (any_startsName_iff hname.isWord).mpr hname⟩

theorem body?_closed (rest : List Char) : body? (name ++ closing :: rest) = some (⟨.ofList name, none⟩, rest) := by
  have ⟨htake, hdrop, hstart⟩ := body?_name hname (isWord_closing rest)
  rw [body?, htake, hdrop, if_pos hstart]
  rfl

theorem body?_default {default : List Char} (hdefault : closing ∉ default) (rest : List Char) :
    body? (name ++ (defaultChars ++ (default ++ closing :: rest))) =
      some (⟨.ofList name, some (.ofList default)⟩, rest) := by
  have ⟨htake, hdrop, hstart⟩ := body?_name hname (isWord_defaultChars (default ++ closing :: rest))
  have hne : ∀ c ∈ default, decide (c ≠ closing) := fun c hc => decide_eq_true fun heq => hdefault (heq ▸ hc)
  rw [body?, htake, hdrop, if_pos hstart]
  simp only [defaultChars, List.cons_append, List.nil_append, List.takeWhile_append_of_pos hne,
    List.dropWhile_append_of_pos hne]
  simp

theorem body?_unclosed (hends : ∀ c ∈ rest.head?, Text.isWord c = false) (hunclosed : ¬[closing] <+: rest)
    (hundefaulted : ¬defaultChars <+: rest) : body? (name ++ rest) = none := by
  have ⟨htake, hdrop, hstart⟩ := body?_name hname hends
  rw [body?, htake, hdrop, if_pos hstart]
  split
  case h_1 => exact absurd (List.prefix_append [closing] _) hunclosed
  case h_2 => exact absurd (List.prefix_append defaultChars _) hundefaulted
  case h_3 => rfl

theorem body?_endless (hendless : closing ∉ rest) : body? (name ++ (defaultChars ++ rest)) = none := by
  have ⟨htake, hdrop, hstart⟩ := body?_name hname (isWord_defaultChars rest)
  have hne : ∀ c ∈ rest, decide (c ≠ closing) := fun c hc => decide_eq_true fun heq => hendless (heq ▸ hc)
  rw [body?, htake, hdrop, if_pos hstart]
  simp only [defaultChars, List.cons_append, List.nil_append, List.dropWhile_eq_nil_iff.mpr hne]

end Named

theorem isPlain_of_body? (h : body? cs = some (r, rest)) : r.IsPlain := by
  simp only [body?] at h
  split at h
  case isFalse => cases h
  case isTrue hname =>
    have hwords : ∀ c ∈ cs.takeWhile Text.isWord, Text.isWord c := fun _ => List.mem_takeWhile_imp
    rw [any_startsName_iff hwords] at hname
    split at h
    case h_1 =>
      cases h
      exact ⟨by rwa [String.toList_ofList], fun d hd => by cases hd⟩
    case h_2 after =>
      split at h
      case h_1 =>
        cases h
        refine ⟨by rwa [String.toList_ofList], ?_⟩
        rintro _ ⟨⟩ hclosing
        rw [String.toList_ofList] at hclosing
        simpa using List.mem_takeWhile_imp hclosing
      case h_2 => cases h
    case h_3 => cases h

-- A reference is read wherever it stands at the start of a text, and no other text starts with one.
theorem reference?_eq_some_iff : reference? cs = some (r, rest) ↔ r.IsPlain ∧ cs = r.chars ++ rest := by
  constructor
  · intro h
    refine ⟨?_, reference?_eq_some h⟩
    unfold reference? at h
    split at h
    case h_1 => exact isPlain_of_body? h
    case h_2 => cases h
  · rintro ⟨⟨hname, hdefault⟩, rfl⟩
    obtain ⟨name, default⟩ := r
    cases default with
    | none =>
      have h := body?_closed hname rest
      rw [String.ofList_toList] at h
      simpa [Reference.chars, openChars, reference?] using h
    | some d =>
      have h := body?_default hname (hdefault d rfl) rest
      rw [String.ofList_toList, String.ofList_toList] at h
      simpa [Reference.chars, openChars, reference?, defaultChars] using h

theorem opens_iff : Opens cs ↔ reference? cs ≠ none := by
  simp only [Opens, ← reference?_eq_some_iff, Option.ne_none_iff_exists', Prod.exists]

-- What is malformed is just what no reference can be read from.
theorem isMalformed_iff : IsMalformed cs ↔ ¬Opens (openChars ++ cs) := by
  have hbody : reference? (openChars ++ cs) = body? cs := rfl
  rw [opens_iff, not_not, hbody]
  constructor
  · rintro (hunnamed | ⟨hname, hends, hunclosed, hundefaulted⟩ | ⟨hname, hendless⟩)
    · exact body?_unnamed hunnamed
    · exact body?_unclosed hname hends hunclosed hundefaulted
    · rw [List.append_assoc]
      exact body?_endless hname hendless
  · intro h
    by_cases hunnamed : ∀ c ∈ cs.head?, startsName c = false
    case pos => exact .unnamed hunnamed
    case neg =>
      obtain ⟨name, rest, rfl, hname, hends⟩ := exists_name hunnamed
      by_cases hclosed : [closing] <+: rest
      case pos =>
        obtain ⟨rest, rfl⟩ := hclosed
        cases h.symm.trans (body?_closed hname rest)
      case neg =>
        by_cases hdefaulted : defaultChars <+: rest
        case neg => exact .unclosed hname hends hclosed hdefaulted
        case pos =>
          obtain ⟨rest, rfl⟩ := hdefaulted
          by_cases hended : closing ∈ rest
          case neg =>
            rw [← List.append_assoc]
            exact .endless hname hended
          case pos =>
            obtain ⟨default, rest, rfl, hdefault⟩ := List.eq_append_cons_of_mem hended
            cases h.symm.trans (body?_default hname hdefault rest)

end Reading

section Values

variable {env : Environment} {r : Reference}

theorem value_eq_ok {v : String} : r.value env = .ok v ↔ r.Gives env v := by
  rw [Reference.value]
  cases hset : env r.name with
  | some w =>
    constructor
    · rintro ⟨⟩
      exact .value hset
    · rintro (⟨hv⟩ | ⟨hunset, _⟩)
      · cases hset.symm.trans hv
        rfl
      · cases hset.symm.trans hunset
  | none =>
    cases hdefault : r.default with
    | some w =>
      constructor
      · rintro ⟨⟩
        exact .default hset hdefault
      · rintro (⟨hv⟩ | ⟨_, hv⟩)
        · cases hset.symm.trans hv
        · cases hdefault.symm.trans hv
          rfl
    | none =>
      refine iff_of_false nofun ?_
      rintro (⟨hv⟩ | ⟨_, hv⟩)
      · cases hset.symm.trans hv
      · cases hdefault.symm.trans hv

theorem value_eq_error {name : String} : r.value env = .error name ↔ r.Lacks env ∧ r.name = name := by
  rw [Reference.value]
  cases hset : env r.name with
  | some w => exact iff_of_false nofun fun h => by cases hset.symm.trans h.1.unset
  | none =>
    cases hdefault : r.default with
    | some w => exact iff_of_false nofun fun h => by cases hdefault.symm.trans h.1.default
    | none =>
      constructor
      · rintro ⟨⟩
        exact ⟨⟨hset, hdefault⟩, rfl⟩
      · rintro ⟨_, rfl⟩
        rfl

theorem exists_gives_iff : (∃ value, r.Gives env value) ↔ ¬r.Lacks env := by
  simp only [← value_eq_ok]
  cases h : r.value env with
  | ok value => exact iff_of_true ⟨value, rfl⟩ fun hlacks => by cases h.symm.trans (value_eq_error.mpr ⟨hlacks, rfl⟩)
  | error name => exact iff_of_false nofun (not_not.mpr (value_eq_error.mp h).1)

end Values

end MediaCatalog.Config
