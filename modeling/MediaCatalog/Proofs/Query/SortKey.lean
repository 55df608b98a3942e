import MediaCatalog.Proofs.Except
import MediaCatalog.Proofs.Text.LowerCase
import MediaCatalog.Proofs.Text.Split
import MediaCatalog.Query.SortKey

namespace MediaCatalog

namespace Direction

def words : Direction → List String
  | ascending  => ["asc", "ascending"]
  | descending => ["desc", "descending"]

-- A word for the direction, in any case.
def IsSpelled (d : Direction) (word : String) : Prop :=
  Text.asciiLower word ∈ d.words

theorem lower_mem_words {d : Direction} {word : String} : Text.lower word ∈ d.words ↔ d.IsSpelled word := by
  have hplain : ∀ w ∈ d.words, Text.IsAscii w ∧ 'k' ∉ w.toList := by
    cases d <;> decide
  constructor
  · intro h
    have ⟨hascii, hk⟩ := hplain _ h
    rwa [IsSpelled, Text.asciiLower_eq_of_lower_eq rfl hascii hk]
  · intro h
    have ⟨hascii, hk⟩ := hplain _ h
    rwa [(Text.lower_eq_iff hascii hk).mpr rfl]

theorem read?_eq_some {d : Direction} {word : String} : read? word = some d ↔ d.IsSpelled word := by
  rw [← lower_mem_words, read?]
  split <;> cases d <;> simp_all [words]

end Direction

namespace SortKey

-- The pieces of a parameter between its commas, without the blanks around them.
def parts (parameter : String) : List String :=
  (Text.split ',' parameter).map Text.trim

-- The key that a parameter in order asks for.
inductive Asks (parameter : String) : SortKey → Prop
  | plain {name : String} (parts : parts parameter = [name]) (named : name ≠ "") :
    Asks parameter ⟨Text.lower name, .ascending⟩
  | directed {name word : String} {d : Direction} (parts : parts parameter = [name, word]) (named : name ≠ "")
    (spelled : d.IsSpelled word) : Asks parameter ⟨Text.lower name, d⟩

-- What is wrong with a parameter: it has no name, or else an unknown word for the direction, or else a part too many.
inductive Offends (parameter : String) : Fault → Prop
  | unnamed {rest : List String} (parts : parts parameter = "" :: rest) :
    Offends parameter (.invalidSortField parameter)
  | misdirected {name word : String} {rest : List String} (parts : parts parameter = name :: word :: rest)
    (named : name ≠ "") (unspelled : ∀ d : Direction, ¬d.IsSpelled word) :
    Offends parameter (Refusal.sortDirection word).fault
  | overlong {name word extra : String} {rest : List String} {d : Direction}
    (parts : parts parameter = name :: word :: extra :: rest) (named : name ≠ "") (spelled : d.IsSpelled word) :
    Offends parameter (Refusal.sortParameter parameter).fault

variable {parameter : String} {k : SortKey} {x : Fault}

theorem asks_or_offends (parameter : String) : (∃ k, Asks parameter k) ∨ ∃ x, Offends parameter x := by
  cases hp : parts parameter with
  | nil => simp [parts, Text.split, Text.split.pieces_ne_nil] at hp
  | cons name rest =>
    by_cases hn : name = ""
    case pos => exact .inr ⟨_, .unnamed (hn ▸ hp)⟩
    case neg =>
      cases rest with
      | nil => exact .inl ⟨_, .plain hp hn⟩
      | cons word rest =>
        by_cases hd : ∃ d : Direction, d.IsSpelled word
        case neg => exact .inr ⟨_, .misdirected hp hn (not_exists.mp hd)⟩
        case pos =>
          obtain ⟨d, hd⟩ := hd
          cases rest with
          | nil => exact .inl ⟨_, .directed hp hn hd⟩
          | cons => exact .inr ⟨_, .overlong hp hn hd⟩

theorem Asks.read_eq (h : Asks parameter k) : read parameter = .ok k := by
  rw [read]
  cases h with
  | plain hp hn =>
    rw [parts] at hp
    simp [hp, pure, Except.pure]
  | directed hp hn hd =>
    rw [parts] at hp
    simp [hp, Direction.read?_eq_some.mpr hd, pure, Except.pure]

theorem Offends.read_eq (h : Offends parameter x) : read parameter = .error x := by
  rw [read]
  cases h with
  | unnamed hp =>
    rw [parts] at hp
    simp [hp, throw, throwThe, MonadExceptOf.throw]
  | misdirected hp hn hd =>
    rw [parts] at hp
    have hnone := Option.eq_none_iff_forall_ne_some.mpr fun d h => hd d (Direction.read?_eq_some.mp h)
    simp [hp, hnone, throw, throwThe, MonadExceptOf.throw]
  | overlong hp hn hd =>
    rw [parts] at hp
    simp [hp, Direction.read?_eq_some.mpr hd, throw, throwThe, MonadExceptOf.throw]

theorem read_eq_ok : read parameter = .ok k ↔ Asks parameter k := by
  refine ⟨fun h => ?_, Asks.read_eq⟩
  obtain ⟨k', hk⟩ | ⟨x, hx⟩ := asks_or_offends parameter
  · cases hk.read_eq.symm.trans h
    exact hk
  · cases hx.read_eq.symm.trans h

theorem read_eq_error : read parameter = .error x ↔ Offends parameter x := by
  refine ⟨fun h => ?_, Offends.read_eq⟩
  obtain ⟨k, hk⟩ | ⟨x', hx⟩ := asks_or_offends parameter
  · cases hk.read_eq.symm.trans h
  · cases hx.read_eq.symm.trans h
    exact hx

theorem not_exists_asks : (¬∃ k, Asks parameter k) ↔ ∃ x, Offends parameter x := by
  refine ⟨(asks_or_offends parameter).resolve_left, fun ⟨x, hx⟩ ⟨k, hk⟩ => ?_⟩
  cases hx.read_eq.symm.trans hk.read_eq

-- A name that a key is known by when it is given as a whole parameter.
structure IsWhole (name : String) : Prop where
  named     : name ≠ ""
  undivided : ',' ∉ name.toList
  lower     : Text.lower (Text.trim name) = name

theorem Asks.not_mem_field (h : Asks parameter k) : ',' ∉ k.field.toList := by
  have hpart {name : String} (hname : name ∈ parts parameter) : ',' ∉ (Text.lower name).toList := by
    obtain ⟨piece, hpiece, rfl⟩ := List.mem_map.mp hname
    exact fun hc =>
      Text.not_mem_of_mem_split hpiece (Text.mem_of_mem_trim (Text.mem_of_mem_lower (by decide) hc))
  cases h with
  | plain hp => exact hpart (hp ▸ List.mem_cons_self)
  | directed hp => exact hpart (hp ▸ List.mem_cons_self)

-- A parameter asks for the key of its own name only if all of it is that name.
theorem exists_asks_iff {name : String} : (∃ k, Asks name k ∧ k.field = name) ↔ IsWhole name := by
  constructor
  · rintro ⟨k, hk, hname⟩
    have hcomma : ',' ∉ name.toList := hname ▸ hk.not_mem_field
    have hparts : parts name = [Text.trim name] := by
      rw [parts, Text.split_of_not_mem hcomma, List.map_singleton]
    cases hk with
    | plain hp hn =>
      obtain rfl : Text.trim name = _ := List.singleton_inj.mp (hparts.symm.trans hp)
      exact ⟨fun h => hn (by rw [h]; rfl), hcomma, hname⟩
    | directed hp => simp [hparts] at hp
  · rintro ⟨hn, hcomma, hlower⟩
    have hparts : parts name = [Text.trim name] := by
      rw [parts, Text.split_of_not_mem hcomma, List.map_singleton]
    have htrim : Text.trim name ≠ "" := fun h => hn (by rw [← hlower, h]; rfl)
    exact ⟨_, .plain hparts htrim, hlower⟩

variable {parameters : List String}

theorem exists_readAll : (∃ keys, readAll parameters = .ok keys) ↔ ∀ p ∈ parameters, ∃ k, Asks p k := by
  simp only [readAll, List.exists_mapM_iff, read_eq_ok]

-- The first parameter that is malformed is the one that is told.
theorem readAll_eq_error : readAll parameters = .error x ↔ ∃ before p after,
    parameters = before ++ p :: after ∧ (∀ q ∈ before, ∃ k, Asks q k) ∧ Offends p x := by
  simp only [readAll, List.mapM_eq_error_iff, read_eq_ok, read_eq_error]

end SortKey

end MediaCatalog
