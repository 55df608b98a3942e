import MediaCatalog.Connection
import MediaCatalog.Proofs.Except
import MediaCatalog.Proofs.Text.Affix

namespace MediaCatalog.Connection

open Sql

-- What makes settings a connection.
structure IsSound (c : Connection) : Prop where
  isNamed      : Text.isAllBlank c.url = false
  isPooled     : c.maxConnections ≠ 0
  isRecognized : isRecognized c.dialect c.url = true

-- The schemes of the paths of a dialect.
def schemes : Dialect → List String
  | .sqlite   => [scheme]
  | .postgres => ["postgres://", "postgresql://"]

-- The connection that has its path as its URL.
def normal (c : Connection) : Connection :=
  { c with url := c.path }

section Acceptance

variable {c : Connection} {d : Config.Database}

theorem check_eq_ok : c.check = .ok () ↔ c.IsSound := by
  have hcheck : c.check =
      if Text.isAllBlank c.url then .error .emptyUrl
      else if c.maxConnections = 0 then .error .noConnections
      else if !isRecognized c.dialect c.url then .error (.unrecognizedUrl c.dialect c.url)
      else .ok () := by
    unfold check
    split_ifs <;> rfl
  rw [hcheck]
  constructor
  · intro h
    split_ifs at h with hblank hnone hunknown
    exact ⟨Bool.eq_false_iff.mpr hblank, hnone, by simpa using hunknown⟩
  · rintro ⟨hblank, hnone, hknown⟩
    simp [hblank, hnone, hknown]

theorem ofConfig_eq_ok : ofConfig d = .ok c ↔
    Dialect.ofType? d.type = some c.dialect ∧ c.url = d.url ∧ c.maxConnections = d.maxConnections ∧
      c.timeout = d.connectionTimeout ∧ c.IsSound := by
  rw [ofConfig]
  cases Dialect.ofType? d.type with
  | none => simp
  | some dialect =>
    simp only [Except.bind_eq_ok, Except.pure_eq_ok, Option.some.injEq]
    constructor
    · rintro ⟨_, hcheck, rfl⟩
      exact ⟨rfl, rfl, rfl, rfl, check_eq_ok.mp hcheck⟩
    · rintro ⟨rfl, hurl, hmost, htimeout, hsound⟩
      rw [← hurl, ← hmost, ← htimeout]
      exact ⟨(), check_eq_ok.mpr hsound, rfl⟩

end Acceptance

-- The paths of SQLite databases. There is but one for the database in memory.
inductive IsPath : String → Prop
  | memory : IsPath "sqlite::memory:"
  | file {rest : String} (h : scheme ++ rest ∉ memoryUrls) : IsPath (scheme ++ rest)

-- Two URLs of which the first one is the second one with the scheme that it lacks.
structure AddsScheme (u v : String) : Prop where
  eq    : u = scheme ++ v
  lacks : Text.startsWith scheme v = false

section Urls

variable {u : String}

theorem eq_of_mem_memoryUrls (h : u ∈ memoryUrls) (hlacks : Text.startsWith scheme u = false) : u = ":memory:" := by
  simp only [memoryUrls, List.mem_cons, List.not_mem_nil, or_false] at h
  rcases h with rfl | rfl | rfl
  case inl => rfl
  case inr.inl => cases hlacks
  case inr.inr => cases hlacks

-- With the scheme in front a URL means the database in memory only if it has meant it before, or if it is one that is
-- not accepted.
theorem scheme_append_not_mem (hknown : isRecognized .sqlite u = true) (h : u ∉ memoryUrls) :
    scheme ++ u ∉ memoryUrls := by
  intro hmem
  simp only [memoryUrls, List.mem_cons, List.not_mem_nil, or_false] at hmem
  rcases hmem with hmem | hmem | hmem
  case inl =>
    have hchars := congrArg String.toList hmem
    rw [String.toList_append] at hchars
    simp [scheme] at hchars
  case inr.inl =>
    have hu : u = ":memory:" := (String.append_right_inj scheme).mp hmem
    exact h (hu ▸ List.mem_cons_self)
  case inr.inr =>
    have hu : u = "//:memory:" := (String.append_right_inj scheme).mp hmem
    rw [hu] at hknown
    cases hknown

end Urls

section Paths

variable {c : Connection}

theorem isMemory_iff : c.isMemory = true ↔ c.url ∈ memoryUrls :=
  List.contains_iff_mem

@[simp]
theorem url_normal : c.normal.url = c.path :=
  rfl

@[simp]
theorem dialect_normal : c.normal.dialect = c.dialect :=
  rfl

theorem path_postgres (h : c.dialect = .postgres) : c.path = c.url := by
  rw [path, h]

section

variable (h : c.dialect = .sqlite)

include h

theorem path_of_isMemory (hm : c.isMemory = true) : c.path = "sqlite::memory:" := by
  rw [path, h]
  exact if_pos hm

theorem path_of_startsWith (hm : c.isMemory = false) (hhas : Text.startsWith scheme c.url = true) : c.path = c.url := by
  rw [path, h]
  simp [hm, hhas]

theorem path_of_lacks (hlacks : Text.startsWith scheme c.url = false) : c.path = scheme ++ c.url := by
  cases hm : c.isMemory with
  | true =>
    rw [path_of_isMemory h hm, eq_of_mem_memoryUrls (isMemory_iff.mp hm) hlacks]
    rfl
  | false =>
    rw [path, h]
    simp [hm, hlacks]

theorem path_of_not_isMemory (hm : c.isMemory = false) : c.path = c.url ∨ AddsScheme c.path c.url := by
  cases hhas : Text.startsWith scheme c.url with
  | true => exact .inl (path_of_startsWith h hm hhas)
  | false => exact .inr ⟨path_of_lacks h hhas, hhas⟩

theorem exists_path_eq : ∃ rest, c.path = scheme ++ rest := by
  cases hm : c.isMemory with
  | true => exact ⟨":memory:", path_of_isMemory h hm⟩
  | false =>
    cases hhas : Text.startsWith scheme c.url with
    | true => exact path_of_startsWith h hm hhas ▸ Text.exists_of_startsWith hhas
    | false => exact ⟨c.url, path_of_lacks h hhas⟩

-- A path is the path of itself.
theorem path_of_isPath (hp : IsPath c.url) : c.path = c.url := by
  generalize hurl : c.url = url at hp
  cases hp with
  | memory => exact path_of_isMemory h (isMemory_iff.mpr (hurl ▸ by decide))
  | file hfile =>
    rw [← hurl] at hfile ⊢
    have hm : c.isMemory = false := Bool.eq_false_iff.mpr fun hm => hfile (isMemory_iff.mp hm)
    exact path_of_startsWith h hm (hurl ▸ Text.startsWith_append_self ..)

section

variable (hc : c.IsSound)

include hc

theorem path_not_mem (hm : c.isMemory = false) : c.path ∉ memoryUrls := by
  have hurl : c.url ∉ memoryUrls := fun hmem => Bool.eq_false_iff.mp hm (isMemory_iff.mpr hmem)
  rcases path_of_not_isMemory h hm with heq | hadds
  case inl => rwa [heq]
  case inr =>
    rw [hadds.eq]
    exact scheme_append_not_mem (h ▸ hc.isRecognized) hurl

theorem isPath_path : IsPath c.path := by
  cases hm : c.isMemory with
  | true => exact path_of_isMemory h hm ▸ .memory
  | false =>
    obtain ⟨rest, hrest⟩ := exists_path_eq h
    have hfile := path_not_mem h hc hm
    rw [hrest] at hfile ⊢
    exact .file hfile

end

end

variable (hc : c.IsSound)

include hc

theorem exists_scheme : ∃ s ∈ schemes c.dialect, ∃ rest, c.path = s ++ rest := by
  cases h : c.dialect with
  | sqlite => exact ⟨scheme, List.mem_singleton_self _, exists_path_eq h⟩
  | postgres =>
    have hknown := hc.isRecognized
    rw [h, isRecognized, List.any_eq_true] at hknown
    obtain ⟨s, hs, hstarts⟩ := hknown
    exact ⟨s, hs, path_postgres h ▸ Text.exists_of_startsWith hstarts⟩

theorem path_normal : c.normal.path = c.path := by
  cases h : c.dialect with
  | sqlite => exact path_of_isPath h (isPath_path h hc)
  | postgres => exact path_postgres h

theorem isMemory_normal : c.normal.isMemory = c.isMemory := by
  cases h : c.dialect with
  | sqlite =>
    cases hm : c.isMemory with
    | true =>
      rw [isMemory_iff, url_normal, path_of_isMemory h hm]
      decide
    | false =>
      rw [Bool.eq_false_iff, ne_eq, isMemory_iff, url_normal]
      exact path_not_mem h hc hm
  | postgres => exact congrArg memoryUrls.contains (path_postgres h)

theorem pool_normal : c.normal.pool = c.pool := by
  rw [pool, pool, isMemory_normal hc]
  rfl

theorem isSound_normal : c.normal.IsSound := by
  cases h : c.dialect with
  | sqlite =>
    obtain ⟨rest, hrest⟩ := exists_path_eq h
    refine ⟨?isNamed, hc.isPooled, ?isRecognized⟩
    case isNamed =>
      have hscheme : scheme.toList.all Text.isBlank = false := by decide
      rw [url_normal, hrest, Text.isAllBlank, String.toList_append, List.all_append, hscheme, Bool.false_and]
    case isRecognized =>
      have hstarts : Text.startsWith scheme c.path = true := hrest ▸ Text.startsWith_append_self ..
      rw [dialect_normal, h, url_normal, isRecognized, hstarts, Bool.true_or, Bool.true_or]
  | postgres =>
    have hnormal : c.normal = c := by rw [normal, path_postgres h]
    rwa [hnormal]

end Paths

section Apart

variable {c c' : Connection} (h : c.dialect = .sqlite) (h' : c'.dialect = .sqlite)

include h h'

-- A URL that adds the scheme is the path of the other one, and so of itself too.
theorem path_eq_of_addsScheme (hc' : c'.IsSound) (hadds : AddsScheme c.url c'.url) : c.path = c'.path := by
  have hpath : c'.path = c.url := (path_of_lacks h' hadds.lacks).trans hadds.eq.symm
  rw [hpath]
  exact path_of_isPath h (hpath ▸ isPath_path h' hc')

theorem path_eq_iff (hc : c.IsSound) (hc' : c'.IsSound) : c.path = c'.path ↔
    (c.isMemory = true ∧ c'.isMemory = true) ∨ c.url = c'.url ∨
      AddsScheme c.url c'.url ∨ AddsScheme c'.url c.url := by
  constructor
  · intro heq
    have hmemory : c.isMemory = c'.isMemory := by
      rw [← isMemory_normal hc, ← isMemory_normal hc', isMemory, isMemory, url_normal, url_normal, heq]
    cases hm : c.isMemory with
    | true => exact .inl ⟨rfl, hmemory ▸ hm⟩
    | false =>
      refine .inr ?_
      rcases path_of_not_isMemory h hm, path_of_not_isMemory h' (hmemory ▸ hm) with ⟨hp | hp, hp' | hp'⟩
      case inl.inl => exact .inl (hp ▸ heq ▸ hp')
      case inl.inr => exact .inr (.inl (hp ▸ heq ▸ hp'))
      case inr.inl => exact .inr (.inr (hp' ▸ heq ▸ hp))
      case inr.inr => exact .inl ((String.append_right_inj scheme).mp (hp.eq ▸ heq ▸ hp'.eq))
  · rintro (⟨hm, hm'⟩ | hurl | hadds | hadds)
    · rw [path_of_isMemory h hm, path_of_isMemory h' hm']
    · rw [path, path, isMemory, isMemory, h, h', hurl]
    · exact path_eq_of_addsScheme h h' hc' hadds
    · exact (path_eq_of_addsScheme h' h hc hadds).symm

end Apart

section Configurations

variable {d : Config.Database} {c : Connection}

theorem ofConfig_normal (h : ofConfig d = .ok c) : ofConfig { d with url := c.path } = .ok c.normal := by
  obtain ⟨htype, -, hmost, htimeout, hsound⟩ := ofConfig_eq_ok.mp h
  exact ofConfig_eq_ok.mpr ⟨htype, rfl, hmost, htimeout, isSound_normal hsound⟩

-- The path of a connection that is accepted has a scheme of the dialect. In the place of the URL it is accepted too, is
-- the path of itself, and means the database in memory if the URL does and only then, so that the pool stays the same.
-- SQLite URLs have a path in common if both mean the database in memory or they differ by the scheme at most.
theorem normal_of_ofConfig (h : ofConfig d = .ok c) :
    (∃ s ∈ schemes c.dialect, ∃ rest, c.path = s ++ rest) ∧
    c.normal.check = .ok () ∧ ofConfig { d with url := c.path } = .ok c.normal ∧
    c.normal.path = c.path ∧ c.normal.isMemory = c.isMemory ∧ c.normal.pool = c.pool ∧
    ∀ (d' : Config.Database) (c' : Connection), ofConfig d' = .ok c' → c.dialect = .sqlite → c'.dialect = .sqlite →
      (c.path = c'.path ↔ (c.isMemory = true ∧ c'.isMemory = true) ∨ c.url = c'.url ∨
        AddsScheme c.url c'.url ∨ AddsScheme c'.url c.url) := by
  have ⟨_, _, _, _, hc⟩ := ofConfig_eq_ok.mp h
  refine ⟨exists_scheme hc, check_eq_ok.mpr (isSound_normal hc), ofConfig_normal h, path_normal hc,
    isMemory_normal hc, pool_normal hc, fun d' c' h' hsqlite hsqlite' => ?_⟩
  have ⟨_, _, _, _, hc'⟩ := ofConfig_eq_ok.mp h'
  exact path_eq_iff hsqlite hsqlite' hc hc'

-- One file with and without the scheme, and another file.
theorem normal_of_ofConfig_file :
    let c : Connection := ⟨.sqlite, "./catalog.db", 4, 5⟩
    let c₁ : Connection := ⟨.sqlite, "sqlite:./catalog.db", 1, 30⟩
    let c₂ : Connection := ⟨.sqlite, "sqlite:catalog.db", 1, 30⟩
    ofConfig ⟨"SQLite", "./catalog.db", 4, 5⟩ = .ok c ∧
    ofConfig ⟨"sqlite", "sqlite:./catalog.db", 1, 30⟩ = .ok c₁ ∧
    ofConfig ⟨"sqlite", "sqlite:catalog.db", 1, 30⟩ = .ok c₂ ∧
    c.path = "sqlite:./catalog.db" ∧ (∃ s ∈ schemes .sqlite, ∃ rest, c.path = s ++ rest) ∧
    c.normal.check = .ok () ∧ ofConfig ⟨"SQLite", c.path, 4, 5⟩ = .ok c.normal ∧
    c.normal.path = c.path ∧ c.normal.isMemory = false ∧ c.normal.pool = ⟨4, 0, false, 5⟩ ∧
    c.path = c₁.path ∧ c.path ≠ c₂.path := by
  intro c c₁ c₂
  have h : ofConfig ⟨"SQLite", "./catalog.db", 4, 5⟩ = .ok c := rfl
  have h₁ : ofConfig ⟨"sqlite", "sqlite:./catalog.db", 1, 30⟩ = .ok c₁ := rfl
  have h₂ : ofConfig ⟨"sqlite", "sqlite:catalog.db", 1, 30⟩ = .ok c₂ := rfl
  obtain ⟨hscheme, hcheck, hnormal, hpath, hmemory, hpool, hapart⟩ := normal_of_ofConfig h
  refine ⟨h, h₁, h₂, by decide, hscheme, hcheck, hnormal, hpath, hmemory.trans rfl, hpool.trans rfl, ?same, ?other⟩
  case same => exact (hapart _ c₁ h₁ rfl rfl).mpr (.inr (.inr (.inr ⟨rfl, by decide⟩)))
  case other =>
    rw [ne_eq, hapart _ c₂ h₂ rfl rfl]
    rintro (⟨hm, -⟩ | hurl | hadds | hadds)
    · cases hm
    · exact absurd hurl (by decide)
    · exact absurd hadds.eq (by decide)
    · exact absurd hadds.eq (by decide)

-- A URL that is not accepted could mean the database in memory with the scheme in front of it, and not without.
example :
    let c : Connection := ⟨.sqlite, "//:memory:", 1, 30⟩
    c.check = .error (.unrecognizedUrl .sqlite "//:memory:") ∧ c.isMemory = false ∧ c.normal.isMemory = true ∧
      c.normal.path ≠ c.path :=
  ⟨rfl, rfl, rfl, by decide⟩

end Configurations

end MediaCatalog.Connection
