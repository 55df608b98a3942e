import MediaCatalog.Proofs.Dictionary
import MediaCatalog.Proofs.Except
import MediaCatalog.Service

namespace MediaCatalog.Query

open Sql

-- The names that do not stand for fields.
def reserved : List String :=
  ["page", "size", "sort", "language"]

-- Parameters by the names and with the values that they are known by, whatever their spelling.
def normalized (pairs : List (String × String)) : List (String × String) :=
  pairs.map fun p => normalize p.1 p.2

section Normalized

variable (params : List (String × String))

-- The values given under a name, in their order.
def given (name : String) : List String :=
  (params.filter (·.1 = name)).map (·.2)

-- The fields that are named, with what is asked of them.
def filters : List (String × String) :=
  params.filter (·.1 ∉ reserved)

-- Parameters that make up a query: every one has a name, and no field is named twice.
structure AreSound : Prop where
  named    : ∀ p ∈ params, p.1 ≠ ""
  distinct : ((filters params).map (·.1)).Nodup

-- What a query has gathered from parameters.
structure Gathers (q : Query) : Prop where
  filter   : q.filter.entries.Perm (filters params)
  page     : q.page = (given params "page").getLast?
  size     : q.size = (given params "size").getLast?
  language : q.language = (given params "language").getLast?
  sort     : q.sort = given params "sort"

end Normalized

-- The statements of the search that a query asks for: the count, the window and the rows of entries.
def statements (q : Query) (d : Dialect) (s : Schema) (settings : Settings) (r : Http.Request) (ids : List Int) :
    Except Fault (Statement × Statement × Statement) := do
  let request ← q.pageRequest settings.paging
  let l ← Service.language settings r q.language
  let search : Search := ⟨s, q.filter, l⟩
  return ((← search.count).statement d, (← search.window request).statement d,
    (← search.projection ids).statement d)

section Step

variable {q q' : Query} {name value : String} {params : List (String × String)} {p : String × String}

-- A query with one more parameter.
def take (q : Query) (p : String × String) : Query where
  filter   := if p.1 ∈ reserved then q.filter else q.filter.insert p.1 p.2
  page     := if p.1 = "page" then p.2 else q.page
  size     := if p.1 = "size" then p.2 else q.size
  sort     := if p.1 = "sort" then q.sort ++ [p.2] else q.sort
  language := if p.1 = "language" then p.2 else q.language

theorem add_eq_ok : q.add name value = .ok q' ↔
    let p := normalize name value
    p.1 ≠ "" ∧ (p.1 ∉ reserved → q.filter.contains p.1 = false) ∧ q.take p = q' := by
  rw [add]
  generalize normalize name value = p
  obtain ⟨field, raw⟩ := p
  dsimp only
  split
  case h_1 => simp
  case h_2 => simp [take, reserved]
  case h_3 => simp [take, reserved]
  case h_4 => simp [take, reserved]
  case h_5 => simp [take, reserved]
  case h_6 hname hpage hsize hsort hlanguage =>
    have hfield : field ∉ reserved := by
      simp only [reserved, List.mem_cons, List.not_mem_nil, or_false, not_or]
      exact ⟨hpage, hsize, hsort, hlanguage⟩
    rw [take, if_neg hfield, if_neg hpage, if_neg hsize, if_neg hsort, if_neg hlanguage]
    split
    case isTrue hrepeated => simp [hfield, hrepeated]
    case isFalse hnew =>
      have hname : field ≠ "" := hname
      simp [hfield, hnew, hname]

theorem given_concat (name : String) :
    given (params ++ [p]) name = if p.1 = name then given params name ++ [p.2] else given params name := by
  rw [given, List.filter_append, List.filter_singleton]
  split <;> simp_all [given]

theorem filters_concat :
    filters (params ++ [p]) = if p.1 ∈ reserved then filters params else filters params ++ [p] := by
  rw [filters, List.filter_append, List.filter_singleton]
  split <;> simp_all [filters]

theorem areSound_concat : AreSound (params ++ [p]) ↔
    AreSound params ∧ p.1 ≠ "" ∧ (p.1 ∉ reserved → p.1 ∉ (filters params).map (·.1)) := by
  have hdistinct : ((filters (params ++ [p])).map (·.1)).Nodup ↔ ((filters params).map (·.1)).Nodup ∧
      (p.1 ∉ reserved → p.1 ∉ (filters params).map (·.1)) := by
    rw [filters_concat]
    split
    case isTrue hr => simp [hr]
    case isFalse hr =>
      rw [List.map_append, List.map_singleton, ← List.concat_eq_append, List.nodup_concat, and_comm,
        imp_iff_right hr]
  constructor
  · rintro ⟨hnamed, h⟩
    have ⟨hparams, hp⟩ := List.forall_mem_append.mp hnamed
    have ⟨hold, hnew⟩ := hdistinct.mp h
    exact ⟨⟨hparams, hold⟩, hp p List.mem_cons_self, hnew⟩
  · rintro ⟨⟨hparams, hold⟩, hp, hnew⟩
    exact ⟨List.forall_mem_append.mpr ⟨hparams, List.forall_mem_singleton.mpr hp⟩, hdistinct.mpr ⟨hold, hnew⟩⟩

theorem Gathers.contains_eq_true (h : Gathers params q) (name : String) :
    q.filter.contains name = true ↔ name ∈ (filters params).map (·.1) := by
  simp [Dictionary.contains_eq_true, h.filter.mem_iff]

theorem Gathers.take (h : Gathers params q) (hnew : p.1 ∉ reserved → q.filter.contains p.1 = false) :
    Gathers (params ++ [p]) (q.take p) := by
  have hlast (name : String) : (given (params ++ [p]) name).getLast? =
      if p.1 = name then some p.2 else (given params name).getLast? := by
    rw [given_concat]
    split <;> simp
  refine ⟨?filter, ?page, ?size, ?language, ?sort⟩
  case filter =>
    rw [Query.take, filters_concat]
    split
    case isTrue hr => exact h.filter
    case isFalse hr =>
      have hperm : (q.filter.insert p.1 p.2).entries.Perm (p :: q.filter.entries) := Dictionary.insert_perm (hnew hr)
      exact (hperm.trans (h.filter.cons _)).trans (List.perm_append_singleton ..).symm
  case page => rw [hlast, ← h.page]; rfl
  case size => rw [hlast, ← h.size]; rfl
  case language => rw [hlast, ← h.language]; rfl
  case sort => rw [given_concat, ← h.sort]; rfl

end Step

section Run

variable {q : Query} {pairs : List (String × String)}

theorem ofPairs_concat (p : String × String) :
    ofPairs (pairs ++ [p]) = ofPairs pairs >>= fun q => q.add p.1 p.2 := by
  rw [ofPairs, List.foldlM_append]
  simp [ofPairs]

theorem normalized_concat (p : String × String) :
    normalized (pairs ++ [p]) = normalized pairs ++ [normalize p.1 p.2] :=
  List.map_append

theorem gathers_ofPairs (h : ofPairs pairs = .ok q) : Gathers (normalized pairs) q := by
  induction pairs using List.reverseRecOn generalizing q with
  | nil =>
    cases h
    exact ⟨.nil, rfl, rfl, rfl, rfl⟩
  | append_singleton pairs p ih =>
    rw [ofPairs_concat, Except.bind_eq_ok] at h
    obtain ⟨q', hq', hadd⟩ := h
    obtain ⟨-, hnew, rfl⟩ := add_eq_ok.mp hadd
    rw [normalized_concat]
    exact (ih hq').take hnew

theorem exists_ofPairs_iff : (∃ q, ofPairs pairs = .ok q) ↔ AreSound (normalized pairs) := by
  induction pairs using List.reverseRecOn with
  | nil => exact ⟨fun _ => ⟨List.forall_mem_nil _, .nil⟩, fun _ => ⟨_, rfl⟩⟩
  | append_singleton pairs p ih =>
    simp only [ofPairs_concat, normalized_concat, areSound_concat, ← ih, Except.bind_eq_ok, add_eq_ok]
    constructor
    · rintro ⟨_, q, hq, hname, hnew, -⟩
      refine ⟨⟨q, hq⟩, hname, fun hr => ?_⟩
      rw [← (gathers_ofPairs hq).contains_eq_true, hnew hr]
      exact Bool.false_ne_true
    · rintro ⟨⟨q, hq⟩, hname, hnew⟩
      refine ⟨_, q, hq, hname, fun hr => ?_, rfl⟩
      rw [← Bool.not_eq_true, (gathers_ofPairs hq).contains_eq_true]
      exact hnew hr

end Run

section Order

variable {params params' : List (String × String)} {q q' : Query}

theorem AreSound.of_perm (h : AreSound params) (hp : params'.Perm params) : AreSound params' where
  named p hmem := h.named p (hp.mem_iff.mp hmem)
  distinct := ((hp.filter _).map _).nodup_iff.mpr h.distinct

-- Parameters in another order make up the same query as long as those of each reserved name keep theirs.
theorem Gathers.unique (h : Gathers params q) (h' : Gathers params' q') (hp : params'.Perm params)
    (hkept : ∀ name ∈ reserved, given params' name = given params name) : q' = q := by
  have hfilter : q'.filter = q.filter :=
    Dictionary.eq_of_perm ((h'.filter.trans (hp.filter _)).trans h.filter.symm)
  have hpage : q'.page = q.page := by rw [h'.page, h.page, hkept _ (by decide)]
  have hsize : q'.size = q.size := by rw [h'.size, h.size, hkept _ (by decide)]
  have hlanguage : q'.language = q.language := by rw [h'.language, h.language, hkept _ (by decide)]
  have hsort : q'.sort = q.sort := by rw [h'.sort, h.sort, hkept _ (by decide)]
  cases q
  cases q'
  simp_all

-- Parameters make up a query if each of them has a name and no field is named twice. The query then has a filter for
-- each parameter that names a field, the last page, size and language, and all sort parameters in their order. In
-- another order, as far as those of one reserved name keep theirs, the parameters make up the same query, if any, and
-- it is searched for by the same statements.
theorem ofPairs_of_perm (pairs : List (String × String)) :
    ((∃ q, ofPairs pairs = .ok q) ↔ AreSound (normalized pairs)) ∧
    (∀ q, ofPairs pairs = .ok q → Gathers (normalized pairs) q) ∧
    ∀ pairs' : List (String × String), pairs'.Perm pairs →
      (∀ name ∈ reserved, given (normalized pairs') name = given (normalized pairs) name) →
      ((∃ q', ofPairs pairs' = .ok q') ↔ ∃ q, ofPairs pairs = .ok q) ∧
      ∀ q q', ofPairs pairs = .ok q → ofPairs pairs' = .ok q' →
        q' = q ∧ ∀ (d : Dialect) (s : Schema) (settings : Settings) (r : Http.Request) (ids : List Int),
          q'.statements d s settings r ids = q.statements d s settings r ids := by
  refine ⟨exists_ofPairs_iff, fun q hq => gathers_ofPairs hq, fun pairs' hp hkept => ?_⟩
  have hperm : (normalized pairs').Perm (normalized pairs) := hp.map _
  refine ⟨?succeeds, fun q q' hq hq' => ?same⟩
  case succeeds =>
    rw [exists_ofPairs_iff, exists_ofPairs_iff]
    exact ⟨fun h => h.of_perm hperm.symm, fun h => h.of_perm hperm⟩
  case same =>
    have hsame : q' = q := (gathers_ofPairs hq).unique (gathers_ofPairs hq') hperm hkept
    exact ⟨hsame, fun d s settings r ids => by rw [hsame]⟩

-- Two filters, one in another spelling, among two pages and two sort parameters.
theorem ofPairs_of_perm_twice :
    let pairs := [("Name!", "Up"), ("page", "1"), ("sort", "name,desc"), ("duration>50", ""), ("PAGE", "2"),
      ("sort", "budget")]
    let pairs' := [("sort", "name,desc"), ("duration>50", ""), ("page", "1"), ("sort", "budget"), ("PAGE", "2"),
      ("Name!", "Up")]
    ∃ q, ofPairs pairs = .ok q ∧ ofPairs pairs' = .ok q ∧ q.page = some "2" ∧ q.sort = ["name,desc", "budget"] ∧
      ("name", "!Up") ∈ q.filter.entries := by
  intro pairs pairs'
  obtain ⟨hsound, hgathers, horder⟩ := ofPairs_of_perm pairs
  obtain ⟨hiff, hsame⟩ := horder pairs' (by decide) (by decide)
  obtain ⟨q, hq⟩ := hsound.mpr ⟨by decide, by decide⟩
  obtain ⟨q', hq'⟩ := hiff.mpr ⟨q, hq⟩
  obtain ⟨rfl, -⟩ := hsame q q' hq hq'
  have h := hgathers _ hq
  exact ⟨_, hq, hq', h.page, h.sort, h.filter.mem_iff.mpr (by decide)⟩

end Order

end MediaCatalog.Query
