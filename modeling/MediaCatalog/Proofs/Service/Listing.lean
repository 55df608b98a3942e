import MediaCatalog.Proofs.Query.Paging
import MediaCatalog.Proofs.Search.Pages
import MediaCatalog.Proofs.Service.Runs

namespace MediaCatalog

open Sql

variable {σ κ α : Type}

-- What comes out when something is done in a state.
def Run.outcome (m : Run σ α) (x : σ) : Except Fault α :=
  ((ExceptT.run m).run x).1

theorem Run.Gives.exists_outcome {m : Run σ α} {before after : σ → Prop} {answer : α → Prop}
    (h : m.Gives before answer after) {x : σ} (hx : before x) : ∃ a, m.outcome x = .ok a ∧ answer a := by
  have ⟨a, _, hr, ha, _⟩ := h x hx
  exact ⟨a, congrArg Prod.fst hr, ha⟩

theorem Run.Ends.outcome_ne_ok {m : Run σ α} {before : σ → Prop} {failed : Fault → σ → Prop}
    (h : m.Ends before (fun _ _ => False) failed) {x : σ} (hx : before x) (a : α) : m.outcome x ≠ .ok a := by
  have h := h.run x hx
  intro ha
  rw [Run.outcome] at ha
  generalize (ExceptT.run m).run x = out at h ha
  obtain ⟨_, _⟩ := out
  cases ha
  exact h

namespace Catalog

-- Whether an entry is on one of the pages of a search.
def Lists (c : Catalog σ) (x : σ) (k : Kind) (filter : Dictionary String) (l : Language) (sort : List SortKey)
    (size : UInt32) (item : Entry) : Prop :=
  ∃ number page, (c.findPage k filter l ⟨number, size, sort⟩).outcome x = .ok page ∧ item ∈ page.items

-- Whether the entry of a number is on one of the pages, with a translation.
def Shows (c : Catalog σ) (x : σ) (k : Kind) (filter : Dictionary String) (l : Language) (sort : List SortKey)
    (size : UInt32) (id : Int) (u : Translation) : Prop :=
  ∃ item, c.Lists x k filter l sort size item ∧ item.id = id ∧ u ∈ item.translations

end Catalog

namespace Tables

variable {e : Engine κ} {fits : FieldType → κ → Prop} {s : Schema} {p : Predicate} {t : Tables κ}
  {order : List OrderTerm}

-- An entry that is found is found by its number.
theorem find?_eq_some (p : Predicate) (ht : t.IsSound e fits s) (id : Int) (item : Entry) :
    ((t.found e s.kind p).find? (·.id = id)).map (t.entryOf e s p) = some item ↔
      (∃ r ∈ t.found e s.kind p, t.entryOf e s p r = item) ∧ item.id = id := by
  rw [Option.map_eq_some_iff]
  constructor
  · rintro ⟨r, hr, rfl⟩
    exact ⟨⟨r, List.mem_of_find?_eq_some hr, rfl⟩, by simpa using List.find?_some hr⟩
  · rintro ⟨⟨r, hr, rfl⟩, rfl⟩
    refine ⟨r, find?_eq_some_of_unique hr (by simp) fun u hu hid => ?_, rfl⟩
    exact List.inj_on_of_nodup_map (nodup_found ht.roots) hu hr (of_decide_eq_true hid)

end Tables

namespace Database

-- A search that a database can answer unless a statement of it binds too many values: its filters can be read, and
-- the engine has the values that they are about.
structure CanSearch (e : Engine κ) (x : Database κ) (k : Kind) (filter : Dictionary String) (l : Language)
    (p : Predicate) : Prop where
  predicate : (Search.mk (Schema.registered k) filter l).predicate none = .ok p
  takes     : ∀ v ∈ p.values .sqlite, e.takes v
  excess    : ∀ scope q more, (Search.mk (Schema.registered k) filter l).predicate scope = .ok q →
    e.excess? (q.values .sqlite ++ more) = none → (x.store.get k).excess? e k q more = none

variable {e : Engine κ} {fits : FieldType → κ → Prop} (h : e.Faithful fits) {c : Contents} {x : Database κ}

theorem canSearch_of_condition {k : Kind} {name raw : String} {l : Language} {a : Condition}
    (ha : Search.condition (Schema.registered k) name raw = .ok a)
    (ht : ∀ v ∈ l.values ++ (a.phrase .sqlite).values, e.takes v)
    (hr : ∀ row : Column → κ, a.isRefused e row = false) {m : Nat} (hm : 3 ≤ m) (hh : a.height ≤ m)
    (hd : ∀ n ∈ e.limits.depth, m + 6 ≤ n) :
    x.CanSearch e k (.ofList [(name, raw)]) l (l.predicate ++ [a]) where
  predicate := by
    rw [Search.predicate_of_condition ha, Option.map_none, Option.toList_none, List.append_nil]
  takes := by
    rwa [Search.values_eq_flatMap, List.flatMap_append, List.flatMap_singleton, ← Search.values_eq_flatMap,
      Search.values_language]
  excess := by
    intro scope q more hq hv
    rw [Search.predicate_of_condition ha] at hq
    cases hq
    rw [Search.values_predicate] at hv
    exact Tables.excess?_of_filters l scope _ hv (by simpa using hr) hm (by simpa using hh) hd

include h in
theorem canSearch_unfiltered (x : Database κ) (k : Kind) {l : Language} (ht : ∀ v ∈ l.values, e.takes v) :
    x.CanSearch e k ∅ l l.predicate where
  predicate := by
    rw [Search.predicate_unfiltered, Option.map_none, Option.toList_none, List.append_nil]
  takes := by rwa [Search.values_language]
  excess := by
    intro scope q more hq hv
    rw [Search.predicate_unfiltered] at hq
    cases hq
    rw [Search.values_unfiltered] at hv
    exact Tables.excess?_unfiltered h l scope hv

include h in
-- All statements of a page are answered where there is room for its entries, or for the limits of the page, behind
-- the values of the filters.
theorem CanSearch.isAnswered {k : Kind} {filter : Dictionary String} {l : Language} {p : Predicate}
    (hp : x.CanSearch e k filter l p) {request : PageRequest}
    (hn : (p.values .sqlite).length + max 2 request.size.toNat ≤ e.limits.values)
    (hl : ∀ n ∈ e.limits.order, request.sort.length < n) :
    (Search.mk (Schema.registered k) filter l).IsAnswered e (x.store.get k) request := by
  have hkind : (Schema.registered k).kind = k := Schema.kind_registered k
  have hroom {vs : List Value} (hlength : vs.length ≤ max 2 request.size.toNat) (htakes : ∀ v ∈ vs, e.takes v) :
      e.excess? (p.values .sqlite ++ vs) = none := by
    refine Engine.excess?_eq_none.mpr ⟨?_, List.forall_mem_append.mpr ⟨hp.takes, htakes⟩⟩
    rw [List.length_append]
    omega
  refine ⟨fun c hc => ?count, fun w hw => ?window, fun w ids q hw hids hq => ?rows⟩
  case count =>
    obtain ⟨q, hq, rfl⟩ := Search.count_eq_ok.mp hc
    cases hp.predicate.symm.trans hq
    rw [hkind]
    exact hp.excess none p [] hp.predicate (hroom (Nat.zero_le _) (by simp))
  case window =>
    obtain ⟨q, hq, order, ho, rfl⟩ := Search.window_eq_ok.mp hw
    cases hp.predicate.symm.trans hq
    have hlength : order.length = request.sort.length := (List.mapM_eq_ok.mp ho).length_eq.symm
    refine ⟨?_, ?_⟩
    · rw [hkind]
      refine hp.excess none p _ hp.predicate (hroom (Nat.le_max_left ..) ?_)
      simp [Window.bounds, h.takes_int]
    -- So few entries on a page leave its offset within 64 bits.
    · have hsize : request.size.toNat < 2 ^ 31 := by
        have := h.values_lt
        omega
      have hfit : request.page.toNat * request.size.toNat < 2 ^ 32 * 2 ^ 31 :=
        Nat.mul_lt_mul'' request.page.toNat_lt hsize
      have hoffset := request.toInt_offset_eq_iff.mpr hfit
      have hterms : e.limits.order.any (· < order.length + 1) = false := by
        rw [Option.any_eq_false, hlength]
        exact fun n hn => by simpa using Nat.succ_le_of_lt (hl n hn)
      have hstart : e.limits.offset.any (request.offset.toInt < ·) = false := by
        have hpos : (0 : Int) ≤ request.page.toNat * request.size.toNat :=
          Int.mul_nonneg (Int.natCast_nonneg _) (Int.natCast_nonneg _)
        rw [Option.any_eq_false, hoffset]
        exact fun n hn => by simpa using Int.le_trans (h.offset n hn) hpos
      rw [Window.excess?, hterms, hstart]
      rfl
  case rows =>
    obtain ⟨q', hq', rfl⟩ := Search.projection_eq_ok.mp hq
    cases (Search.predicate_some hp.predicate).symm.trans hq'
    obtain ⟨_, _, _, _, rfl⟩ := Search.window_eq_ok.mp hw
    have hlength : ids.length ≤ request.size.toNat := request.toNat_limit ▸ hids.length_le.1
    have hvalues : (p ++ [Search.among ids] : Predicate).values .sqlite = p.values .sqlite ++ ids.map .int := by
      rw [Search.values_eq_flatMap, List.flatMap_append, List.flatMap_singleton, ← Search.values_eq_flatMap,
        Search.values_among]
    rw [hkind]
    refine hp.excess (some ids) _ [] (Search.predicate_some hp.predicate) ?_
    rw [List.append_nil, hvalues]
    exact hroom (by rw [List.length_map]; omega) (by simp [h.takes_int])

variable (hx : x.Has e c) (k : Kind)

include h hx

theorem Has.isSound : (x.store.get k).IsSound e fits (Schema.registered k) :=
  (hx.keeps k).isSound h (Schema.isUsable_registered k) (hx.sound k)

-- An entry is fetched as it is found.
theorem Has.outcome_findEntry {l : Language} (hl : ∀ v ∈ l.values, e.takes v) (id : Int) :
    ((catalog e).findEntry k l id).outcome x =
    .ok ((((x.store.get k).found e k l.predicate).find? (·.id = id)).map
      ((x.store.get k).entryOf e (Schema.registered k) l.predicate)) := by
  have htries := (Keeper.tries_findEntry (keeper_lawful e) h True x.store k l id).run x hx.rests
  have hfound := (hx.keeps k).find?_found h (Schema.isUsable_registered k) (hx.sound k) l id
  rw [Schema.kind_registered] at hfound
  rw [catalog_keeper] at htries
  rw [Run.outcome]
  generalize (ExceptT.run ((catalog e).findEntry k l id)).run x = out at htries ⊢
  obtain ⟨a | o, y⟩ := out
  case error => exact absurd ⟨trivial, hl⟩ htries.1
  case ok =>
    have ho : o = _ := htries.1
    rw [ho, Keeper.fetched_eq h (hx.keeps k) (hx.sound k), hfound]

section Pages

variable {k} {filter : Dictionary String} {l : Language} {p : Predicate} (hp : x.CanSearch e k filter l p)

include hp

-- A page is cut out of all entries that are found.
theorem Has.outcome_findPage (request : PageRequest) {order : List OrderTerm}
    (ho : request.sort.mapM (OrderTerm.ofKey (Schema.registered k)) = .ok order)
    (hl : ∀ n ∈ e.limits.order, request.sort.length < n)
    (hn : (p.values .sqlite).length + max 2 request.size.toNat ≤ e.limits.values) :
    ((catalog e).findPage k filter l request).outcome x =
      .ok (.answer ((((x.store.get k).listing e (Schema.registered k) p order).drop
        request.offset.toNatClampNeg).take request.size.toNat) request
          (.ofNat ((x.store.get k).found e k p).length)) := by
  have hs := Schema.isUsable_registered k
  have hkind : (Schema.registered k).kind = k := Schema.kind_registered k
  have hsession := session (s := Search.mk (Schema.registered k) filter l) h.toLawful hs.sound hs.columns
    (hx.isSound h k) (hp.isAnswered h hn hl)
  have hgives := Search.findPage_gives_cut h.toLawful hs.sound hs.columns hp.predicate ho (hx.isSound h k)
    hsession
  obtain ⟨page, hpage, rfl⟩ := hgives.exists_outcome ⟨hx.isOpen, by rw [hkind]⟩
  rw [hkind] at hpage
  exact hpage

-- The pages of a size list all entries that are found and no others.
theorem Has.lists_iff {sort : List SortKey} {order : List OrderTerm}
    (ho : sort.mapM (OrderTerm.ofKey (Schema.registered k)) = .ok order)
    (hl : ∀ n ∈ e.limits.order, sort.length < n) {size : UInt32} (hsize : 0 < size.toNat)
    (hn : (p.values .sqlite).length + max 2 size.toNat ≤ e.limits.values)
    (hnumber : (x.store.get k).roots.length ≤ 2 ^ 32 * size.toNat) (item : Entry) :
    (catalog e).Lists x k filter l sort size item ↔
      ∃ r ∈ (x.store.get k).found e k p, (x.store.get k).entryOf e (Schema.registered k) p r = item := by
  have hpage (number : UInt32) := hx.outcome_findPage h hp ⟨number, size, sort⟩ ho hl hn
  have hlisting : item ∈ (x.store.get k).listing e (Schema.registered k) p order ↔ _ := Tables.mem_listing
  have hlength : ((x.store.get k).listing e (Schema.registered k) p order).length =
      ((x.store.get k).found e k p).length := by
    rw [Tables.listing, List.length_map, (Tables.ranked_perm order).length_eq, Schema.kind_registered]
  have hfound : ((x.store.get k).found e k p).length ≤ (x.store.get k).roots.length := List.length_filter_le ..
  rw [Schema.kind_registered] at hlisting
  rw [← hlisting]
  constructor
  · rintro ⟨number, page, hanswer, hitem⟩
    rw [hpage] at hanswer
    cases hanswer
    exact List.mem_of_mem_drop (List.mem_of_mem_take hitem)
  · intro hitem
    obtain ⟨i, hi, rfl⟩ := List.mem_iff_getElem.mp hitem
    have hfit : i < 2 ^ 63 := by
      have := h.values_lt
      omega
    obtain ⟨number, hoffset⟩ := PageRequest.exists_offset (i := i) sort hsize (by omega) hfit
    refine ⟨number, _, hpage number, ?_⟩
    rw [hoffset]
    exact mem_page hi hsize

-- The numbers of the entries that are listed.
theorem Has.finds_iff {sort : List SortKey} {order : List OrderTerm}
    (ho : sort.mapM (OrderTerm.ofKey (Schema.registered k)) = .ok order)
    (hl : ∀ n ∈ e.limits.order, sort.length < n) {size : UInt32} (hsize : 0 < size.toNat)
    (hn : (p.values .sqlite).length + max 2 size.toNat ≤ e.limits.values)
    (hnumber : (x.store.get k).roots.length ≤ 2 ^ 32 * size.toNat) (id : Int) :
    (∃ item, (catalog e).Lists x k filter l sort size item ∧ item.id = id) ↔
      ∃ r ∈ (x.store.get k).found e k p, r.id = id := by
  simp only [hx.lists_iff h hp ho hl hsize hn hnumber]
  constructor
  · rintro ⟨_, ⟨r, hr, rfl⟩, hid⟩
    exact ⟨r, hr, hid⟩
  · rintro ⟨r, hr, hid⟩
    exact ⟨_, ⟨r, hr, rfl⟩, hid⟩

-- They show the rows that pass.
theorem Has.shows_iff {sort : List SortKey} {order : List OrderTerm}
    (ho : sort.mapM (OrderTerm.ofKey (Schema.registered k)) = .ok order)
    (hl : ∀ n ∈ e.limits.order, sort.length < n) {size : UInt32} (hsize : 0 < size.toNat)
    (hn : (p.values .sqlite).length + max 2 size.toNat ≤ e.limits.values)
    (hnumber : (x.store.get k).roots.length ≤ 2 ^ 32 * size.toNat) (id : Int) (u : Translation) :
    (catalog e).Shows x k filter l sort size id u ↔
      ∃ r ∈ (x.store.get k).roots, r.id = id ∧ ∃ j ∈ (x.store.get k).matching e k p r,
        ⟨j.language e, j.translation.shown e (Schema.registered k).translationFields⟩ = u := by
  have hlists (item : Entry) := hx.lists_iff h hp ho hl hsize hn hnumber item
  have htranslations (r : StoredRow κ) :
      u ∈ ((x.store.get k).entryOf e (Schema.registered k) p r).translations ↔ _ := Tables.mem_translations
  simp only [Schema.kind_registered] at htranslations
  simp only [← htranslations]
  constructor
  · rintro ⟨item, hitem, hid, hu⟩
    obtain ⟨r, hr, rfl⟩ := (hlists item).mp hitem
    exact ⟨r, (Tables.mem_found.mp hr).1, hid, hu⟩
  · rintro ⟨r, hr, hid, hu⟩
    obtain ⟨j, hj, -⟩ := (htranslations r).mp hu
    exact ⟨_, (hlists _).mpr ⟨r, Tables.mem_found_iff.mpr ⟨hr, j, hj⟩, rfl⟩, hid, hu⟩

end Pages

end Database

end MediaCatalog
