import MediaCatalog.Proofs.Service.Invariant
import MediaCatalog.Proofs.Service.Listing

namespace MediaCatalog

open Sql

namespace Database

variable {κ : Type} {e : Engine κ}

theorem ends_trivial {σ α : Type} (m : Run σ α) (before : σ → Prop) :
    m.Ends before (fun _ _ => True) fun _ _ => True := by
  refine ⟨fun x _ => ?_⟩
  split <;> trivial

-- A search with more terms in its order than the engine sorts by has no page at all.
theorem ends_findPage_of_long (s : Search) (request : PageRequest)
    (hl : ∃ n ∈ e.limits.order, n ≤ request.sort.length) :
    (s.findPage (reader e) request).Ends (fun _ => True) (fun _ _ => False) fun _ _ => True := by
  refine .ofExcept (fun count _ => .ofExcept (fun window hw => ?_) fun _ _ _ _ => trivial)
    fun _ _ _ _ => trivial
  obtain ⟨p, _, order, ho, rfl⟩ := Search.window_eq_ok.mp hw
  have hlength : order.length = request.sort.length := (List.mapM_eq_ok.mp ho).length_eq.symm
  obtain ⟨n, hn, hle⟩ := hl
  have hterms : e.limits.order.any (· < order.length + 1) = true := by
    rw [hn, hlength]
    simpa using Nat.lt_succ_of_le hle
  have hexcess : Window.excess? e ⟨s.schema.kind, p, order, request.limit, request.offset⟩ = some .order :=
    if_pos hterms
  have hwindow : ((reader e).window ⟨s.schema.kind, p, order, request.limit, request.offset⟩).Ends
      (fun _ => True) (fun _ _ => False) fun _ _ => True := by
    refine (ends_trivial _ _).bind fun ids => ?_
    rw [hexcess]
    exact .throw fun _ _ => trivial
  exact (ends_trivial _ _).bind fun _ => (ends_trivial _ _).bind fun _ => hwindow.bind fun _ =>
    .of_not fun _ => not_false

theorem not_lists_of_long {x : Database κ} {k : Kind} {filter : Dictionary String} {l : Language}
    {sort : List SortKey} {size : UInt32} {item : Entry} (hl : ∃ n ∈ e.limits.order, n ≤ sort.length) :
    ¬(catalog e).Lists x k filter l sort size item := by
  rintro ⟨number, page, hpage, -⟩
  have hends := ends_findPage_of_long ⟨Schema.registered k, filter, l⟩ ⟨number, size, sort⟩ hl
  exact hends.outcome_ne_ok trivial page hpage

end Database

namespace Service

open Http

-- Whatever requests have been served, an entry can be fetched by its number. Where the sizes of pages leave room for
-- the values that a statement binds, every page is answered, and each entry on it is what is fetched under its number.
-- Where the numbers of the pages reach all entries, an entry is fetched just if it is on one of the pages, and none
-- is fetched just if its number is on no page.
theorem findEntry_eq_some_iff_lists (dialect : Dialect) (settings : Settings) (requests : List Request) (k : Kind)
    (l : Language) (htakes : ∀ v ∈ l.values, dialect.engine.takes v) {sort : List SortKey} {order : List OrderTerm}
    (ho : sort.mapM (OrderTerm.ofKey (Schema.registered k)) = .ok order)
    (hl : ∀ n ∈ dialect.engine.limits.order, sort.length < n) :
    let c := Database.catalog dialect.engine
    let x := ((requests.mapM (respond c settings)).run .empty).2
    (∀ id, ∃ o, (c.findEntry k l id).outcome x = .ok o) ∧
    ∀ size : UInt32, l.values.length + max 2 size.toNat ≤ dialect.engine.limits.values →
      (∀ number, ∃ page, (c.findPage k ∅ l ⟨number, size, sort⟩).outcome x = .ok page ∧
        ∀ item ∈ page.items, (c.findEntry k l item.id).outcome x = .ok (some item)) ∧
      (0 < size.toNat → (x.store.get k).roots.length ≤ 2 ^ 32 * size.toNat →
        (∀ id item, (c.findEntry k l id).outcome x = .ok (some item) ↔
          c.Lists x k ∅ l sort size item ∧ item.id = id) ∧
        ∀ id, (c.findEntry k l id).outcome x = .ok none ↔
          ∀ item, c.Lists x k ∅ l sort size item → item.id ≠ id) := by
  have h := dialect.faithful_engine
  dsimp only
  obtain ⟨hx, _⟩ := run_requests h settings (Database.has_empty dialect.engine) requests
  generalize ((requests.mapM (respond (Database.catalog dialect.engine) settings)).run .empty).2 = x at hx ⊢
  have hp := Database.canSearch_unfiltered h x k htakes
  -- An entry is fetched just if it is among those that are found.
  have hfetch (id : Int) := hx.outcome_findEntry h k htakes id
  have hsome {id : Int} {item : Entry} :
      ((Database.catalog dialect.engine).findEntry k l id).outcome x = .ok (some item) ↔
        (∃ r ∈ (x.store.get k).found dialect.engine k l.predicate,
          (x.store.get k).entryOf dialect.engine (Schema.registered k) l.predicate r = item) ∧ item.id = id := by
    have hfind := Tables.find?_eq_some l.predicate (hx.isSound h k) id item
    rw [Schema.kind_registered] at hfind
    rw [hfetch, Except.ok.injEq, hfind]
  refine ⟨fun id => ⟨_, hfetch id⟩, fun size hroom => ?sizes⟩
  rw [← Search.values_language .sqlite] at hroom
  refine ⟨fun number => ?page, fun hsize hnumber => ?lists⟩
  case page =>
    refine ⟨_, hx.outcome_findPage h hp ⟨number, size, sort⟩ ho hl hroom, fun item hitem => ?_⟩
    have hlisted := List.mem_of_mem_drop (List.mem_of_mem_take hitem)
    rw [Tables.mem_listing, Schema.kind_registered] at hlisted
    exact hsome.mpr ⟨hlisted, rfl⟩
  case lists =>
    have hlists := hx.lists_iff h hp ho hl hsize hroom hnumber
    have hiff (id : Int) (item : Entry) :
        ((Database.catalog dialect.engine).findEntry k l id).outcome x = .ok (some item) ↔
          (Database.catalog dialect.engine).Lists x k ∅ l sort size item ∧ item.id = id := by
      rw [hlists, hsome]
    refine ⟨hiff, fun id => ⟨fun hnone item hitem hid => ?_, fun hnone => ?_⟩⟩
    · have := (hiff id item).mpr ⟨hitem, hid⟩
      rw [hnone] at this
      cases this
    · rw [hfetch id]
      cases ho : ((x.store.get k).found dialect.engine k l.predicate).find? (·.id = id) with
      | none => rfl
      | some r =>
        have := (hiff id _).mp ((hfetch id).trans (by rw [ho, Option.map_some]))
        exact absurd this.2 (hnone _ this.1)

-- The second of two movies is fetched and is on one of the pages.
theorem findEntry_eq_some_iff_lists_up :
    let c := Database.catalog Dialect.sqlite.engine
    let x := (([newMovie "Heat", newMovie "Up"].mapM (respond c Settings.standard)).run .empty).2
    ∃ item, (c.findEntry .movie (.tag "en") 2).outcome x = .ok (some item) ∧
      c.Lists x .movie ∅ (.tag "en") [⟨"duration", .descending⟩] 1 item := by
  dsimp only
  have ho : [SortKey.mk "duration" .descending].mapM (OrderTerm.ofKey (Schema.registered .movie)) =
      .ok [⟨⟨.root, "duration"⟩, .descending⟩] := by rfl
  have hfetched : (((Database.catalog Dialect.sqlite.engine).findEntry .movie (.tag "en") 2).outcome
      (([newMovie "Heat", newMovie "Up"].mapM (respond (Database.catalog Dialect.sqlite.engine)
        Settings.standard)).run .empty).2).toOption.join.isSome := by decide +kernel
  obtain ⟨item, hitem⟩ := Option.isSome_iff_exists.mp hfetched
  have hitem := Except.toOption_eq_some.mp (Option.join_eq_some_iff.mp hitem)
  obtain ⟨_, hsizes⟩ := findEntry_eq_some_iff_lists .sqlite Settings.standard [newMovie "Heat", newMovie "Up"]
    .movie (.tag "en") (by decide) ho (by decide)
  obtain ⟨hlists, _⟩ := (hsizes 1 (by decide)).2 (by decide) (by decide +kernel)
  exact ⟨item, hitem, ((hlists 2 item).mp hitem).1⟩

-- SQLite takes 2000 terms in an order, of which the number of the entry is one. A search with so many sort keys
-- lists nothing, though its keys are valid and there is an entry to be fetched.
theorem not_lists_of_sort_keys :
    let c := Database.catalog Dialect.sqlite.engine
    let x := (([newMovie "Up"].mapM (respond c Settings.standard)).run .empty).2
    let sort := List.replicate 2000 (SortKey.mk "budget" .ascending)
    (sort.mapM (OrderTerm.ofKey (Schema.registered .movie))).toOption.isSome ∧
      ((c.findEntry .movie .any 1).outcome x).toOption.join.isSome ∧
      ∀ size item, ¬c.Lists x .movie ∅ .any sort size item :=
  ⟨by decide +kernel, by decide +kernel, fun _ _ =>
    Database.not_lists_of_long ⟨2000, rfl, (List.length_replicate (n := 2000)).ge⟩⟩

end Service

end MediaCatalog
