import MediaCatalog.Proofs.Search.Page

namespace MediaCatalog

section Cut

variable {α : Type}

-- The first pages of a list hold its beginning.
theorem flatMap_page (l : List α) (size n : Nat) :
    (List.range n).flatMap (fun i => (l.drop (i * size)).take size) = l.take (n * size) := by
  induction n with
  | zero => simp
  | succ n ih =>
    rw [List.range_succ, List.flatMap_append, ih, List.flatMap_singleton, Nat.succ_mul, List.take_add]

-- Every item of a list is on one of its pages.
theorem mem_page {l : List α} {i : Nat} (hi : i < l.length) {size : Nat} (hs : 0 < size) :
    l[i] ∈ (l.drop (i / size * size)).take size := by
  have hdiv := Nat.div_add_mod' i size
  have hmod := Nat.mod_lt i hs
  refine List.mem_iff_getElem.mpr ⟨i % size, ?_, ?_⟩
  · rw [List.length_take, List.length_drop]
    omega
  · simp only [List.getElem_take, List.getElem_drop, hdiv]

end Cut

namespace Run.Gives

variable {σ α β : Type} {state : σ → Prop}

-- Steps that leave the state as it is can be done one after the other.
theorem mapM {f : α → Run σ β} {g : α → β} (as : List α)
    (h : ∀ a ∈ as, (f a).Gives state (· = g a) state) :
    Gives (as.mapM f) state (· = as.map g) state := by
  induction as with
  | nil => exact .pure rfl
  | cons a as ih =>
    rw [List.mapM_cons]
    refine (h a (by simp)).bind fun b hb => (ih fun a' ha => h a' (by simp [ha])).bind fun bs hbs => ?_
    exact .pure (by rw [hb, hbs, List.map_cons])

end Run.Gives

namespace Search

open Sql

variable {κ σ : Type} {e : Engine κ} {fits : FieldType → κ → Prop} {s : Search} {p : Predicate}
  {t : Tables κ} {r : Reader σ} {state inside : σ → Prop} {sort : List SortKey} {order : List OrderTerm}

section Listing

theorem length_listing :
    (t.listing e s.schema p order).length = (t.found e s.schema.kind p).length := by
  rw [Tables.listing, List.length_map, (Tables.ranked_perm order).length_eq]

variable (ht : t.IsSound e fits s.schema)

include ht

theorem nodup_listing : ((t.listing e s.schema p order).map (·.id)).Nodup := by
  rw [Tables.map_id_listing]
  exact ((Tables.ranked_perm order).map _).nodup_iff.mpr (Tables.nodup_found ht.roots)

theorem mem_listing {i : Int} : i ∈ (t.listing e s.schema p order).map (·.id) ↔
    ∃ j ∈ t.selected e s.schema.kind p, j.root.id = i := by
  rw [Tables.map_id_listing, ((Tables.ranked_perm order).map _).mem_iff]
  exact (isDistinct_found ht.roots).2 i

end Listing

section Sizes

variable {number size : Nat} (hs : 0 < size)

theorem length_pageOf (number size : Nat) : (t.pageOf e s.schema p order number size).length =
    min size ((t.listing e s.schema p order).length - number * size) := by
  rw [Tables.pageOf, List.length_take, List.length_drop]

include hs

theorem flatMap_pageOf :
    (List.range (pageCount (t.listing e s.schema p order).length size)).flatMap
      (t.pageOf e s.schema p order · size) = t.listing e s.schema p order :=
  (flatMap_page _ size _).trans (List.take_of_length_le (le_pageCount_mul _ hs))

-- A page that another one follows is full.
theorem length_pageOf_eq (hn : number + 1 < pageCount (t.listing e s.schema p order).length size) :
    (t.pageOf e s.schema p order number size).length = size := by
  have hnext := (lt_pageCount hs).mp hn
  rw [Nat.succ_mul] at hnext
  rw [length_pageOf]
  omega

theorem length_pageOf_pos (hn : number < pageCount (t.listing e s.schema p order).length size) :
    0 < (t.pageOf e s.schema p order number size).length := by
  have hfirst := (lt_pageCount hs).mp hn
  rw [length_pageOf]
  omega

theorem pageOf_eq_nil (hn : pageCount (t.listing e s.schema p order).length size ≤ number) :
    t.pageOf e s.schema p order number size = [] := by
  have hfirst := (lt_pageCount hs).not.mp (Nat.not_lt.mpr hn)
  apply List.eq_nil_of_length_eq_zero
  rw [length_pageOf]
  omega

end Sizes

-- What a page tells of all pages.
theorem totals_answer (items : List Entry) (request : PageRequest) (hsize : 0 < request.size.toNat)
    (htotal : (t.listing e s.schema p order).length + request.size.toNat ≤ 2 ^ 63) :
    let page := Page.answer items request (.ofNat (t.found e s.schema.kind p).length)
    page.totalItems = .ofNat (t.listing e s.schema p order).length ∧
      page.totalPages =
        .ofNat (pageCount (t.listing e s.schema p order).length request.size.toNat) := by
  rw [length_listing] at htotal ⊢
  exact ⟨rfl, Page.totalPages_answer items request hsize htotal⟩

-- Asked for one after the other, the pages of a size list all entries that are found, each once and in an order
-- that is the same for every size. Every page is full but the last one, which is not empty. Behind it there
-- is nothing, and every page knows how many entries and pages there are.
theorem pages_eq_listing (h : e.Lawful fits) (hv : s.schema.validate = .ok ())
    (hc : (s.schema.fields.map (·.column)).Nodup) (hp : s.predicate none = .ok p)
    (ho : sort.mapM (OrderTerm.ofKey s.schema) = .ok order) (ht : t.IsSound e fits s.schema) :
    let all := t.listing e s.schema p order
    ((all.map (·.id)).Nodup ∧
      ∀ i, i ∈ all.map (·.id) ↔ ∃ j ∈ t.selected e s.schema.kind p, j.root.id = i) ∧
    ∀ size : UInt32, 0 < size.toNat → all.length + size.toNat ≤ 2 ^ 63 →
      all.length ≤ 2 ^ 32 * size.toNat →
      (∀ number, Session e t r s ⟨number, size, sort⟩ state inside state) →
      let n := pageCount all.length size.toNat
      (((List.range n).mapM fun i => findPage r s ⟨.ofNat i, size, sort⟩).Gives state (fun pages =>
        pages.length = n ∧ pages.flatMap (·.items) = all ∧
        (∀ page ∈ pages, page.totalItems = .ofNat all.length ∧ page.totalPages = .ofNat n) ∧
        ∀ i page, pages[i]? = some page →
          (i + 1 < n → page.items.length = size.toNat) ∧
          0 < page.items.length ∧ page.items.length ≤ size.toNat) state) ∧
      ∀ number : UInt32, n ≤ number.toNat → number.toNat * size.toNat < 2 ^ 63 →
        (findPage r s ⟨number, size, sort⟩).Gives state (fun page =>
          page.items = [] ∧ page.totalItems = .ofNat all.length ∧ page.totalPages = .ofNat n) state := by
  have hs := Schema.validate_eq_ok.mp hv
  intro all
  refine ⟨⟨nodup_listing ht, fun i => mem_listing ht⟩, ?_⟩
  intro size hsize htotal hnumber hr n
  have hpage (number : UInt32) (hfit : number.toNat * size.toNat < 2 ^ 63) :=
    findPage_gives h hs hc hp ho hfit ht (hr number)
  refine ⟨?pages, ?behind⟩
  case pages =>
    have hfirst {i : Nat} (hi : i < n) : i * size.toNat < all.length := (lt_pageCount hsize).mp hi
    have hnumber {i : Nat} (hi : i < n) : (UInt32.ofNat i).toNat = i :=
      UInt32.toNat_ofNat_of_lt' (Nat.lt_of_mul_lt_mul_right (Nat.lt_of_lt_of_le (hfirst hi) hnumber))
    let page (i : Nat) : Page Entry := .answer (t.pageOf e s.schema p order i size.toNat)
      ⟨.ofNat i, size, sort⟩ (.ofNat (t.found e s.schema.kind p).length)
    have hrun := Run.Gives.mapM (g := page) (List.range n) fun i hi => by
      have hi := List.mem_range.mp hi
      have hfit : (UInt32.ofNat i).toNat * size.toNat < 2 ^ 63 := by
        have := hfirst hi
        rw [hnumber hi]
        omega
      have := hpage (.ofNat i) hfit
      rwa [hnumber hi] at this
    refine hrun.imp ?_
    rintro _ rfl
    refine ⟨by simp, ?items, ?totals, ?sizes⟩
    case items =>
      rw [List.flatMap_map]
      exact flatMap_pageOf hsize
    case totals =>
      simp only [List.forall_mem_map]
      exact fun i _ => totals_answer _ ⟨.ofNat i, size, sort⟩ hsize htotal
    case sizes =>
      intro i x hx
      rw [List.getElem?_map, Option.map_eq_some_iff] at hx
      obtain ⟨j, hj, rfl⟩ := hx
      obtain ⟨hi, rfl⟩ := List.getElem?_eq_some_iff.mp hj
      rw [List.length_range] at hi
      rw [List.getElem_range]
      have hlength : (page i).items.length ≤ size.toNat :=
        (length_pageOf i size.toNat).trans_le (Nat.min_le_left ..)
      exact ⟨length_pageOf_eq hsize, length_pageOf_pos hsize hi, hlength⟩
  case behind =>
    intro number hlast hfit
    refine (hpage number hfit).imp ?_
    rintro _ rfl
    exact ⟨pageOf_eq_nil hsize hlast, totals_answer _ _ hsize htotal⟩

-- Two movies on a page each, the longer one first.
theorem pages_eq_listing_longest :
    ((List.range 2).mapM fun i => findPage (Database.reader Engine.sqlite) longMovies
      ⟨.ofNat i, 1, [⟨"duration", .descending⟩]⟩).Gives (Database.Holds .movie Tables.twoMovies)
      (fun pages => (pages.flatMap (·.items)).map (·.id) = [2, 1])
      (Database.Holds .movie Tables.twoMovies) := by
  have ho : [SortKey.mk "duration" .descending].mapM (OrderTerm.ofKey longMovies.schema) =
      .ok longestFirst := by rfl
  have hall : (Tables.twoMovies.listing Engine.sqlite longMovies.schema isLong longestFirst).map
      (·.id) = [2, 1] := by
    rw [Tables.map_id_listing]
    exact congrArg (List.map (·.id)) ranked_twoMovies
  have hlength := congrArg List.length hall
  rw [List.length_map] at hlength
  have hsession (number : UInt32) :=
    session_longMovies ⟨number, 1, [⟨"duration", .descending⟩]⟩ (by decide : 1 < 2000)
  have ⟨hrun, _⟩ := (pages_eq_listing Engine.sqlite_lawful (by rfl) (by decide) predicate_longMovies ho
    Tables.isSound_twoMovies).2 1 (by decide) (by rw [hlength]; decide) (by rw [hlength]; decide) hsession
  rw [hlength] at hrun
  refine hrun.imp ?_
  rintro pages ⟨_, hitems, _⟩
  rw [hitems, hall]

end Search

end MediaCatalog
