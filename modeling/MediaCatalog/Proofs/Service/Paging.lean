import MediaCatalog.Proofs.Query.Paging
import MediaCatalog.Proofs.Query.SortKey
import MediaCatalog.Proofs.Service.Listing
import MediaCatalog.Proofs.Text.Number
import Mathlib.Data.Rat.Floor

namespace MediaCatalog

open Http

theorem clamp?_eq_some {low high : UInt32} (h : low ≤ high) (n : UInt32) :
    clamp? low high n = some (max low (min n high)) := by
  rw [clamp?, if_neg (UInt32.not_lt.mpr h), ← apply_ite some, ← apply_ite some]
  congr 1
  rw [← UInt32.toNat_inj, UInt32.toNat_max, UInt32.toNat_min]
  rw [UInt32.le_iff_toNat_le] at h
  grind [UInt32.lt_iff_toNat_lt]

-- The number of pages is the quotient of two numbers, rounded up.
theorem ceil_div_eq_pageCount (total : Nat) {size : Nat} (hs : 0 < size) :
    ⌈(total : ℚ) / size⌉ = pageCount total size := by
  have hsize : (0 : ℚ) < size := by exact_mod_cast hs
  have hall : (total : ℚ) ≤ pageCount total size * size := by exact_mod_cast le_pageCount_mul total hs
  have hone : ((pageCount total size : ℚ) - 1) * size < total := by
    cases hcount : pageCount total size with
    | zero =>
      have htotal : (0 : ℚ) ≤ total := Nat.cast_nonneg total
      push_cast
      linarith
    | succ i =>
      have hlt : i * size < total := (lt_pageCount hs).mp (hcount ▸ Nat.lt_succ_self i)
      push_cast
      rw [add_sub_cancel_right]
      exact_mod_cast hlt
  rw [Int.ceil_eq_iff, lt_div_iff₀ hsize, div_le_iff₀ hsize]
  exact_mod_cast And.intro hone hall

namespace Query

-- What a number of a query is: what it says without the blanks around it, or a default if it is not given.
inductive Means (default : Nat) : Option String → Nat → Prop
  | absent : Means default none default
  | given {raw : String} {n : Nat} (decimal : Text.IsDecimal (Text.trim raw) n) (fits : n < 2 ^ 32) :
    Means default (some raw) n

-- Why there is no page for a query: its page or its size is no number, or there is no page of its number, or one of
-- its sort parameters is malformed.
inductive IsTurnedDown (p : Paging) (q : Query) : Prop
  | page (h : ∀ n, ¬Means p.firstPage.toNat q.page n)
  | size (h : ∀ n, ¬Means p.defaultSize.toNat q.size n)
  | below {n : Nat} (means : Means p.firstPage.toNat q.page n) (h : n < p.firstPage.toNat)
  | sort {parameter : String} {x : Fault} (mem : parameter ∈ q.sort) (h : SortKey.Offends parameter x)

-- What the page that a client knows by a number is like.
structure IsServed (p : Paging) (q : Query) (number : Nat) (r : PageRequest) : Prop where
  known   : Means p.firstPage.toNat q.page number
  page    : p.firstPage.toNat ≤ number ∧ r.page.toNat = number - p.firstPage.toNat
  size    : 1 ≤ r.size.toNat ∧ r.size.toNat ≤ p.maxSize.toNat
  wanted  : ∀ n, Means p.defaultSize.toNat q.size n → 1 ≤ n → n ≤ p.maxSize.toNat → r.size.toNat = n
  default : q.size = none → r.size = p.defaultSize
  offset  : (number - p.firstPage.toNat) * r.size.toNat < 2 ^ 63 →
    r.offset.toInt = ((number - p.firstPage.toNat) * r.size.toNat : Nat)
  pages   : ∀ {α : Type} (items : List α) (total : Nat), total + r.size.toNat ≤ 2 ^ 63 →
    (Page.answer items r (.ofNat total)).totalPages.toInt = ⌈(total : ℚ) / r.size.toNat⌉ ∧
    (r.page.toNat < (Page.answer items r (.ofNat total)).totalPages.toInt ↔
      (number - p.firstPage.toNat) * r.size.toNat < total)

section Numbers

variable {parameter : String} {default n : UInt32} {raw : Option String}

theorem means_unique {d m n : Nat} (hm : Means d raw m) (hn : Means d raw n) : m = n := by
  cases hm with
  | absent => cases hn; rfl
  | given hm =>
    cases hn with
    | given hn => exact hm.unique hn

theorem Means.lt_size {n : Nat} (h : Means default.toNat raw n) : n < UInt32.size := by
  cases h with
  | absent => exact default.toNat_lt
  | given _ hfits => exact hfits

theorem count_eq_ok : count parameter default raw = .ok n ↔ Means default.toNat raw n.toNat := by
  cases raw with
  | none =>
    rw [count, Except.pure_eq_ok]
    constructor
    · rintro rfl
      exact .absent
    · intro h
      generalize hn : n.toNat = m at h
      cases h
      exact UInt32.toNat_inj.mp hn.symm
  | some raw =>
    have hsize : UInt32.size = 2 ^ 32 := rfl
    have hmeans : Means default.toNat (some raw) n.toNat ↔
        Text.readNat? (UInt32.size - 1) (Text.trim raw) = some n.toNat := by
      rw [Text.readNat?_eq_some]
      constructor
      · intro h
        cases h with
        | given hn hfits => exact ⟨hn, by omega⟩
      · rintro ⟨hn, hfits⟩
        exact .given hn (by omega)
    rw [hmeans, count]
    cases hr : Text.readNat? (UInt32.size - 1) (Text.trim raw) with
    | none => simp
    | some m =>
      have hm := (Text.readNat?_eq_some.mp hr).2
      rw [Except.pure_eq_ok, Option.some.injEq, ← UInt32.toNat_inj, UInt32.toNat_ofNat_of_lt' (by omega)]

theorem exists_count (r : Nat → Prop) : (∃ n, count parameter default raw = .ok n ∧ r n.toNat) ↔
    ∃ n, Means default.toNat raw n ∧ r n := by
  simp only [count_eq_ok]
  constructor
  · rintro ⟨n, hn, hr⟩
    exact ⟨_, hn, hr⟩
  · rintro ⟨n, hn, hr⟩
    have hofNat : (UInt32.ofNat n).toNat = n := UInt32.toNat_ofNat_of_lt' hn.lt_size
    exact ⟨.ofNat n, by rwa [hofNat], by rwa [hofNat]⟩

end Numbers

section Requests

variable {q : Query} {p : Paging} {r : PageRequest}

-- Where nothing comes to nothing, what can fail is left.
theorem mk_bind {ε α β : Type} {x : Except ε α} {f : α → ExceptT ε Option β} {g : α → Except ε β}
    (h : ∀ a, f a = ExceptT.mk (some (g a))) : ExceptT.mk (some x) >>= f = ExceptT.mk (some (x >>= g)) := by
  cases x with
  | error => rfl
  | ok a => exact h a

theorem pageRequest?_eq_some (hmax : 1 ≤ p.maxSize) (q : Query) : q.pageRequest? p = some (q.pageRequest p) := by
  change (_ : ExceptT Fault Option PageRequest) = ExceptT.mk (some (q.pageRequest p))
  rw [pageRequest]
  refine mk_bind fun page => ?_
  dsimp only
  split
  case isTrue => rfl
  case isFalse =>
    refine mk_bind fun size => ?_
    rw [clamp?_eq_some hmax]
    exact mk_bind fun sort => rfl

theorem exists_pageRequest : (∃ r, q.pageRequest p = .ok r) ↔
    (∃ n, Means p.firstPage.toNat q.page n ∧ p.firstPage.toNat ≤ n) ∧ (∃ n, Means p.defaultSize.toNat q.size n) ∧
      ∀ s ∈ q.sort, ∃ k, SortKey.Asks s k := by
  have hpage : (∃ n, count "page" p.firstPage q.page = .ok n ∧ p.firstPage.toNat ≤ n.toNat) ↔ _ :=
    exists_count (p.firstPage.toNat ≤ ·)
  have hsize : (∃ n, count "size" p.defaultSize q.size = .ok n ∧ True) ↔ _ := exists_count fun _ => True
  simp only [and_true] at hsize
  rw [← SortKey.exists_readAll, ← hpage, ← hsize]
  simp only [pageRequest_eq_ok, UInt32.le_iff_toNat_le]
  constructor
  · rintro ⟨r, page, hpage, hfirst, size, hsize, sort, hsort, rfl⟩
    exact ⟨⟨page, hpage, hfirst⟩, ⟨size, hsize⟩, ⟨sort, hsort⟩⟩
  · rintro ⟨⟨page, hpage, hfirst⟩, ⟨size, hsize⟩, ⟨sort, hsort⟩⟩
    exact ⟨_, page, hpage, hfirst, size, hsize, sort, hsort, rfl⟩

theorem isTurnedDown_iff : IsTurnedDown p q ↔ ∃ x, q.pageRequest p = .error x := by
  have herror : (∃ x, q.pageRequest p = .error x) ↔ ¬∃ r, q.pageRequest p = .ok r := by
    cases q.pageRequest p <;> simp
  rw [herror, exists_pageRequest]
  constructor
  · rintro (h | h | ⟨hn, hlt⟩ | ⟨hm, h⟩) ⟨⟨n, hpage, hfirst⟩, ⟨m, hsize⟩, hsort⟩
    case page => exact h n hpage
    case size => exact h m hsize
    case below => exact absurd (means_unique hn hpage ▸ hfirst) (Nat.not_le.mpr hlt)
    case sort => exact SortKey.not_exists_asks.mpr ⟨_, h⟩ (hsort _ hm)
  · intro h
    by_contra hnot
    refine h ⟨?page, ?size, fun s hs => ?sort⟩
    case page =>
      by_contra hpage
      refine hnot (.page fun n hn => ?_)
      exact hnot (.below hn (Nat.lt_of_not_le fun hfirst => hpage ⟨n, hn, hfirst⟩))
    case size =>
      by_contra hsize
      exact hnot (.size fun n hn => hsize ⟨n, hn⟩)
    case sort =>
      by_contra hsort
      have ⟨x, hx⟩ := SortKey.not_exists_asks.mp hsort
      exact hnot (.sort hs hx)

theorem isServed_of_pageRequest (hdefault : p.defaultSize ≠ 0) (hmax : p.maxSize ≠ 0)
    (hle : p.defaultSize ≤ p.maxSize) (hr : q.pageRequest p = .ok r) : ∃ number, IsServed p q number r := by
  obtain ⟨page, hpage, hfirst, size, hsize, sort, -, rfl⟩ := pageRequest_eq_ok.mp hr
  have hmaxNat := UInt32.pos_iff_ne_zero.mpr hmax
  have hdefaultNat := UInt32.pos_iff_ne_zero.mpr hdefault
  rw [UInt32.lt_iff_toNat_lt] at hmaxNat hdefaultNat
  rw [UInt32.le_iff_toNat_le] at hle
  have hclamp := toNat_clamp p size
  have hpageNat : (page - p.firstPage).toNat = page.toNat - p.firstPage.toNat :=
    UInt32.toNat_sub_of_le page p.firstPage hfirst
  have hmeans := count_eq_ok.mp hsize
  generalize hs : max 1 (min size p.maxSize) = s at hclamp
  have hpos : 0 < s.toNat := by omega
  refine ⟨page.toNat, {
    known := count_eq_ok.mp hpage
    page := ⟨UInt32.le_iff_toNat_le.mp hfirst, hpageNat⟩
    size := ⟨hpos, by simp only; omega⟩
    wanted := fun n hn hlow hhigh => ?wanted
    default := fun hnone => ?default
    offset := fun hfit => ?offset
    pages := fun items total hfit => ?pages }⟩
  case wanted =>
    have heq := means_unique hmeans hn
    simp only
    omega
  case default =>
    rw [hnone] at hmeans
    generalize hn : size.toNat = n at hmeans
    cases hmeans
    apply UInt32.toNat_inj.mp
    simp only
    omega
  case offset =>
    rw [← hpageNat] at hfit ⊢
    rw [(PageRequest.toInt_offset_eq_iff _).mpr hfit, Nat.cast_mul]
  case pages =>
    have hfit : total + s.toNat ≤ 2 ^ 63 := hfit
    have hcount : pageCount total s.toNat < 2 ^ 63 := Nat.lt_of_le_of_lt (Nat.div_le_self ..) (by omega)
    rw [Page.totalPages_answer items _ hpos hfit, Int64.toInt_ofNat_of_lt hcount, ceil_div_eq_pageCount total hpos]
    refine ⟨rfl, ?_⟩
    rw [← hpageNat, ← lt_pageCount hpos, Int.ofNat_lt]

end Requests

end Query

namespace Run

variable {σ α β : Type} {x : σ}

theorem outcome_bind_eq_ok {m : Run σ α} {f : α → Run σ β} {b : β} (h : (m >>= f).outcome x = .ok b) :
    ∃ a y, m.outcome x = .ok a ∧ (f a).outcome y = .ok b := by
  rw [outcome] at h
  cases hm : (ExceptT.run m).run x with
  | mk a y =>
    cases a with
    | error =>
      rw [ExceptT.run_bind_of_error hm] at h
      cases h
    | ok a =>
      rw [ExceptT.run_bind_of_ok hm] at h
      exact ⟨a, y, congrArg Prod.fst hm, h⟩

theorem outcome_ofExcept {e : Except Fault α} : (liftM e : Run σ α).outcome x = e := by
  cases e <;> rfl

end Run

namespace Service

variable {σ : Type} {c : Catalog σ} {settings : Settings} {kind : String} {r : Request} {x : σ} {response : Response}

-- An answer to a search has a page under the number that follows from the request.
theorem outcome_search_eq_ok (h : (search c settings kind r).outcome x = .ok response) :
    ∃ q request l page, Query.ofPairs r.parameters = .ok q ∧ q.pageRequest settings.paging = .ok request ∧
      response = .json 200 (Page.headers (request.page + settings.paging.firstPage) l page)
        (page.json (request.page + settings.paging.firstPage)) := by
  rw [search] at h
  obtain ⟨k, _, _, h⟩ := Run.outcome_bind_eq_ok h
  obtain ⟨q, _, hq, h⟩ := Run.outcome_bind_eq_ok h
  obtain ⟨request, _, hrequest, h⟩ := Run.outcome_bind_eq_ok h
  obtain ⟨l, _, _, h⟩ := Run.outcome_bind_eq_ok h
  obtain ⟨page, _, _, h⟩ := Run.outcome_bind_eq_ok h
  rw [Run.outcome_ofExcept] at hq hrequest
  cases h
  exact ⟨q, request, l, page, Except.mapError_eq_ok.mp hq, hrequest, rfl⟩

end Service

theorem Config.check_of_ofText {env : Environment} {text : String} {c : Config} (h : ofText env text = .ok c) :
    c.check = .ok () := by
  rw [ofText] at h
  obtain ⟨expanded, -, h⟩ := Except.bind_eq_ok.mp h
  split at h
  case h_1 c' _ =>
    obtain ⟨⟨⟩, hcheck, h⟩ := Except.bind_eq_ok.mp h
    cases h
    exact hcheck
  case h_2 => cases h

-- With any configuration that is accepted, every size can be moved into its bounds, and pages are as clients of the
-- server know them. The number in an answer is the one that was asked for, or that of the first page.
theorem Service.paging_of_ofText {env : Config.Environment} {text : String} {config : Config}
    (h : Config.ofText env text = .ok config) (q : Query) :
    let p := config.settings.paging
    p.firstPage.toNat = (if p.oneIndexed then 1 else 0) ∧
    q.pageRequest? p = some (q.pageRequest p) ∧
    ((∃ x, q.pageRequest p = .error x) ↔ q.IsTurnedDown p) ∧
    (∀ r, q.pageRequest p = .ok r → ∃ number, q.IsServed p number r) ∧
    ∀ {σ : Type} (c : Catalog σ) (x : σ) (kind : String) (r : Request) (response : Response),
      Query.ofPairs r.parameters = .ok q → (search c config.settings kind r).outcome x = .ok response →
      ∃ number, Query.Means p.firstPage.toNat q.page number ∧
        response.headers.lookup "x-page-number" = some (Text.decimalNat number) ∧
        ∃ fields, response.body = .json (.obj fields) ∧ fields.lookup "pageNumber" = some (.int number) := by
  have ⟨hdefault, hmax, hle, _⟩ := Config.check_eq_ok.mp (Config.check_of_ofText h)
  have hserved (r : PageRequest) (hr : q.pageRequest config.settings.paging = .ok r) :
      ∃ number, q.IsServed config.settings.paging number r :=
    Query.isServed_of_pageRequest hdefault hmax hle hr
  refine ⟨?first, Query.pageRequest?_eq_some ?bounds q, Query.isTurnedDown_iff.symm, hserved, ?echo⟩
  case first =>
    rw [Paging.firstPage]
    split <;> rfl
  case bounds =>
    rw [UInt32.le_iff_toNat_le]
    exact UInt32.lt_iff_toNat_lt.mp (UInt32.pos_iff_ne_zero.mpr hmax)
  case echo =>
    intro σ c x kind r response hq hresponse
    obtain ⟨q', request, l, page, hq', hrequest, rfl⟩ := outcome_search_eq_ok hresponse
    cases hq.symm.trans hq'
    obtain ⟨number, hserved⟩ := hserved request hrequest
    have hnumber : (request.page + config.settings.paging.firstPage).toNat = number := by
      have hlt : number < 2 ^ 32 := hserved.known.lt_size
      have ⟨hfirst, hpage⟩ := hserved.page
      rw [UInt32.toNat_add, hpage, Nat.sub_add_cancel hfirst, Nat.mod_eq_of_lt hlt]
    subst hnumber
    exact ⟨_, hserved.known, rfl, _, rfl, rfl⟩

-- A server that counts its pages from one.
theorem Service.paging_of_ofText_oneIndexed :
    let text := "server: {host: h, port: 1}\ndatabase: {type: d, url: u}\npagination: {max_size: 20, one_indexed: true}"
    let q : Query := { Query.empty with page := " +3", size := "500" }
    let r : Request := ⟨"GET", "/api/v1/movies?page=+%2B3&size=500", [], ""⟩
    let c : Catalog Unit := ⟨⟨pure (), fun _ => pure 45, fun _ => pure [], fun _ => pure [], pure ()⟩,
      ⟨pure (), fun _ => pure 1, fun _ => pure (), pure (), id⟩, pure (), pure ()⟩
    ∃ config, Config.ofText (fun _ => none) text = .ok config ∧ Query.ofPairs r.parameters = .ok q ∧
      q.pageRequest config.settings.paging = .ok ⟨2, 20, []⟩ ∧ q.IsServed config.settings.paging 3 ⟨2, 20, []⟩ ∧
      ∃ response, (search c config.settings "movies" r).outcome () = .ok response ∧
        response.headers.lookup "x-page-number" = some "3" := by
  intro text q r c
  let config : Config := ⟨⟨"h", 1⟩, ⟨"d", "u", 10, 30⟩, ⟨⟨20, 20, true⟩, "en-US"⟩, "info"⟩
  have hconfig : Config.ofText (fun _ => none) text = .ok config := Except.toOption_eq_some.mp (by decide +kernel)
  have hparameters : r.parameters = [("page", " +3"), ("size", "500")] := by decide +kernel
  have hq : Query.ofPairs r.parameters = .ok q := hparameters ▸ rfl
  have hrequest : q.pageRequest ⟨20, 20, true⟩ = .ok ⟨2, 20, []⟩ := rfl
  obtain ⟨response, hresponse⟩ : ∃ response, (search c ⟨⟨20, 20, true⟩, "en-US"⟩ "movies" r).outcome () =
      .ok response := by
    rw [search, hq]
    exact ⟨_, rfl⟩
  have ⟨_, _, _, hserved, hecho⟩ := paging_of_ofText hconfig q
  obtain ⟨number, hserved⟩ := hserved _ hrequest
  have hnumber : number = 3 := by
    obtain ⟨hfirst, hpage⟩ := hserved.page
    have hone : config.settings.paging.firstPage.toNat = 1 := rfl
    have htwo : (2 : UInt32).toNat = 2 := rfl
    dsimp only at hpage
    omega
  have ⟨echoed, hknown, hheader, _⟩ := hecho c () "movies" r response hq hresponse
  cases Query.means_unique hserved.known hknown
  subst hnumber
  exact ⟨config, hconfig, hq, hrequest, hserved, response, hresponse, hheader⟩

end MediaCatalog
