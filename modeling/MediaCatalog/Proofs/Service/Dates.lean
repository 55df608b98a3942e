import MediaCatalog.Proofs.Search.Dates
import MediaCatalog.Proofs.Service.Invariant

namespace MediaCatalog.Service

open Http Sql Calendar

-- The records of all requests that add one, by their kinds.
def additions (requests : List Request) : Contents :=
  (requests.filterMap addition?).foldl Contents.add fun _ => []

-- An engine that has all values of the records of a kind holds all of them.
theorem keeps_additions (d : Dialect) (settings : Settings) {requests : List Request} {k : Kind}
    (h : ∀ x ∈ additions requests k, x.2.isTaken d.engine) :
    let x := ((requests.mapM (respond (Database.catalog d.engine) settings)).run .empty).2
    (x.store.get k).Keeps d.engine (additions requests k) ∧ (additions requests k).Sound (Schema.registered k) := by
  have hhas := (run_requests d.faithful_engine settings (Database.has_empty d.engine) requests).1
  have hrecords : requests.filterMap (taken? d.engine) =
      (requests.filterMap addition?).filter (·.isTaken d.engine) := by
    rw [List.filter_filterMap]
    rfl
  have hall : (requests.filterMap (taken? d.engine)).foldl Contents.add (fun _ => []) k = additions requests k := by
    rw [additions] at h ⊢
    rw [Contents.foldl_add (b := fun _ => []) rfl, Contents.foldl_add (b := fun _ => []) rfl (requests.filterMap _),
      hrecords, List.filter_filter]
    refine congrArg (fun rs : List Record => rs.foldl Contents.add (fun _ => []) k) (List.filter_congr fun r hr => ?_)
    by_cases hk : r.kind = k
    case neg => simp [hk]
    subst hk
    obtain ⟨x, hx, rfl⟩ := Contents.exists_mem_foldl_add hr fun _ => []
    simp [h x hx]
  exact hall ▸ ⟨hhas.keeps k, hhas.sound k⟩

-- What is written for dates compares as the dates do where their years are in step, and only there; the years of
-- four digits are. Where it holds of all dates that are compared, filters by dates find the same entries with either
-- engine, and those that have all dates that they are sorted by come in the same order.
theorem dates_in_step (settings : Settings) (requests : List Request) (k : Kind) :
    (∀ d e : Date, (compare d.text e.text = compare d e ↔ InStep d.year e.year) ∧
      ∀ (c : Column) (r : Filter.Relation), r.IsOrder →
        ((Condition.compares c r (.date e)).truth Engine.sqlite (fun _ => Engine.sqlite.store (.date d)) =
          (Condition.compares c r (.date e)).truth Engine.postgres (fun _ => Engine.postgres.store (.date d)) ↔
            InStep d.year e.year)) ∧
    (∀ y z : Int, 0 ≤ y ∧ y ≤ 9999 → 0 ≤ z ∧ z ≤ 9999 → InStep y z) ∧
    ∀ (filter : Dictionary String) (l : Language) (sort : List SortKey) (p : Predicate) (order : List OrderTerm),
      let s : Search := ⟨Schema.registered k, filter, l⟩
      let listing (d : Dialect) : List Entry :=
        let x := ((requests.mapM (respond (Database.catalog d.engine) settings)).run .empty).2
        (x.store.get k).listing d.engine s.schema p order
      s.IsByDates sort → s.predicate none = .ok p → sort.mapM (OrderTerm.ofKey s.schema) = .ok order →
      s.KeepsStep p sort (additions requests k) →
        (listing .sqlite).Perm (listing .postgres) ∧
        (listing .sqlite).filter (Search.isDated sort) = (listing .postgres).filter (Search.isDated sort) := by
  refine ⟨fun d e => ⟨Date.compare_text_eq_iff, fun c r hr => ?relation⟩,
    fun y z hy hz => inStep_of_four_digits hy hz, ?searches⟩
  case relation =>
    have hequal : compare d.text e.text = .eq ↔ compare d e = .eq := by
      rw [compare_eq_iff_eq, Date.text_injective.eq_iff, Date.compare_eq_eq]
    rw [← Date.compare_text_eq_iff, ← hr.holds_eq_iff hequal]
    exact Option.some_inj
  case searches =>
    intro filter l sort p order s listing hd hp ho hstep
    have hsqlite : ∀ x ∈ additions requests k, x.2.isTaken Dialect.sqlite.engine := fun x _ => isTaken_sqlite x.2
    have ⟨hkeeps, hsound⟩ := keeps_additions .sqlite settings hsqlite
    have ⟨hkeeps', _⟩ := keeps_additions .postgres settings hstep.records
    exact Search.listing_of_keepsStep (Schema.isUsable_registered k) hd hp ho hsound hstep hkeeps hkeeps'

section Example

-- A request for the creation of a movie that was released on a day.
def newRelease (name date : String) : Request :=
  ⟨"POST", "/api/v1/movies", [("content-type", "application/json")],
    "\x7b\"release_date\":\"" ++ date ++ "\",\"translations\":[\x7b\"language\":\"en\",\"name\":\"" ++
      name ++ "\"\x7d]\x7d"⟩

def release (name : String) (d : Date) : Record :=
  ⟨.movie, [("duration", .null), ("release_date", .date d), ("age_rating", .null), ("genres", .null),
      ("budget", .null)],
    [⟨"en", [("name", .text name), ("synopsis", .null)]⟩]⟩

def sixties : Search :=
  ⟨Schema.registered .movie, .ofList [("release_date", "::1960-1-1, 1969-12-31")], .any⟩

def inSixties : Predicate :=
  [.between ⟨.root, "release_date"⟩ (.date ⟨1960, 1, 1, by decide⟩) (.date ⟨1969, 12, 31, by decide⟩)]

-- Of two movies one is of the sixties.
theorem dates_in_step_sixties :
    let requests := [newRelease "Playtime" "1967-12-16", newRelease "Up" "2009-5-28"]
    let order : List OrderTerm := [⟨⟨.root, "release_date"⟩, .ascending⟩]
    let listing (d : Dialect) : List Entry :=
      let x := ((requests.mapM (respond (Database.catalog d.engine) Settings.standard)).run .empty).2
      (x.store.get .movie).listing d.engine (Schema.registered .movie) inSixties order
    sixties.predicate none = .ok inSixties ∧ (listing .postgres).map (·.id) = [1] ∧
      (listing .sqlite).map (·.id) = [1] := by
  intro requests order listing
  let sort : List SortKey := [⟨"release_date", .ascending⟩]
  have hp : sixties.predicate none = .ok inSixties := by rfl
  have hfield : (Schema.registered .movie).find? "release_date" = some (Schema.field .root "release_date" .date) := by
    rfl
  have hdates : sixties.IsByDates sort :=
    ⟨List.forall_mem_singleton.mpr ⟨by rfl, _, hfield, rfl, rfl⟩,
      List.forall_mem_singleton.mpr ⟨_, hfield, rfl, rfl⟩⟩
  have hadditions : additions requests .movie =
      [(1, release "Playtime" ⟨1967, 12, 16, by decide⟩), (2, release "Up" ⟨2009, 5, 28, by decide⟩)] := by
    decide +kernel
  have hstored {d : Date} (h : (additions requests .movie).HasDate sixties.schema d) : 0 ≤ d.year ∧ d.year ≤ 9999 := by
    obtain ⟨x, hx, f, hf, hv⟩ := h
    have hcolumn : f.column ∈ ["duration", "release_date", "age_rating", "genres", "budget"] :=
      List.mem_map_of_mem (f := (·.column)) hf
    generalize f.column = column at hcolumn hv
    simp only [hadditions, List.mem_cons, List.not_mem_nil, or_false] at hx hcolumn
    rcases hx with rfl | rfl <;> rcases hcolumn with rfl | rfl | rfl | rfl | rfl <;> cases hv <;> decide
  have hbound {d : Date} (h : .date d ∈ inSixties.values .sqlite) : 0 ≤ d.year ∧ d.year ≤ 9999 := by
    have h : .date d ∈ ([.date ⟨1960, 1, 1, by decide⟩, .date ⟨1969, 12, 31, by decide⟩] : List Value) := h
    simp at h
    rcases h with rfl | rfl <;> decide
  have hstep : sixties.KeepsStep inSixties sort (additions requests .movie) :=
    ⟨fun _ _ hd he => inStep_of_four_digits (hstored hd) (hbound he),
      fun _ _ _ hd he => inStep_of_four_digits (hstored hd) (hstored he), by rw [hadditions]; decide +kernel, by decide⟩
  have hpostgres : (listing .postgres).map (·.id) = [1] := by decide +kernel
  obtain ⟨_, _, hsearches⟩ := dates_in_step Settings.standard requests .movie
  obtain ⟨hperm, _⟩ := hsearches sixties.filter .any sort inSixties order hdates hp (by rfl) hstep
  have hperm := hperm.map (·.id)
  rw [hpostgres] at hperm
  exact ⟨hp, hpostgres, List.perm_singleton.mp hperm⟩

-- A movie of the year 10000 is not later than one of 2016 for SQLite.
theorem dates_out_of_step :
    let d : Date := ⟨10000, 1, 1, by decide⟩
    let e : Date := ⟨2016, 11, 11, by decide⟩
    let p : Predicate := [.compares ⟨.root, "release_date"⟩ .greater (.date e)]
    let listing (dialect : Dialect) : List Entry :=
      let serve := respond (Database.catalog dialect.engine) Settings.standard
      let x := (([newRelease "Up" "+10000-01-01"].mapM serve).run .empty).2
      (x.store.get .movie).listing dialect.engine .movie p []
    Date.read? "+10000-01-01" = some d ∧ compare d.text e.text = .lt ∧ compare d e = .gt ∧
      (Search.mk .movie (.ofList [("release_date", ">2016-11-11")]) .any).predicate none = .ok p ∧
      (listing .postgres).map (·.id) = [1] ∧ (listing .sqlite).map (·.id) = [] :=
  ⟨by decide +kernel, by decide +kernel, by decide +kernel, by rfl, by decide +kernel, by decide +kernel⟩

end Example

end MediaCatalog.Service
