import MediaCatalog.Proofs.Search.Complement
import MediaCatalog.Proofs.Service.Invariant
import MediaCatalog.Proofs.Service.Listing

namespace MediaCatalog

open Sql MediaCatalog.Filter

-- Both filters can be searched by if the engine takes their tokens, and as many of them at once.
theorem Database.canSearch_isIn_notIn {κ : Type} {e : Engine κ} {fits : FieldType → κ → Prop} (h : e.Faithful fits)
    (x : Database κ) {k : Kind} {l : Language} {name operand raw raw' : String} {f : Field} {a : Criterion}
    (hf : (Schema.registered k).find? name = some f) (hd : Operator.detect raw = (.isIn, operand))
    (hd' : Operator.detect raw' = (.notIn, operand)) (ha : Criterion.ofField f raw = .ok a)
    (htakes : ∀ v ∈ l.values ++ a.operands, e.takes v)
    (hdepth : f.type.isList → ∀ n ∈ e.limits.depth, (tokens operand).length + 10 ≤ n) :
    ∃ b : Criterion, b.operands = a.operands ∧ (a.condition f).Opposes e (b.condition f) ∧
      x.CanSearch e k (.ofList [(name, raw)]) l (l.predicate ++ [a.condition f]) ∧
      x.CanSearch e k (.ofList [(name, raw')]) l (l.predicate ++ [b.condition f]) := by
  obtain ⟨b, hb, hsame, hab, hsmall⟩ := Criterion.exists_notIn (e := e) hd hd' ha
  have hheight : 3 ≤ heightIn f operand ∧ ∀ n ∈ e.limits.depth, heightIn f operand + 6 ≤ n := by
    rw [heightIn]
    split
    case isTrue hlist => exact ⟨by omega, hdepth hlist⟩
    case isFalse => exact ⟨by decide, fun n hn => Nat.le_trans (by decide) (h.depth n hn)⟩
  have hsearch {raw : String} {c : Criterion} (hc : Criterion.ofField f raw = .ok c)
      (hoperands : c.operands = a.operands) (hmem : c.condition f ∈ [a.condition f, b.condition f]) :
      x.CanSearch e k (.ofList [(name, raw)]) l (l.predicate ++ [c.condition f]) := by
    obtain ⟨hle, hrefused⟩ := hsmall _ hmem
    have hcondition := Search.condition_eq_ok.mpr ⟨f, c, hf, hc, rfl⟩
    have hvalues : ∀ v ∈ l.values ++ ((c.condition f).phrase .sqlite).values, e.takes v := by
      rwa [Criterion.values_condition, hoperands]
    exact canSearch_of_condition hcondition hvalues hrefused hheight.1 hle hheight.2
  exact ⟨b, hsame, hab, hsearch ha rfl (by simp), hsearch hb hsame (by simp)⟩

namespace Service

open Http

-- Filters by the same list of tokens are answered alike, where the sizes of pages leave room for the tokens and the
-- database takes them. What they show are the entries with their translations that the search without filters shows,
-- each of them once. Where a filter is on a field of the entry itself, or the search is in one language, no entry
-- falls under both, and the totals add up.
theorem shows_isIn_or_notIn (dialect : Dialect) (settings : Settings) (requests : List Request) (k : Kind)
    (l : Language) {name operand : String} {f : Field} {a : Criterion} {sort : List SortKey}
    {order : List OrderTerm} (hf : (Schema.registered k).find? name = some f)
    (hd : Operator.detect (":" ++ operand) = (.isIn, operand)) (ha : Criterion.ofField f (":" ++ operand) = .ok a)
    (htakes : ∀ v ∈ l.values ++ a.operands, dialect.engine.takes v)
    (hdepth : f.type.isList → ∀ n ∈ dialect.engine.limits.depth, (tokens operand).length + 10 ≤ n)
    (ho : sort.mapM (OrderTerm.ofKey (Schema.registered k)) = .ok order)
    (hl : ∀ n ∈ dialect.engine.limits.order, sort.length < n) :
    let c := Database.catalog dialect.engine
    let x := ((requests.mapM (respond c settings)).run .empty).2
    let isIn := Dictionary.ofList [(name, ":" ++ operand)]
    let notIn := Dictionary.ofList [(name, "!:" ++ operand)]
    ∀ size : UInt32, (l.values ++ a.operands).length + max 2 size.toNat ≤ dialect.engine.limits.values →
      let page (filter : Dictionary String) (number : UInt32) :=
        (c.findPage k filter l ⟨number, size, sort⟩).outcome x
      (∀ number, ∃ p q all, page isIn number = .ok p ∧ page notIn number = .ok q ∧ page ∅ number = .ok all ∧
        (f.owner = .root ∨ (∃ tag, l = .tag tag) → p.totalItems + q.totalItems = all.totalItems)) ∧
      (0 < size.toNat → (x.store.get k).roots.length ≤ 2 ^ 32 * size.toNat →
        let finds (filter : Dictionary String) (id : Int) :=
          ∃ item, c.Lists x k filter l sort size item ∧ item.id = id
        let shows (filter : Dictionary String) := c.Shows x k filter l sort size
        (∀ id, finds ∅ id ↔ finds isIn id ∨ finds notIn id) ∧
        (∀ id u, shows ∅ id u ↔ shows isIn id u ∨ shows notIn id u) ∧
        (∀ id u v, shows isIn id u → shows notIn id v → u.language ≠ v.language) ∧
        (f.owner = .root ∨ (∃ tag, l = .tag tag) → ∀ id, finds isIn id → ¬finds notIn id)) := by
  have h := dialect.faithful_engine
  have hkind : (Schema.registered k).kind = k := Schema.kind_registered k
  dsimp only
  obtain ⟨hx, _⟩ := run_requests h settings (Database.has_empty dialect.engine) requests
  generalize ((requests.mapM (respond (Database.catalog dialect.engine) settings)).run .empty).2 = x at hx ⊢
  have ht := hx.isSound h k
  obtain ⟨b, hsame, hab, hin, hnot⟩ :=
    Database.canSearch_isIn_notIn h x hf hd (Operator.detect_notIn operand) ha htakes hdepth
  have hall := Database.canSearch_unfiltered h x k (List.forall_mem_append.mp htakes).1
  -- All rows of an entry are alike where the filter is on its own field or there is one row only.
  have halike (hone : f.owner = .root ∨ ∃ tag, l = .tag tag) :
      ∀ r ∈ (x.store.get k).roots, ∀ i ∈ (x.store.get k).matching dialect.engine k l.predicate r,
        ∀ j ∈ (x.store.get k).matching dialect.engine k l.predicate r,
          (a.condition f).truth dialect.engine (i.get dialect.engine) =
            (a.condition f).truth dialect.engine (j.get dialect.engine) := by
    intro r hr i hi j hj
    exact Search.truth_eq_of_matching h.toLawful ht hkind hr hi hj hall.predicate hone a
  intro size hroom
  have hroom' {c : Criterion} (hc : c.operands = a.operands) :
      ((l.predicate ++ [c.condition f] : Predicate).values .sqlite).length + max 2 size.toNat ≤
        dialect.engine.limits.values := by
    rwa [Search.values_criterion, hc]
  have hroomIn := hroom' (c := a) rfl
  have hroomNot := hroom' hsame
  have hroomAll : (l.predicate.values .sqlite).length + max 2 size.toNat ≤ dialect.engine.limits.values := by
    rw [Search.values_language]
    rw [List.length_append] at hroom
    omega
  refine ⟨fun number => ?totals, fun hsize hnumber => ?shown⟩
  case totals =>
    refine ⟨_, _, _, hx.outcome_findPage h hin ⟨number, size, sort⟩ ho hl hroomIn,
      hx.outcome_findPage h hnot ⟨number, size, sort⟩ ho hl hroomNot,
      hx.outcome_findPage h hall ⟨number, size, sort⟩ ho hl hroomAll, fun hone => ?_⟩
    have hlength := Tables.length_found_opposes hab (halike hone)
    simp only [Page.answer, ← hlength, Int64.ofNat_add]
  case shown =>
    have hfindsAll (id : Int) := hx.finds_iff h hall ho hl hsize hroomAll hnumber id
    have hfindsIn (id : Int) := hx.finds_iff h hin ho hl hsize hroomIn hnumber id
    have hfindsNot (id : Int) := hx.finds_iff h hnot ho hl hsize hroomNot hnumber id
    have hshowsAll (id : Int) (u : Translation) := hx.shows_iff h hall ho hl hsize hroomAll hnumber id u
    have hshowsIn (id : Int) (u : Translation) := hx.shows_iff h hin ho hl hsize hroomIn hnumber id u
    have hshowsNot (id : Int) (u : Translation) := hx.shows_iff h hnot ho hl hsize hroomNot hnumber id u
    have hsame {r r' : StoredRow dialect.Held} (hr : r ∈ (x.store.get k).roots)
        (hr' : r' ∈ (x.store.get k).roots) (hid : r.id = r'.id) : r = r' :=
      List.inj_on_of_nodup_map ht.roots hr hr' hid
    refine ⟨fun id => ?found, fun id u => ?rows, fun id u v hu hv => ?apart, fun hone id hi hn => ?alone⟩
    case found =>
      simp only [hfindsAll, hfindsIn, hfindsNot, Tables.mem_found_opposes (p := l.predicate) hab,
        or_and_right, exists_or]
    case rows =>
      simp only [hshowsAll, hshowsIn, hshowsNot,
        Tables.mem_matching_opposes (p := l.predicate) hab, or_and_right, exists_or, and_or_left]
    case apart =>
      obtain ⟨r, hr, hid, i, hi, rfl⟩ := (hshowsIn id u).mp hu
      obtain ⟨r', hr', hid', j, hj, rfl⟩ := (hshowsNot id v).mp hv
      cases hsame hr hr' (hid.trans hid'.symm)
      obtain ⟨hi, ha⟩ := Tables.mem_matching_concat.mp hi
      obtain ⟨hj, hb⟩ := Tables.mem_matching_concat.mp hj
      intro heq
      have heq := Search.eq_of_language (s := ⟨Schema.registered k, ∅, l⟩) h.toLawful ht hkind hr hi hj heq
      exact (hab _).mp hb (heq ▸ ha)
    case alone =>
      obtain ⟨r, hr, hid⟩ := (hfindsIn id).mp hi
      obtain ⟨r', hr', hid'⟩ := (hfindsNot id).mp hn
      cases hsame (Tables.mem_found.mp hr).1 (Tables.mem_found.mp hr').1 (hid.trans hid'.symm)
      exact Tables.not_mem_found_opposes hab (halike hone) hr hr'

-- Of two movies one has a name out of a list, and the other one has not.
theorem shows_isIn_or_notIn_up :
    let c := Database.catalog Dialect.sqlite.engine
    let x := (([newMovie "Heat", newMovie "Up"].mapM (respond c Settings.standard)).run .empty).2
    let page (filter : Dictionary String) := (c.findPage .movie filter (.tag "en") ⟨0, 20, []⟩).outcome x
    ∃ p q all, page (.ofList [("name", ":Up, Alien")]) = .ok p ∧ page (.ofList [("name", "!:Up, Alien")]) = .ok q ∧
      page ∅ = .ok all ∧ p.totalItems + q.totalItems = all.totalItems := by
  have hf : (Schema.registered .movie).find? "name" = some (Schema.field .translation "name" .text) := by rfl
  have ha : Criterion.ofField (Schema.field .translation "name" .text) ":Up, Alien" =
      .ok (.ofScalar (.isIn [.text "Up", .text "Alien"])) := by rfl
  have hd : Operator.detect (":" ++ "Up, Alien") = (.isIn, "Up, Alien") := by rfl
  have ho : ([] : List SortKey).mapM (OrderTerm.ofKey (Schema.registered .movie)) = .ok [] := rfl
  have ⟨hpages, _⟩ := shows_isIn_or_notIn .sqlite Settings.standard [newMovie "Heat", newMovie "Up"] .movie
    (.tag "en") hf hd ha (by decide) (by decide) ho (by decide) 20 (by decide)
  obtain ⟨p, q, all, hp, hq, hall, htotals⟩ := hpages 0
  exact ⟨p, q, all, hp, hq, hall, htotals (.inr ⟨"en", rfl⟩)⟩

-- A request for the creation of a movie with a name in each of two languages.
def newMovieTwice : Request :=
  ⟨"POST", "/api/v1/movies", [("content-type", "application/json")],
    "\x7b\"translations\":[\x7b\"language\":\"en\",\"name\":\"Up\"\x7d," ++
      "\x7b\"language\":\"de\",\"name\":\"Oben\"\x7d]\x7d"⟩

def twice : Record :=
  ⟨.movie,
    [("duration", .null), ("release_date", .null), ("age_rating", .null), ("genres", .null), ("budget", .null)],
    [⟨"en", [("name", .text "Up"), ("synopsis", .null)]⟩, ⟨"de", [("name", .text "Oben"), ("synopsis", .null)]⟩]⟩

-- In all languages at once a movie is found under its name and, for the sake of its other name, under the negation
-- as well.
theorem finds_isIn_and_notIn :
    let c := Database.catalog Dialect.sqlite.engine
    let x := (([newMovieTwice].mapM (respond c Settings.standard)).run .empty).2
    let page (filter : Dictionary String) := (c.findPage .movie filter .any ⟨0, 20, []⟩).outcome x
    ∀ filter ∈ [.ofList [("name", ":Up")], .ofList [("name", "!:Up")], ∅],
      (page filter).toOption.map (fun p => (p.items.map (·.id), p.totalItems)) = some ([1], 1) := by
  have h := Dialect.sqlite.faithful_engine
  have hadd : taken? Dialect.sqlite.engine newMovieTwice = some twice := by decide +kernel
  have hempty := Database.has_empty Dialect.sqlite.engine
  have hx := (hempty.respond_add h Settings.standard hadd).2
  have hstore := (hempty.rests_respond_add h Settings.standard hadd).2.1
  rw [← run_mapM_singleton] at hx hstore
  dsimp only
  generalize (([newMovieTwice].mapM (respond (Database.catalog Dialect.sqlite.engine) Settings.standard)).run
    .empty).2 = x at hx hstore ⊢
  have hstore : x.store = (∅ : Store Engine.Cell).keep Engine.sqlite twice := hstore
  have hpage {filter : Dictionary String} {p : Predicate}
      (hp : x.CanSearch Dialect.sqlite.engine .movie filter .any p)
      (hroom : (p.values .sqlite).length + 20 ≤ 32766) :=
    hx.outcome_findPage h hp ⟨0, 20, []⟩ rfl (by decide) hroom
  rw [hstore] at hpage
  have hfilter {raw : String} {a : Condition} (ha : Search.condition .movie "name" raw = .ok a)
      (hr : ∀ row : Column → Engine.Cell, a.isRefused Engine.sqlite row = false) (hh : a.height ≤ 5) :
      x.CanSearch Dialect.sqlite.engine .movie (.ofList [("name", raw)]) .any [a] :=
    Database.canSearch_of_condition ha (fun _ _ => rfl) hr (by decide) hh fun n hn =>
      Nat.le_trans (by decide) (h.depth n hn)
  simp only [List.forall_mem_cons, List.not_mem_nil, false_imp_iff, implies_true, and_true]
  refine ⟨?_, ?_, ?_⟩
  · rw [hpage (hfilter (a := .isIn ⟨.translation, "name"⟩ [.text "Up"]) (by rfl) (fun _ => rfl) (by decide))
      (by decide)]
    decide +kernel
  · rw [hpage (hfilter (a := .not (.orFalse (.isIn ⟨.translation, "name"⟩ [.text "Up"]))) (by rfl) (fun _ => rfl)
      (by decide)) (by decide)]
    decide +kernel
  · rw [hpage (Database.canSearch_unfiltered h x .movie (l := .any) (by simp [Language.values])) (by decide)]
    decide +kernel

end Service

end MediaCatalog
