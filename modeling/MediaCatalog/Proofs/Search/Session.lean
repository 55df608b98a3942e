import MediaCatalog.Proofs.Search.Statement
import MediaCatalog.Proofs.Store.Answer
import MediaCatalog.Proofs.Store.Excess
import MediaCatalog.Proofs.Store.Reference
import MediaCatalog.Store
import Mathlib.Data.List.Perm.Subperm

namespace MediaCatalog

open Sql

namespace Run

variable {σ α β : Type}

-- From every state that satisfies `before`, something is done that succeeds, gives an answer as described and
-- leads to a state that satisfies `after`.
def Gives (m : Run σ α) (before : σ → Prop) (answer : α → Prop) (after : σ → Prop) : Prop :=
  ∀ x, before x → ∃ a y, (ExceptT.run m).run x = (.ok a, y) ∧ answer a ∧ after y

theorem run_get_bind (f : σ → Run σ α) (x : σ) :
    (ExceptT.run (get >>= f)).run x = (ExceptT.run (f x)).run x :=
  rfl

namespace Gives

variable {before middle after : σ → Prop}

theorem pure {answer : α → Prop} {a : α} (h : answer a) :
    Gives (Pure.pure a : Run σ α) before answer before :=
  fun x hx => ⟨a, x, rfl, h, hx⟩

theorem bind {m : Run σ α} {f : α → Run σ β} {answer : α → Prop} {answer' : β → Prop}
    (hm : Gives m before answer middle)
    (hf : ∀ a, answer a → Gives (f a) middle answer' after) : Gives (m >>= f) before answer' after := by
  intro x hx
  have ⟨a, y, hr, ha, hy⟩ := hm x hx
  have ⟨b, z, hr', hb, hz⟩ := hf a ha y hy
  exact ⟨b, z, (ExceptT.run_bind_of_ok hr).trans hr', hb, hz⟩

-- What is known before anything is done.
theorem ofExcept {x : Except Fault α} {a : α} {f : α → Run σ β} {answer : β → Prop} (h : x = .ok a)
    (hf : Gives (f a) before answer after) :
    Gives ((liftM x : Run σ α) >>= f) before answer after := by
  subst h
  exact hf

theorem imp {m : Run σ α} {answer answer' : α → Prop} (h : Gives m before answer after)
    (ha : ∀ a, answer a → answer' a) : Gives m before answer' after := by
  intro x hx
  have ⟨a, y, hr, hp, hy⟩ := h x hx
  exact ⟨a, y, hr, ha a hp, hy⟩

end Gives

end Run

-- A window has no more entries than a page, and none that there is not.
theorem Sql.Window.Answers.length_le {κ : Type} {e : Engine κ} {t : Tables κ} {w : Window} {ids : List Int}
    (h : w.Answers e t ids) : ids.length ≤ w.limit.toNatClampNeg ∧ ids.length ≤ t.roots.length := by
  obtain ⟨all, ⟨hnodup, hmem⟩, -, rfl⟩ := h
  have hsub : all ⊆ t.roots.map (·.id) := by
    intro id hid
    obtain ⟨j, hj, rfl⟩ := (hmem id).mp hid
    obtain ⟨r, hr, hm⟩ := Tables.mem_selected.mp hj
    exact (Tables.mem_matching.mp hm).1 ▸ List.mem_map_of_mem hr
  have hall : all.length ≤ t.roots.length := (hnodup.subperm hsub).length_le.trans_eq (List.length_map _)
  refine ⟨List.length_take_le .., Nat.le_trans ?_ hall⟩
  rw [List.length_take, List.length_drop]
  omega

-- A session in which the statements of a search are answered from the same tables. The states `inside` are
-- those between its start and its end.
structure Session {κ σ : Type} (e : Engine κ) (t : Tables κ) (r : Reader σ) (s : Search)
    (request : PageRequest) (before inside after : σ → Prop) : Prop where
  start  : r.start.Gives before (fun _ => True) inside
  count  : ∀ c, s.count = .ok c → (r.count c).Gives inside (c.Answers e t) inside
  window : ∀ w, s.window request = .ok w → (r.window w).Gives inside (w.Answers e t) inside
  rows   : ∀ w ids p, s.window request = .ok w → w.Answers e t ids → ids ≠ [] →
    s.projection ids = .ok p → (r.rows p).Gives inside (p.Answers e t) inside
  finish : r.finish.Gives inside (fun _ => True) after

-- A search of which no statement is too much for an engine. The last one is about the entries that the window before
-- it is answered with.
structure Search.IsAnswered {κ : Type} (e : Engine κ) (t : Tables κ) (s : Search) (request : PageRequest) : Prop where
  count  : ∀ c, s.count = .ok c → t.excess? e c.kind c.condition [] = none
  window : ∀ w, s.window request = .ok w → t.excess? e w.kind w.condition w.bounds = none ∧ w.excess? e = none
  rows   : ∀ w ids p, s.window request = .ok w → w.Answers e t ids → s.projection ids = .ok p →
    t.excess? e p.schema.kind p.condition [] = none

namespace Database

variable {κ : Type} {e : Engine κ} {fits : FieldType → κ → Prop} {t : Tables κ} {s : Search}
  {request : PageRequest}

-- An open database that holds tables of a kind.
def Holds (k : Kind) (t : Tables κ) (d : Database κ) : Prop :=
  d.isOpen ∧ d.store.get k = t

-- A database whose transaction sees the tables that it holds.
def Sees (k : Kind) (t : Tables κ) (d : Database κ) : Prop :=
  d.Holds k t ∧ d.view.get k = t

theorem gives_ask {α : Type} {task : String} {k : Kind} {p : Predicate} {more : List Value} {answer : Tables κ → α}
    (hx : t.excess? e k p more = none) :
    (ask e task k p more answer).Gives (Sees k t) (· = answer t) (Sees k t) := by
  intro d hd
  have ⟨_, hv⟩ := hd
  subst hv
  refine ⟨_, d, ?_, rfl, hd⟩
  rw [ask, Run.run_get_bind]
  simp only [hx]
  rfl

-- Unless a statement is too much for the engine, all statements of a search in a database in memory are answered
-- from the tables that the database holds.
theorem session (h : e.Lawful fits) (hs : s.schema.IsSound)
    (hc : (s.schema.fields.map (·.column)).Nodup) (ht : t.IsSound e fits s.schema)
    (hx : s.IsAnswered e t request) :
    Session e t (reader e) s request (Holds s.schema.kind t) (Sees s.schema.kind t)
      (Holds s.schema.kind t) where
  start := by
    intro d hd
    refine ⟨(), d.transact, ?_, trivial, hd, hd.2⟩
    rw [reader, connect, Run.run_get_bind, if_pos hd.1]
    rfl
  count c hcount := by
    have hnone := hx.count c hcount
    obtain ⟨p, hp, rfl⟩ := Search.count_eq_ok.mp hcount
    exact (gives_ask hnone).bind fun n hn =>
      .pure (hn ▸ Tables.count_answers ⟨s.schema.kind, p⟩)
  window w hw := by
    obtain ⟨hask, hnone⟩ := hx.window w hw
    obtain ⟨p, hp, order, ho, rfl⟩ := Search.window_eq_ok.mp hw
    have hfits := Tables.exists_fits (p := p) ht.fits (Search.order_columns ho)
    refine (gives_ask hask).bind fun ids hids => ?_
    subst hids
    rw [hnone]
    exact .pure (Tables.window_answers h ⟨s.schema.kind, p, order, request.limit, request.offset⟩ hfits)
  rows w ids q hw hids _ hq := by
    have hnone := hx.rows w ids q hw hids hq
    obtain ⟨p, hp, rfl⟩ := Search.projection_eq_ok.mp hq
    refine (gives_ask hnone).imp fun rows hrows => ?_
    rw [hrows]
    refine Tables.projection_answers h hs hc fun j hj => ?_
    have ⟨l, hl⟩ := ht.exists_language hj
    rw [hl]
    exact h.fits_scalar (v := .text l) trivial
  finish d hd := ⟨(), d, rfl, trivial, hd.1⟩

end Database

section Example

-- Two movies, the first of which has two translations.
def Tables.twoMovies : Tables Engine.Cell where
  roots := [⟨1, [("duration", .int 90)]⟩, ⟨2, [("duration", .int 120)]⟩]
  translations := [
    ⟨1, [("movie_id", .int 1), ("language", .text "en"), ("name", .text "Heat")]⟩,
    ⟨2, [("movie_id", .int 1), ("language", .text "de"), ("name", .text "Hitze")]⟩,
    ⟨3, [("movie_id", .int 2), ("language", .text "en"), ("name", .text "Ran")]⟩]

theorem Tables.isSound_twoMovies : twoMovies.IsSound Engine.sqlite (fun _ _ => True) .movie where
  roots := by decide
  owned := by
    simp [twoMovies, StoredRow.get, Schema.movie, Kind.foreignKey, Engine.sqlite, Engine.Cell.ofValue]
  language := by
    simp [twoMovies, StoredRow.get, List.lookup_cons, Engine.sqlite, Engine.Cell.ofValue]
  single := by decide
  fits _ _ _ _ := trivial

namespace Search

def longMovies : Search :=
  ⟨.movie, .ofList [("duration", ">60")], .any⟩

def isLong : Predicate :=
  [.compares ⟨.root, "duration"⟩ .greater (.int 60)]

theorem predicate_longMovies : longMovies.predicate none = .ok isLong := by
  rfl

theorem isAnswered_longMovies {request : PageRequest} (hl : request.sort.length < 2000) :
    longMovies.IsAnswered Engine.sqlite Tables.twoMovies request := by
  have hexcess (scope : Option (List Int)) {more : List Value} (hmore : (scope.getD []).length + more.length ≤ 2) :
      Tables.twoMovies.excess? Engine.sqlite .movie (isLong ++ (scope.map among).toList) more = none := by
    refine Tables.excess?_of_filters .any scope isLong (Engine.excess?_eq_none.mpr ⟨?_, fun _ _ => rfl⟩)
      (fun a ha _ => ?_) (le_refl 3) (fun a ha => ?_) (by decide)
    · have hvalues : (Language.any.values ++ isLong.values .sqlite).length = 1 := rfl
      have hlimit : Engine.sqlite.limits.values = 32766 := rfl
      rw [List.length_append, List.length_append, hvalues, List.length_map, hlimit]
      omega
    · cases List.mem_singleton.mp ha
      rfl
    · cases List.mem_singleton.mp ha
      exact le_refl 3
  constructor
  case count =>
    intro c hc
    obtain ⟨p, hp, rfl⟩ := count_eq_ok.mp hc
    cases predicate_longMovies.symm.trans hp
    exact hexcess none (by decide)
  case window =>
    intro w hw
    obtain ⟨p, hp, order, ho, rfl⟩ := window_eq_ok.mp hw
    cases predicate_longMovies.symm.trans hp
    have hlength : order.length = request.sort.length := (List.mapM_eq_ok.mp ho).length_eq.symm
    refine ⟨hexcess none (le_refl 2), ?_⟩
    have horder : Engine.sqlite.limits.order.any (· < order.length + 1) = false :=
      decide_eq_false (by omega)
    rw [Window.excess?, horder]
    rfl
  case rows =>
    intro w ids p _ hids hp
    obtain ⟨q, hq, rfl⟩ := projection_eq_ok.mp hp
    cases (predicate_some predicate_longMovies).symm.trans hq
    exact hexcess (some ids) hids.length_le.2

theorem session_longMovies (request : PageRequest) (hl : request.sort.length < 2000) :
    Session Engine.sqlite Tables.twoMovies (Database.reader Engine.sqlite) longMovies request
      (Database.Holds .movie Tables.twoMovies) (Database.Sees .movie Tables.twoMovies)
      (Database.Holds .movie Tables.twoMovies) :=
  Database.session Engine.sqlite_lawful (Schema.validate_eq_ok.mp rfl) (by decide) Tables.isSound_twoMovies
    (isAnswered_longMovies hl)

end Search

end Example

end MediaCatalog
