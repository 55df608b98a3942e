import MediaCatalog.Proofs.Catalog.Trial
import MediaCatalog.Proofs.Service.Requests

namespace MediaCatalog

open Sql

section Agreement

variable {σ α β : Type} {same : σ → σ → Prop}

-- What is done gives the same result from related states, and leads to related states.
structure Run.Agrees (m : Run σ α) (same : σ → σ → Prop) : Prop where
  run : ∀ x y, same x y →
    ((ExceptT.run m).run x).1 = ((ExceptT.run m).run y).1 ∧
      same ((ExceptT.run m).run x).2 ((ExceptT.run m).run y).2

namespace Run.Agrees

theorem pure (a : α) : Agrees (Pure.pure a : Run σ α) same :=
  ⟨fun _ _ h => ⟨rfl, h⟩⟩

theorem throw (f : Fault) : Agrees (MonadExcept.throw f : Run σ α) same :=
  ⟨fun _ _ h => ⟨rfl, h⟩⟩

theorem bind {m : Run σ α} {f : α → Run σ β} (hm : m.Agrees same) (hf : ∀ a, (f a).Agrees same) :
    (m >>= f).Agrees same := by
  refine ⟨fun x y h => ?_⟩
  have hm := hm.run x y h
  rw [ExceptT.run_bind, StateT.run_bind, StateT.run_bind]
  generalize (ExceptT.run m).run x = out, (ExceptT.run m).run y = out' at hm
  obtain ⟨a, x'⟩ := out
  obtain ⟨a', y'⟩ := out'
  obtain ⟨rfl, h'⟩ := hm
  cases a with
  | ok a => exact (hf a).run x' y' h'
  | error f => exact ⟨rfl, h'⟩

-- What is known before anything is done.
theorem ofExcept {x : Except Fault α} {f : α → Run σ β} (hf : ∀ a, x = .ok a → (f a).Agrees same) :
    Agrees ((liftM x : ExceptT Fault (StateM σ) α) >>= f : Run σ β) same := by
  cases x with
  | ok a => exact ⟨(hf a rfl).run⟩
  | error e => exact ⟨fun _ _ h => ⟨rfl, h⟩⟩

end Run.Agrees

-- A reader that answers alike about a kind in related states.
structure Reader.AgreesOn (r : Reader σ) (k : Kind) (same : σ → σ → Prop) : Prop where
  start  : r.start.Agrees same
  count  : ∀ c, c.kind = k → (r.count c).Agrees same
  window : ∀ w, w.kind = k → (r.window w).Agrees same
  rows   : ∀ p, p.schema.kind = k → (r.rows p).Agrees same
  finish : r.finish.Agrees same

variable {c : Catalog σ} {k : Kind} (hc : c.reader.AgreesOn k same)

include hc

theorem Catalog.agrees_findEntry (l : Language) (id : Int) : (c.findEntry k l id).Agrees same := by
  refine .ofExcept fun p hp => ?_
  obtain ⟨q, _, rfl⟩ := Search.projection_eq_ok.mp hp
  exact hc.start.bind fun _ => (hc.rows _ (Schema.kind_registered k)).bind fun _ =>
    hc.finish.bind fun _ => .pure _

theorem Catalog.agrees_findPage (filter : Dictionary String) (l : Language) (request : PageRequest) :
    (c.findPage k filter l request).Agrees same := by
  refine .ofExcept fun n hn => .ofExcept fun w hw => ?_
  obtain ⟨_, _, rfl⟩ := Search.count_eq_ok.mp hn
  obtain ⟨_, _, _, _, rfl⟩ := Search.window_eq_ok.mp hw
  have hkind := Schema.kind_registered k
  refine hc.start.bind fun _ => (hc.count _ hkind).bind fun _ => (hc.window _ hkind).bind fun ids => ?_
  split
  case isTrue => exact hc.finish.bind fun _ => .pure _
  case isFalse =>
    refine .ofExcept fun p hp => ?_
    obtain ⟨_, _, rfl⟩ := Search.projection_eq_ok.mp hp
    exact (hc.rows _ hkind).bind fun _ => hc.finish.bind fun _ => .pure _

namespace Service

open Http

variable {r : Request} (settings : Settings)

theorem agrees_handle {route : Route} (hroute : Route.ofPath? r.path = some route) (hr : kind? r = some k)
    (hm : r.method ≠ "POST") : (handle c settings r route).Agrees same := by
  rw [kind?, Option.bind_eq_bind, hroute, Option.bind_some] at hr
  cases route with
  | health => cases hr
  | entries segment =>
    obtain ⟨kind, hsegment, hk⟩ := Option.bind_eq_some_iff.mp hr
    have hk := Except.toOption_eq_some.mp hk
    simp only [handle, hsegment, if_neg hm]
    unfold search
    refine .ofExcept fun k' hk' => .ofExcept fun query _ => .ofExcept fun request _ => .ofExcept fun l _ => ?_
    cases hk.symm.trans hk'
    exact (Catalog.agrees_findPage hc _ _ _).bind fun _ => .pure _
  | entry segment number =>
    obtain ⟨kind, hsegment, hk⟩ := Option.bind_eq_some_iff.mp hr
    have hk := Except.toOption_eq_some.mp hk
    simp only [handle, hsegment]
    split
    case h_1 | h_2 => exact .pure _
    case h_3 kind' id hkind' _ =>
      cases hkind'
      unfold fetch
      refine .ofExcept fun k' hk' => ?_
      cases hk.symm.trans hk'
      dsimp only
      split
      case h_2 => exact .throw _
      case h_1 =>
        refine .ofExcept fun l _ => (Catalog.agrees_findEntry hc _ _).bind fun x => ?_
        cases x with
        | some x => exact .pure _
        | none => exact .throw _

-- A request that is not for a creation is answered alike.
theorem respond_eq (hr : kind? r = some k) (hm : r.method ≠ "POST") {x y : σ} (h : same x y) :
    ((respond c settings r).run x).1 = ((respond c settings r).run y).1 := by
  cases hroute : Route.ofPath? r.path with
  | none => simp [kind?, hroute] at hr
  | some route =>
    cases hmethod : route.methods.contains r.method with
    | false =>
      unfold respond
      simp only [hroute, hmethod, Bool.not_false, if_true]
      rfl
    | true =>
      rw [run_respond c settings hroute hmethod, run_respond c settings hroute hmethod]
      exact congrArg (responded r) ((agrees_handle hc settings hroute hr hm).run x y h).1

end Service

end Agreement

section Instances

variable {κ : Type} {e : Engine κ} {k : Kind}

-- Databases that have the same tables of a kind.
structure Database.Same (k : Kind) (d d' : Database κ) : Prop where
  isOpen : d.isOpen = d'.isOpen
  store  : d.store.get k = d'.store.get k
  view   : d.view.get k = d'.view.get k

namespace Database

theorem agrees_connect {task : String} {f : Database κ → Database κ}
    (hf : ∀ d d', d.Same k d' → (f d).Same k (f d')) : (connect task f).Agrees (Same k) := by
  refine ⟨fun d d' h => ?_⟩
  rw [connect, Run.run_get_bind, Run.run_get_bind, ← h.isOpen]
  cases d.isOpen
  case false => exact ⟨rfl, h⟩
  case true => exact ⟨rfl, hf d d' h⟩

theorem agrees_ask {α : Type} {task : String} {p : Predicate} {more : List Value} {answer : Tables κ → α} :
    (ask e task k p more answer).Agrees (Same k) := by
  refine ⟨fun d d' h => ?_⟩
  rw [ask, Run.run_get_bind, Run.run_get_bind, h.view]
  dsimp only
  cases (d'.view.get k).excess? e k p more <;> exact ⟨rfl, h⟩

theorem reader_agreesOn (e : Engine κ) (k : Kind) : (reader e).AgreesOn k (Same k) where
  start := agrees_connect fun _ _ h => ⟨h.isOpen, h.store, h.store⟩
  count c hk := by
    subst hk
    exact agrees_ask.bind fun _ => .pure _
  window w hk := by
    subst hk
    refine agrees_ask.bind fun _ => ?_
    split
    case h_1 => exact .throw _
    case h_2 => exact .pure _
  rows p hk := by
    subst hk
    exact agrees_ask
  finish := .pure _

end Database

namespace Trial

-- Databases that have the same tables of a kind and go on failing in the same way.
structure Same (k : Kind) (x y : Trial κ) : Prop where
  database : x.database.Same k y.database
  faults   : x.faults = y.faults

theorem agrees_step {α : Type} {m : Run (Database κ) α} (hm : m.Agrees (Database.Same k)) :
    (step m).Agrees (Same k) := by
  refine ⟨fun x y h => ?_⟩
  have hrun (x : Trial κ) : (ExceptT.run (step m)).run x = step m x := rfl
  rw [hrun, hrun, step, step, ← h.faults]
  cases x.faults.head?.join with
  | some reason => exact ⟨rfl, h.database, rfl⟩
  | none =>
    obtain ⟨hresult, hsame⟩ := hm.run x.database y.database h.database
    exact ⟨hresult, hsame, rfl⟩

theorem reader_agreesOn (e : Engine κ) (k : Kind) : (reader e).AgreesOn k (Same k) :=
  have h := Database.reader_agreesOn e k
  { start := agrees_step h.start
    count := fun c hk => agrees_step (h.count c hk)
    window := fun w hk => agrees_step (h.window w hk)
    rows := fun p hk => agrees_step (h.rows p hk)
    finish := agrees_step h.finish }

theorem same_holding {s s' : Store κ} (h : s.get k = s'.get k) (faults : List (Option String)) :
    (holding s faults).Same k (holding s' faults) :=
  ⟨⟨rfl, h, h⟩, rfl⟩

end Trial

end Instances

end MediaCatalog
