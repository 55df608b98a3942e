import MediaCatalog.Proofs.Catalog.Keeper

namespace MediaCatalog.Database

open Sql

variable {κ : Type} (e : Engine κ)

def keeper : Keeper κ (Database κ) where
  catalog := catalog e
  store := store
  view := view
  IsReady d := d.isOpen

theorem catalog_keeper : (keeper e).catalog = catalog e :=
  rfl

variable {e} {sure : Prop} {s v : Store κ}

section Steps

-- A step that needs a connection.
theorem tries_connect {task : String} {f : Database κ → Database κ} {done : Unit → Database κ → Prop}
    (h : ∀ d, (keeper e).Rests sure s d → done () (f d)) :
    (connect task f).Tries sure ((keeper e).Rests sure s) done ((keeper e).Rests sure s) := by
  refine ⟨fun d hd => ?_⟩
  cases ho : d.isOpen with
  | true =>
    have hrun : (ExceptT.run (connect task f)).run d = (.ok (), f d) := by
      rw [connect, Run.run_get_bind, if_pos ho]
      rfl
    rw [hrun]
    exact h d hd
  | false =>
    have hrun : (ExceptT.run (connect task f)).run d =
        (.error (failure task "attempted to acquire a connection on a closed pool"), d) := by
      rw [connect, Run.run_get_bind, if_neg (by simp [ho])]
      rfl
    rw [hrun]
    exact ⟨fun hs => by simpa [keeper, ho] using hd.2 hs, rfl, hd⟩

-- A question is answered from the tables that the transaction sees.
theorem tries_ask {α : Type} {task : String} {k : Kind} {p : Predicate} {more : List Value}
    {answer : Tables κ → α} :
    (ask e task k p more answer).Tries (sure ∧ (v.get k).excess? e k p more = none) ((keeper e).Sees sure s v)
      (fun a d => a = answer (v.get k) ∧ (keeper e).Sees sure s v d) ((keeper e).Rests sure s) := by
  refine ⟨?_⟩
  rintro d ⟨hd, rfl⟩
  cases hx : (d.view.get k).excess? e k p more with
  | some x =>
    have hrun : (ExceptT.run (ask e task k p more answer)).run d = (.error (refusal task x.message), d) := by
      rw [ask, Run.run_get_bind]
      simp only [hx]
      rfl
    rw [hrun]
    exact ⟨fun hs => by simpa [keeper, hx] using hs.2, rfl, hd⟩
  | none =>
    have hrun : (ExceptT.run (ask e task k p more answer)).run d = (.ok (answer (d.view.get k)), d) := by
      rw [ask, Run.run_get_bind]
      simp only [hx]
      rfl
    rw [hrun]
    exact ⟨rfl, hd, rfl⟩

-- A row is written, unless something keeps it from being stored.
theorem tries_write (i : Insert) :
    (write e i).Tries (sure ∧ (v.get i.kind).hindrance? e i = none) ((keeper e).Sees sure s v)
      (fun id d => id = (v.get i.kind).nextId i.owner ∧ (v.get i.kind).hindrance? e i = none ∧
        (keeper e).Sees sure s (v.insert e i) d)
      ((keeper e).Rests sure s) := by
  refine ⟨?_⟩
  rintro d ⟨hd, rfl⟩
  cases hb : (d.view.get i.kind).hindrance? e i with
  | some reason =>
    have hrun : (ExceptT.run (write e i)).run d =
        (.error (refusal ("Failed to insert into " ++ i.table) reason), d) := by
      rw [write, Run.run_get_bind]
      simp only [hb]
      rfl
    rw [hrun]
    exact ⟨fun hs => by simpa [keeper, hb] using hs.2, rfl, hd⟩
  | none =>
    have hrun : (ExceptT.run (write e i)).run d =
        (.ok ((d.view.get i.kind).nextId i.owner), { d with view := d.view.insert e i }) := by
      rw [write, Run.run_get_bind]
      simp only [hb]
      rfl
    rw [hrun]
    exact ⟨rfl, hb, hd, rfl⟩

end Steps

theorem keeper_lawful (e : Engine κ) : (keeper e).Lawful e where
  checkHealth sure s := tries_connect fun _ hd => hd
  startRead sure s := tries_connect fun d hd => ⟨hd, hd.1⟩
  count c sure s v := (tries_ask.relax False.elim).bind fun n => .pure fun _ hd => hd.2
  window w sure s v := by
    refine (tries_ask.relax False.elim).bind fun ids => ?_
    split
    case h_1 => exact .throw fun _ hd => ⟨id, rfl, hd.2.1⟩
    case h_2 => exact .pure fun _ hd => hd.2
  rows p sure s v := tries_ask
  finish sure s v := .pure fun _ hd => hd.1
  startWrite sure s := tries_connect fun d hd => ⟨hd, hd.1⟩
  insertRoot i sure s v := tries_write i
  insertTranslation i sure s v := (tries_write i).bind fun _ => .pure fun _ hd => hd.2
  commit sure s v := by
    refine ⟨?_⟩
    rintro d ⟨hd, rfl⟩
    exact ⟨rfl, hd.2⟩
  rollback sure s d hd := hd

end MediaCatalog.Database
