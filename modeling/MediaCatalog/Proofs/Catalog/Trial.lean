import MediaCatalog.Proofs.Catalog.Memory

namespace MediaCatalog

open Sql

-- A database together with what its next steps fail by. Steps for which nothing is said do not fail.
structure Trial (κ : Type) where
  database : Database κ
  faults   : List (Option String)

namespace Trial

variable {κ α : Type}

-- An open database that holds a store and then fails in a given way.
def holding (s : Store κ) (faults : List (Option String)) : Trial κ :=
  ⟨⟨s, s, true⟩, faults⟩

def store (x : Trial κ) : Store κ :=
  x.database.store

def IsFaultless (x : Trial κ) : Prop :=
  ∀ f ∈ x.faults, f = none

def step (m : Run (Database κ) α) : Run (Trial κ) α := fun x =>
  match x.faults.head?.join with
  | some reason => (.error (.database reason), ⟨x.database, x.faults.tail⟩)
  | none        =>
    let (a, d) := m x.database
    (a, ⟨d, x.faults.tail⟩)

variable (e : Engine κ)

def reader : Reader (Trial κ) where
  start := step (Database.reader e).start
  count c := step ((Database.reader e).count c)
  window w := step ((Database.reader e).window w)
  rows p := step ((Database.reader e).rows p)
  finish := step (Database.reader e).finish

def writer : Writer (Trial κ) where
  start := step (Database.writer e).start
  insertRoot i := step ((Database.writer e).insertRoot i)
  insertTranslation i := step ((Database.writer e).insertTranslation i)
  commit := step (Database.writer e).commit
  rollback x := ⟨(Database.writer e).rollback x.database, x.faults⟩

def catalog : Catalog (Trial κ) where
  reader := reader e
  writer := writer e
  checkHealth := step Database.checkHealth
  createTables := step (Database.createTables true)

def keeper : Keeper κ (Trial κ) where
  catalog := catalog e
  store := store
  view x := x.database.view
  IsReady x := x.database.isOpen ∧ x.IsFaultless

theorem catalog_keeper : (keeper e).catalog = catalog e :=
  rfl

section Lawful

variable {e} {sure : Prop} {s v : Store κ}

-- A step does what the database does, unless it fails.
theorem tries_step {m : Run (Database κ) α} {sure' : Prop} {before failed : Database κ → Prop}
    {done : α → Database κ → Prop} (hm : m.Tries sure' before done failed) (hs : sure' → sure)
    (hfail : ∀ d, before d → failed d) :
    (step m).Tries sure' (fun x => before x.database ∧ (sure → x.IsFaultless))
      (fun a x => done a x.database ∧ (sure → x.IsFaultless))
      fun x => failed x.database ∧ (sure → x.IsFaultless) := by
  refine ⟨fun x ⟨hx, hfaultless⟩ => ?_⟩
  have htail (hs : sure) : ∀ f ∈ x.faults.tail, f = none := fun f hf =>
    hfaultless hs f (List.mem_of_mem_tail hf)
  have hrun : (ExceptT.run (step m)).run x = step m x := rfl
  rw [hrun, step]
  cases hf : x.faults.head?.join with
  | some reason =>
    refine ⟨fun hs' => ?_, rfl, hfail _ hx, htail⟩
    cases hfaultless (hs hs') _ (List.mem_of_mem_head? (Option.join_eq_some_iff.mp hf))
  | none =>
    have hm := hm.run x.database hx
    generalize hr : (ExceptT.run m).run x.database = out at hm
    have hr : m x.database = out := hr
    rw [hr]
    obtain ⟨a | a, d⟩ := out
    case error => exact ⟨hm.1, hm.2.1, hm.2.2, htail⟩
    case ok => exact ⟨hm, htail⟩

theorem rests_eq : (keeper e).Rests sure s = fun x =>
    (Database.keeper e).Rests sure s x.database ∧ (sure → x.IsFaultless) := by
  funext x
  simp [Keeper.Rests, keeper, Database.keeper, store, imp_and, and_assoc]

theorem sees_eq : (keeper e).Sees sure s v = fun x =>
    (Database.keeper e).Sees sure s v x.database ∧ (sure → x.IsFaultless) := by
  funext x
  simp [Keeper.Sees, Keeper.Rests, keeper, Database.keeper, store, imp_and, and_assoc, and_comm]

end Lawful

theorem keeper_lawful (e : Engine κ) : (keeper e).Lawful e := by
  have h := Database.keeper_lawful e
  have hid {sure : Prop} {s : Store κ} (d : Database κ) (hd : (Database.keeper e).Rests sure s d) :
      (Database.keeper e).Rests sure s d := hd
  have hseen {sure : Prop} {s v : Store κ} (d : Database κ) (hd : (Database.keeper e).Sees sure s v d) :
      (Database.keeper e).Rests sure s d := hd.1
  constructor
  all_goals intros; simp only [rests_eq, sees_eq]
  case checkHealth sure s => exact tries_step (h.checkHealth sure s) id hid
  case startRead sure s => exact tries_step (h.startRead sure s) id hid
  case count c sure s v => exact tries_step (h.count c sure s v) False.elim hseen
  case window w sure s v => exact tries_step (h.window w sure s v) False.elim hseen
  case rows p sure s v =>
    refine (tries_step (h.rows p sure s v) And.left hseen).imp (fun _ hx => hx) (fun _ _ hx => ?_) fun _ _ hx => hx
    exact and_assoc.mp hx
  case finish sure s v => exact tries_step (h.finish sure s v) id hseen
  case startWrite sure s => exact tries_step (h.startWrite sure s) id hid
  case insertRoot i sure s v =>
    refine (tries_step (h.insertRoot i sure s v) And.left hseen).imp (fun _ hx => hx) (fun _ _ hx => ?_)
      fun _ _ hx => hx
    exact ⟨hx.1.1, hx.1.2.1, hx.1.2.2, hx.2⟩
  case insertTranslation i sure s v =>
    refine (tries_step (h.insertTranslation i sure s v) And.left hseen).imp (fun _ hx => hx) (fun _ _ hx => ?_)
      fun _ _ hx => hx
    exact and_assoc.mp hx
  case commit sure s v => exact tries_step (h.commit sure s v) id hseen
  case rollback hx =>
    rw [rests_eq] at hx
    exact hx

end Trial

end MediaCatalog
