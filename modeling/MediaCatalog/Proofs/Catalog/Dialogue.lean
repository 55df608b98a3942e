import MediaCatalog.Catalog

namespace MediaCatalog

open Sql

-- What a client asks of a database, by what it is answered with.
inductive Operation : Type → Type
  | startRead : Operation Unit
  | count (c : Count) : Operation Int64
  | window (w : Window) : Operation (List Int)
  | rows (p : Projection) : Operation (List Row)
  | finishRead : Operation Unit
  | startWrite : Operation Unit
  | insertRoot (i : Insert) : Operation Int
  | insertTranslation (i : Insert) : Operation Unit
  | commit : Operation Unit

def Operation.run {σ β : Type} (r : Reader σ) (w : Writer σ) : Operation β → Run σ β
  | startRead           => r.start
  | count c             => r.count c
  | window q            => r.window q
  | rows p              => r.rows p
  | finishRead          => r.finish
  | startWrite          => w.start
  | insertRoot i        => w.insertRoot i
  | insertTranslation i => w.insertTranslation i
  | commit              => w.commit

-- A dialogue asks for one operation after the other and goes on as each of them turns out, so that other clients
-- can come in between any two operations.
inductive Dialogue (α : Type)
  | done (result : Except Fault α)
  | ask {β : Type} (op : Operation β) (next : Except Fault β → Dialogue α)
  | rollback (next : Dialogue α)

namespace Dialogue

variable {σ α β : Type}

def bind (m : Dialogue α) (f : α → Dialogue β) : Dialogue β :=
  match m with
  | done (.ok a)    => f a
  | done (.error e) => done (.error e)
  | ask op next     => ask op fun x => (next x).bind f
  | rollback next   => rollback (next.bind f)

instance : Monad Dialogue where
  pure a := done (.ok a)
  bind := bind

instance : MonadLift (Except Fault) Dialogue := ⟨done⟩

def perform (op : Operation β) : Dialogue β :=
  ask op done

theorem bind_bind {γ : Type} (m : Dialogue α) (f : α → Dialogue β) (g : β → Dialogue γ) :
    (m >>= f) >>= g = m >>= fun a => f a >>= g := by
  change (m.bind f).bind g = m.bind fun a => (f a).bind g
  induction m with
  | done x => cases x <;> rfl
  | ask op next ih => exact congrArg (ask op) (funext ih)
  | rollback next ih => exact congrArg rollback ih

-- What was written is given up if the dialogue fails.
def guarded : Dialogue α → Dialogue α
  | done (.ok a)    => done (.ok a)
  | done (.error f) => rollback (done (.error f))
  | ask op next     => ask op fun x => (next x).guarded
  | rollback next   => rollback next.guarded

-- Carries a dialogue through, with no one else in between.
def run (r : Reader σ) (w : Writer σ) : Dialogue α → Run σ α
  | done x        => fun s => (x, s)
  | ask op next   => fun s =>
    let (x, s) := op.run r w s
    (next x).run r w s
  | rollback next => fun s => next.run r w (w.rollback s)

section Clients

def findPage (s : Search) (request : PageRequest) : Dialogue (Page Entry) := do
  let count ← s.count
  let window ← s.window request
  perform .startRead
  let total ← perform (.count count)
  let ids ← perform (.window window)
  if ids.isEmpty then
    perform .finishRead
    return .answer [] request total
  else
    let rows ← perform (.rows (← s.projection ids))
    perform .finishRead
    return .answer (Row.assemble ids rows) request total

def findEntry (schema : Schema) (language : Language) (id : Int) : Dialogue (Option Entry) := do
  let projection ← (Search.mk schema ∅ language).projection [id]
  perform .startRead
  let rows ← perform (.rows projection)
  perform .finishRead
  return (Row.assemble [id] rows).head?

def write (r : Record) : Dialogue Int := do
  perform .startWrite
  let id ← perform (.insertRoot (.root r))
  r.translations.forM fun t => perform (.insertTranslation (.translation r.kind id t))
  perform .commit
  return id

def create (s : Schema) (d : Draft) : Dialogue Entry := do
  let record ← (d.prepare s).mapError Refusal.fault
  let id ← (write record).guarded
  match ← findEntry s .any id with
  | some e => return e
  | none   =>
    done (.error (.internal ("Created " ++ s.kind.name ++ " " ++ Text.decimal id ++ " could not be read back")))

end Clients

section Running

variable (r : Reader σ) (w : Writer σ)

theorem run_pure (a : α) : (pure a : Dialogue α).run r w = pure a :=
  rfl

theorem run_lift (x : Except Fault α) :
    (liftM x : Dialogue α).run r w = (liftM x : ExceptT Fault (StateM σ) α) := by
  cases x <;> rfl

theorem run_perform (op : Operation β) : (perform op).run r w = op.run r w :=
  rfl

theorem run_bind (m : Dialogue α) (f : α → Dialogue β) :
    (m >>= f).run r w = m.run r w >>= fun a => (f a).run r w := by
  change (m.bind f).run r w = _
  induction m with
  | done x => cases x <;> rfl
  | ask op next ih =>
    funext s
    exact congrFun (ih _) _
  | rollback next ih =>
    funext s
    exact congrFun ih _

theorem run_map (f : α → β) (m : Dialogue α) : (f <$> m).run r w = f <$> m.run r w := by
  rw [map_eq_pure_bind (m := ExceptT Fault (StateM σ))]
  exact run_bind r w m fun a => pure (f a)

theorem run_guarded (m : Dialogue α) (s : σ) : m.guarded.run r w s =
    match m.run r w s with
    | (.ok a, s)    => (.ok a, s)
    | (.error f, s) => (.error f, w.rollback s) := by
  induction m generalizing s with
  | done x => cases x <;> rfl
  | ask op next ih => exact ih _ _
  | rollback next ih => exact ih _

theorem run_forM {γ : Type} (as : List γ) (f : γ → Dialogue Unit) :
    (as.forM f).run r w = as.forM fun a => (f a).run r w := by
  induction as with
  | nil => rfl
  | cons a as ih =>
    change ((f a) >>= fun _ => as.forM f).run r w = _
    rw [run_bind, ih]
    rfl

theorem run_findPage (s : Search) (request : PageRequest) :
    (findPage s request).run r w = s.findPage r request := by
  simp only [findPage, Search.findPage, run_bind, run_lift, run_perform, run_pure, apply_ite (run r w),
    Operation.run]

theorem run_findEntry (schema : Schema) (language : Language) (id : Int) :
    (findEntry schema language id).run r w = Search.findEntry r schema language id := by
  simp only [findEntry, Search.findEntry, run_bind, run_lift, run_perform, run_pure, Operation.run]

theorem run_write (record : Record) : (write record).run r w = record.write w := by
  simp only [write, Record.write, run_bind, run_forM, run_perform, run_pure, Operation.run]

theorem run_create (s : Schema) (d : Draft) : (create s d).run r w = d.createEntry r w s := by
  have hinsert (record : Record) : (write record).guarded.run r w = record.insert w := by
    funext x
    rw [run_guarded, run_write, Record.insert]
    cases record.write w x with
    | mk a y => cases a <;> rfl
  simp only [create, Draft.createEntry, Draft.create, run_bind, run_lift, hinsert, run_findEntry, bind_assoc]
  refine congrArg _ (funext fun record => congrArg _ (funext fun id => congrArg _ (funext fun x => ?_)))
  cases x <;> rfl

end Running

end Dialogue

-- What a client has in mind.
inductive Task
  | create (k : Kind) (d : Draft)
  | search (k : Kind) (filter : Dictionary String) (l : Language) (request : PageRequest)
  | fetch (k : Kind) (l : Language) (id : Int)

-- What comes of it.
inductive Outcome
  | created (x : Entry)
  | page (p : Page Entry)
  | found (x : Option Entry)

namespace Task

variable {σ : Type}

def run (c : Catalog σ) : Task → Run σ Outcome
  | create k d                  => .created <$> c.create k d
  | search k filter l request   => .page <$> c.findPage k filter l request
  | fetch k l id                => .found <$> c.findEntry k l id

def dialogue : Task → Dialogue Outcome
  | create k d                => .created <$> Dialogue.create (Schema.registered k) d
  | search k filter l request => .page <$> Dialogue.findPage ⟨Schema.registered k, filter, l⟩ request
  | fetch k l id              => .found <$> Dialogue.findEntry (Schema.registered k) l id

-- Each task is carried through as the catalog does it.
theorem run_dialogue (c : Catalog σ) (t : Task) : t.dialogue.run c.reader c.writer = t.run c := by
  cases t <;>
    simp only [dialogue, run, Dialogue.run_map, Dialogue.run_create, Dialogue.run_findPage,
      Dialogue.run_findEntry, Catalog.create, Catalog.findPage, Catalog.findEntry]

end Task

end MediaCatalog
