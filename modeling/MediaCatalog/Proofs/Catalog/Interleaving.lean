import MediaCatalog.Proofs.Catalog.Dialogue
import MediaCatalog.Proofs.Catalog.Keeper
import Mathlib.Logic.Function.Basic
import Mathlib.Logic.Relation

namespace MediaCatalog

open Sql

-- A transaction that has been committed: whose it was, and its rows with their numbers.
structure Commit where
  client : Nat
  rows   : List (Insert × Int)

section Place

variable {κ : Type} (e : Engine κ)

def Tables.place (t : Tables κ) (x : Insert × Int) : Tables κ :=
  t.add x.1.owner ⟨x.2, x.1.held e⟩

def Store.place (s : Store κ) (x : Insert × Int) : Store κ :=
  s.set x.1.kind ((s.get x.1.kind).place e x)

-- The state after some transactions.
def Store.ofCommits (cs : List Commit) : Store κ :=
  (cs.flatMap (·.rows)).foldl (place e) ∅

end Place

-- Where a client stands in its use of the database.
inductive Phase
  | idle
  -- A session that began when there were `since` transactions and has not asked anything yet.
  | reading (since : Nat)
  -- A session that sees the state after `n` transactions.
  | looking (n : Nat)
  | writing (rows : List (Insert × Int))

namespace Phase

def Sees (cs : List Commit) : Phase → Nat → Prop
  | reading since, n => since ≤ n ∧ n ≤ cs.length
  | looking m,     n => n = m
  | _,             _ => False

variable {κ : Type}

-- A question is answered from the state that the session sees, and from then on it sees this state.
def Answers (e : Engine κ) (cs : List Commit) (p : Phase) (k : Kind) (answer : Tables κ → Prop) (p' : Phase) :
    Prop :=
  ∃ n, p.Sees cs n ∧ answer ((Store.ofCommits e (cs.take n)).get k) ∧ p' = looking n

end Phase

-- What an operation of a client does that does not fail. The number of a row is up to the database, but two entries
-- of a kind cannot be committed under one number.
def Operation.Does {κ : Type} (e : Engine κ) (client : Nat) (cs : List Commit) {β : Type} :
    Operation β → Phase → β → Phase → List Commit → Prop
  | startRead,           _, _,  p', cs' => p' = .reading cs.length ∧ cs' = cs
  | count c,             p, n,  p', cs' => p.Answers e cs c.kind (c.Answers e · n) p' ∧ cs' = cs
  | window w,            p, is, p', cs' => p.Answers e cs w.kind (w.Answers e · is) p' ∧ cs' = cs
  | rows q,              p, rs, p', cs' => p.Answers e cs q.schema.kind (q.Answers e · rs) p' ∧ cs' = cs
  | finishRead,          _, _,  p', cs' => p' = .idle ∧ cs' = cs
  | startWrite,          _, _,  p', cs' => p' = .writing [] ∧ cs' = cs
  | insertRoot i,        p, id, p', cs' => ∃ xs, p = .writing xs ∧ p' = .writing (xs ++ [(i, id)]) ∧ cs' = cs
  | insertTranslation i, p, _,  p', cs' =>
    ∃ xs id, p = .writing xs ∧ p' = .writing (xs ++ [(i, id)]) ∧ cs' = cs
  | commit,              p, _,  p', cs' =>
    ∃ xs, p = .writing xs ∧ p' = .idle ∧ cs' = cs ++ [⟨client, xs⟩] ∧
      ∀ x ∈ xs, x.1.owner = .root → x.2 ∉ ((Store.ofCommits e cs).get x.1.kind).roots.map (·.id)

-- A client, together with the faults that it has met.
structure Client where
  rest   : Dialogue Outcome
  phase  : Phase
  faults : List Fault

-- One step of a client.
inductive Client.Step {κ : Type} (e : Engine κ) (i : Nat) (cs : List Commit) : Client → Client → List Commit → Prop
  | answered {β : Type} {op : Operation β} {next : Except Fault β → Dialogue Outcome} {p p' : Phase}
    {faults : List Fault} {x : β} {cs' : List Commit} (h : op.Does e i cs p x p' cs') :
    Step e i cs ⟨.ask op next, p, faults⟩ ⟨next (.ok x), p', faults⟩ cs'
  | failed {β : Type} {op : Operation β} {next : Except Fault β → Dialogue Outcome} {p : Phase}
    {faults : List Fault} (reason : String) :
    Step e i cs ⟨.ask op next, p, faults⟩
      ⟨next (.error (.database reason)), p, faults ++ [.database reason]⟩ cs
  | rolledBack {next : Dialogue Outcome} {p : Phase} {faults : List Fault} :
    Step e i cs ⟨.rollback next, p, faults⟩ ⟨next, .idle, faults⟩ cs

-- A database with all of its clients.
structure World where
  commits : List Commit
  clients : Nat → Client

namespace World

-- An empty database, before any client has done anything.
def initial (tasks : Nat → Task) : World where
  commits := []
  clients i := ⟨(tasks i).dialogue, .idle, []⟩

theorem clients_initial (tasks : Nat → Task) (i : Nat) :
    (initial tasks).clients i = ⟨(tasks i).dialogue, .idle, []⟩ :=
  rfl

-- One client has moved on, and so may have what is committed.
def move (w : World) (i : Nat) (c : Client) (cs : List Commit) : World :=
  ⟨cs, Function.update w.clients i c⟩

section Move

variable (w : World) {i j : Nat} (c : Client) (cs : List Commit)

@[simp]
theorem clients_move_self : (w.move i c cs).clients i = c :=
  Function.update_self ..

theorem clients_move_of_ne (h : j ≠ i) : (w.move i c cs).clients j = w.clients j :=
  Function.update_of_ne h ..

end Move

variable {κ : Type} (e : Engine κ)

-- Some client takes a step.
inductive Step (w : World) : World → Prop
  | step {i : Nat} {c : Client} {cs : List Commit} (h : (w.clients i).Step e i w.commits c cs) :
    Step w (w.move i c cs)

def Reachable (tasks : Nat → Task) : World → Prop :=
  Relation.ReflTransGen (Step e) (initial tasks)

end World

end MediaCatalog
