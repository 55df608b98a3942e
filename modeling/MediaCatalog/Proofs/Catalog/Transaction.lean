import MediaCatalog.Postgres
import MediaCatalog.Proofs.Except
import MediaCatalog.Proofs.Sql.Insert

namespace MediaCatalog

open Sql

-- A command that was carried out, and how it turned out.
inductive Event
  | start (outcome : Except Fault Unit)
  | insertRoot (table : String) (s : Statement) (outcome : Except Fault Int)
  | insertTranslation (table : String) (s : Statement) (outcome : Except Fault Unit)
  | commit (outcome : Except Fault Unit)

def Command.event {β : Type} : Command β → Except Fault β → Event
  | start                     => .start
  | insertRoot table s        => .insertRoot table s
  | insertTranslation table s => .insertTranslation table s
  | commit                    => .commit

namespace Event

def statement? : Event → Option Statement
  | start _                 => none
  | insertRoot _ s _        => some s
  | insertTranslation _ s _ => some s
  | commit _                => none

-- An event, and what it would have been with a fault.
inductive Fails : Event → Fault → Event → Prop
  | intro {β : Type} (c : Command β) (b : β) (x : Fault) : Fails (c.event (.ok b)) x (c.event (.error x))

-- The same event in the two dialects: placeholders are spelled otherwise, and one dialect asks for the number of a new
-- entry.
inductive Alike : Event → Event → Prop
  | start (o : Except Fault Unit) : Alike (.start o) (.start o)
  | insertRoot (table : String) (p : Phrase) (o : Except Fault Int) :
    Alike (.insertRoot table (p.statement .sqlite) o)
      (.insertRoot table ((p ++ ([.text " RETURNING id"] : Phrase)).statement .postgres) o)
  | insertTranslation (table : String) (p : Phrase) (o : Except Fault Unit) :
    Alike (.insertTranslation table (p.statement .sqlite) o) (.insertTranslation table (p.statement .postgres) o)
  | commit (o : Except Fault Unit) : Alike (.commit o) (.commit o)

end Event

theorem Postgres.writer_eq {σ : Type} (server : Server σ) :
    writer server = (transaction server).writer .postgres id :=
  rfl

namespace Record

-- The columns of a translation: the number of its entry and its language come first.
def placed (k : Kind) (id : Int) (u : LocalRecord) : Columns :=
  [(k.foreignKey, .int id), ("language", .text u.language)] ++ u.columns.given

-- What is done when nothing fails and the entry is given a number.
def plan (d : Dialect) (r : Record) (id : Int) : List Event :=
  let root := Insert.ofColumns d r.kind.rootTable r.root.given (d = .postgres)
  let translation (u : LocalRecord) := Insert.ofColumns d r.kind.translationTable (placed r.kind id u) false
  .start (.ok ()) :: .insertRoot r.kind.rootTable root (.ok id) ::
    (r.translations.map fun u => .insertTranslation r.kind.translationTable (translation u) (.ok ())) ++
    [.commit (.ok ())]

section Apart

variable (d : Dialect) (r : Record)

theorem gather_eq (names : List String) (values : List Value) (cs : Columns) :
    gather names values cs = (names ++ cs.given.map (·.1), values ++ cs.given.map (·.2)) := by
  induction cs generalizing names values with
  | nil => simp [gather, Columns.given]
  | cons c cs ih =>
    rw [gather]
    split
    case isTrue hv => simp [ih, Columns.given, hv]
    case isFalse hv => simp [ih, Columns.given, hv]

theorem statement_root : (Insert.root r).statement d =
    Insert.ofColumns d r.kind.rootTable r.root.given (d = .postgres) := by
  rw [Insert.statement_eq_ofColumns]
  simp [Insert.root, Insert.table]

theorem statement_translation (id : Int) (u : LocalRecord) : (Insert.translation r.kind id u).statement d =
    Insert.ofColumns d r.kind.translationTable (placed r.kind id u) false := by
  rw [Insert.statement_eq_ofColumns]
  simp [Insert.translation, Insert.table, placed]

theorem plan_eq (id : Int) : r.plan d id =
    .start (.ok ()) :: .insertRoot r.kind.rootTable ((Insert.root r).statement d) (.ok id) ::
      (r.translations.map fun u =>
        .insertTranslation r.kind.translationTable ((Insert.translation r.kind id u).statement d) (.ok ())) ++
      [.commit (.ok ())] := by
  simp only [plan, statement_root, statement_translation]

theorem write_eq_writeApart {σ : Type} (t : Transaction σ) (rollback : σ → σ) :
    r.write (t.writer d rollback) = r.writeApart d t := by
  simp only [write, writeApart, Transaction.writer, statement_root, statement_translation, gather_eq, List.unzip_eq_map]
  rfl

end Apart

end Record

-- What comes of a plan: all of its events and its answer, or its events up to one that fails, and the fault of that.
inductive Follows {α : Type} (plan : List Event) (answer : α) : Except Fault α → List Event → Prop
  | done : Follows plan answer (.ok answer) plan
  | failed (before : List Event) {after : List Event} {event event' : Event} {x : Fault}
    (place : plan = before ++ event :: after) (fails : event.Fails x event') :
    Follows plan answer (.error x) (before ++ [event'])

theorem Follows.cons {α : Type} {plan events : List Event} {answer : α} {result : Except Fault α}
    (h : Follows plan answer result events) (e : Event) : Follows (e :: plan) answer result (e :: events) := by
  cases h with
  | done => exact .done
  | failed before place fails => exact .failed (e :: before) (by rw [place, List.cons_append]) fails

namespace Writer

variable {σ α β : Type}

-- Something that is done and kept in a list.
def keep (c : Command β) (m : Run σ β) : Run (σ × List Event) β := fun (x, log) =>
  let (b, x) := m x
  (b, x, log ++ [c.event b])

-- Writes as before and keeps what it does.
def recorded (d : Dialect) (w : Writer σ) : Writer (σ × List Event) where
  start := keep .start w.start
  insertRoot i := keep (.insertRoot i.table (i.statement d)) (w.insertRoot i)
  insertTranslation i := keep (.insertTranslation i.table (i.statement d)) (w.insertTranslation i)
  commit := keep .commit w.commit
  rollback := fun (x, log) => (w.rollback x, log)

-- Something that is done as before and keeps events that follow a plan.
def Tells (m' : Run (σ × List Event) α) (m : Run σ α) (plan : List Event) (answer : α) (x : σ) : Prop :=
  ∀ log, ∃ events, (ExceptT.run m').run (x, log) =
      (((ExceptT.run m).run x).1, ((ExceptT.run m).run x).2, log ++ events) ∧
    Follows plan answer ((ExceptT.run m).run x).1 events

section Tells

variable {plan : List Event} {answer : α} {x : σ}

theorem tells_pure (a : α) : Tells (pure a) (pure a) [] a x :=
  fun log => ⟨[], by rw [List.append_nil]; rfl, .done⟩

theorem run_keep_of {c : Command β} {m : Run σ β} {result : Except Fault β} {y : σ}
    (h : (ExceptT.run m).run x = (result, y)) (log : List Event) :
    (ExceptT.run (keep c m)).run (x, log) = (result, y, log ++ [c.event result]) :=
  congrArg (fun (out : Except Fault β × σ) => (out.1, out.2, log ++ [c.event out.1])) h

-- A command comes before what follows from its answer, unless it fails.
theorem tells_keep {c : Command β} {m : Run σ β} {f' : β → Run (σ × List Event) α} {f : β → Run σ α}
    {plan : β → List Event} {answer : β → α}
    (h : ∀ b, Tells (f' b) (f b) (plan b) (answer b) ((ExceptT.run m).run x).2) (b₀ : β) :
    ∃ b, Tells (keep c m >>= f') (m >>= f) (c.event (.ok b) :: plan b) (answer b) x := by
  cases hm : (ExceptT.run m).run x with
  | mk result y =>
    cases result with
    | error fault =>
      refine ⟨b₀, fun log => ⟨[c.event (.error fault)], ?_⟩⟩
      rw [ExceptT.run_bind_of_error hm, ExceptT.run_bind_of_error (run_keep_of hm log)]
      exact ⟨rfl, .failed [] rfl (.intro c b₀ fault)⟩
    | ok b =>
      refine ⟨b, fun log => ?_⟩
      rw [hm] at h
      obtain ⟨events, hrun, hfollows⟩ := h b (log ++ [c.event (.ok b)])
      refine ⟨c.event (.ok b) :: events, ?_⟩
      rw [ExceptT.run_bind_of_ok hm, ExceptT.run_bind_of_ok (run_keep_of hm log), List.append_cons log _ events]
      exact ⟨hrun, hfollows.cons _⟩

theorem tells_keep_unit {c : Command Unit} {m : Run σ Unit} {f' : Run (σ × List Event) α} {f : Run σ α}
    (h : Tells f' f plan answer ((ExceptT.run m).run x).2) :
    Tells (keep c m >>= fun _ => f') (m >>= fun _ => f) (c.event (.ok ()) :: plan) answer x :=
  (tells_keep (fun _ => h) ()).elim fun _ h => h

-- Commands that answer nothing come in the order of what they are given for.
theorem tells_forM {τ : Type} {c : τ → Command Unit} {m : τ → Run σ Unit} {f' : Run (σ × List Event) α}
    {f : Run σ α} (h : ∀ x, Tells f' f plan answer x) (ts : List τ) (x : σ) :
    Tells (ts.forM (fun t => keep (c t) (m t)) >>= fun _ => f') (ts.forM m >>= fun _ => f)
      (ts.map (fun t => (c t).event (.ok ())) ++ plan) answer x := by
  induction ts generalizing x with
  | nil => exact h x
  | cons t ts ih =>
    rw [List.forM, List.forM, bind_assoc, bind_assoc]
    exact tells_keep_unit (ih _)

end Tells

end Writer

namespace Record

open Writer

-- Whatever a database answers, a record is written as planned for the number that the database gives to the entry.
theorem tells_write {σ : Type} (d : Dialect) (r : Record) (w : Writer σ) (x : σ) :
    ∃ id, Tells (r.write (w.recorded d)) (r.write w) (r.plan d id) id x := by
  have htranslations (id : Int) (x : σ) := tells_forM (m := fun u => w.insertTranslation (.translation r.kind id u))
    (c := fun u => .insertTranslation r.kind.translationTable ((Insert.translation r.kind id u).statement d))
    (fun _ => tells_keep_unit (c := .commit) (m := w.commit) (tells_pure id)) r.translations x
  obtain ⟨id, hroot⟩ := tells_keep (c := .insertRoot r.kind.rootTable ((Insert.root r).statement d))
    (m := w.insertRoot (.root r)) (x := ((ExceptT.run w.start).run x).2) (htranslations · _) 0
  refine ⟨id, ?_⟩
  rw [plan_eq]
  exact tells_keep_unit (c := .start) hroot

section Plan

variable (d : Dialect) (r : Record) (id : Int)

theorem ne_null_of_placed {k : Kind} {u : LocalRecord} {c : String × Value} (h : c ∈ placed k id u) : c.2 ≠ .null := by
  simp only [placed, List.cons_append, List.nil_append, List.mem_cons] at h
  obtain rfl | rfl | h := h
  case inr.inr => exact Columns.ne_null_of_given h
  all_goals nofun

theorem null_not_mem_plan {e : Event} (he : e ∈ r.plan d id) {s : Statement} (hs : e.statement? = some s) :
    .null ∉ s.values := by
  have hcolumns {table : String} {cs : Columns} {asks : Bool} (h : ∀ c ∈ cs, c.2 ≠ .null) :
      .null ∉ (Insert.ofColumns d table cs asks).values := by
    intro hm
    obtain ⟨c, hc, hnull⟩ := List.mem_map.mp hm
    exact h c hc hnull
  simp only [plan, List.cons_append, List.mem_cons, List.mem_append, List.mem_map, List.not_mem_nil, or_false] at he
  obtain rfl | rfl | ⟨u, _, rfl⟩ | rfl := he
  case inl | inr.inr.inr => cases hs
  case inr.inl =>
    cases hs
    exact hcolumns fun _ => Columns.ne_null_of_given
  case inr.inr.inl =>
    cases hs
    exact hcolumns fun _ => ne_null_of_placed id

theorem alike_plan : List.Forall₂ Event.Alike (r.plan .sqlite id) (r.plan .postgres id) := by
  rw [plan_eq, plan_eq]
  refine .cons (.start _) (.cons ?root (List.rel_append ?translations (.cons (.commit _) .nil)))
  case root =>
    rw [Insert.statement_sqlite, Insert.statement_postgres_root rfl]
    exact .insertRoot _ _ _
  case translations =>
    rw [List.forall₂_map_left_iff, List.forall₂_map_right_iff, List.forall₂_same]
    intro u _
    rw [Insert.statement_sqlite, Insert.statement_postgres_translation rfl]
    exact .insertTranslation _ _ _

end Plan

-- A record is written as planned for the number that the database gives to the entry, up to the first command that
-- fails. The lists of names and of values that go separate ways come to the same. No null is bound, an entry of nulls
-- is one of defaults, and the plans of the two dialects are alike.
theorem write_follows_plan (d : Dialect) (r : Record) :
    (∀ {σ : Type} (w : Writer σ) (x : σ) (log : List Event), ∃ id events,
      let (result, y) := (ExceptT.run (r.write w)).run x
      (ExceptT.run (r.write (w.recorded d))).run (x, log) = (result, y, log ++ events) ∧
        Follows (r.plan d id) id result events) ∧
    (∀ {σ : Type} (t : Transaction σ) (rollback : σ → σ), r.write (t.writer d rollback) = r.writeApart d t) ∧
    (∀ {σ : Type} (server : Postgres.Server σ),
      r.write (Postgres.writer server) = r.writeApart .postgres (Postgres.transaction server)) ∧
    (∀ id, ∀ e ∈ r.plan d id, ∀ s, e.statement? = some s → .null ∉ s.values) ∧
    ((∀ c ∈ r.root, c.2 = .null) → Insert.ofColumns d r.kind.rootTable r.root.given (d = .postgres) =
      ⟨"INSERT INTO " ++ r.kind.rootTable ++ " DEFAULT VALUES" ++ (if d = .postgres then " RETURNING id" else ""),
        []⟩) ∧
    ∀ id, List.Forall₂ Event.Alike (r.plan .sqlite id) (r.plan .postgres id) := by
  refine ⟨fun w x log => ?follows, write_eq_writeApart d r, fun server => ?server,
    fun id e he s hs => null_not_mem_plan d r id he hs, fun hnull => ?defaults, alike_plan r⟩
  case follows =>
    obtain ⟨id, h⟩ := tells_write d r w x
    obtain ⟨events, hrun, hfollows⟩ := h log
    exact ⟨id, events, hrun, hfollows⟩
  case server =>
    rw [Postgres.writer_eq]
    exact write_eq_writeApart .postgres r (Postgres.transaction server) id
  case defaults =>
    rw [Columns.given_eq_nil.mpr hnull]
    cases d <;> simp [Insert.ofColumns, Insert.text]

-- A movie of which nothing is known but a name.
theorem write_follows_plan_bare :
    let u : LocalRecord := ⟨"en", [("name", .text "Up"), ("synopsis", .null)]⟩
    let r : Record := ⟨.movie, [("duration", .null), ("genres", .null)], [u]⟩
    (∀ c ∈ r.root, c.2 = .null) ∧
      Insert.ofColumns .postgres "movies" r.root.given true = ⟨"INSERT INTO movies DEFAULT VALUES RETURNING id", []⟩ ∧
      Insert.ofColumns .postgres "movie_translations" (placed .movie 7 u) false =
        ⟨"INSERT INTO movie_translations (movie_id, language, name) VALUES ($1, $2, $3)",
          [.int 7, .text "en", .text "Up"]⟩ ∧
      .null ∉ [Value.int 7, .text "en", .text "Up"] := by
  intro u r
  have hnull : ∀ c ∈ r.root, c.2 = .null := by decide
  have ⟨_, _, _, hvalues, hdefaults, _⟩ := write_follows_plan .postgres r
  have htext : Insert.ofColumns .postgres "movie_translations" (placed .movie 7 u) false =
      ⟨"INSERT INTO movie_translations (movie_id, language, name) VALUES ($1, $2, $3)",
        [.int 7, .text "en", .text "Up"]⟩ := by
    decide +kernel
  refine ⟨hnull, hdefaults hnull, htext, ?_⟩
  have hevent : .insertTranslation "movie_translations"
      (Insert.ofColumns .postgres "movie_translations" (placed .movie 7 u) false) (.ok ()) ∈ r.plan .postgres 7 := by
    simp [plan, r, Kind.translationTable]
  have := hvalues 7 _ hevent _ rfl
  rwa [htext] at this

end Record

end MediaCatalog
