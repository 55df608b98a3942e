import MediaCatalog.Search.Build
import MediaCatalog.Proofs.Search.Statement
import MediaCatalog.Proofs.Sql.Recast

namespace MediaCatalog

open Sql

-- Whatever the style, a statement fails for one reason, or it has one outline and binds one list of values,
-- which its placeholders number from left to right. If the columns have plain names, then the text for PostgreSQL
-- can be told from the one for SQLite.
def Building.Alike (plain : Prop) (m : Style → Building String) : Prop :=
  (∃ x, ∀ y, (m y).statement = .error x) ∨
  ∃ (o : Outline) (values : List Value), o.numbers = List.range' 1 values.length ∧
    (∀ y, (m y).statement = .ok ⟨o.text y, values⟩) ∧
    (plain → o.text Dialect.postgres.style = recast (o.text Dialect.sqlite.style))

namespace Building

variable {α β : Type}

theorem run_ofWriting (m : Writing α) (vs : List Value) : (ofWriting m).run vs = .ok (m.run vs) :=
  (rfl)

theorem run_liftM_bind (e : Except Fault α) (f : α → Building β) (vs : List Value) :
    ((liftM e : Building α) >>= f).run vs = e >>= fun a => (f a).run vs := by
  cases e <;> rfl

-- Whether the conditions are all known first or each is written as soon as it is known makes no difference.
theorem run_mapM_write (y : Style) (f : α → Except Fault Condition) (as : List α) (vs : List Value) :
    (as.mapM fun a => liftM (f a) >>= fun c => ofWriting (c.write y)).run vs =
      (as.mapM f).map fun p => (Predicate.write y p).run vs := by
  induction as generalizing vs with
  | nil => rfl
  | cons a as ih =>
    simp only [List.mapM_cons, bind_assoc, run_liftM_bind]
    cases f a with
    | error x => rfl
    | ok c =>
      simp only [Except.ok_bind, StateT.run_bind, run_ofWriting, ih]
      cases as.mapM f with
      | error x => rfl
      | ok p =>
        change _ = Except.ok ((Predicate.write y (c :: p)).run vs)
        rw [Predicate.run_write_cons]
        rfl

theorem statement_eq_map {m : Building String} {e : Except Fault α} {w : α → Writing String}
    (h : m.run [] = e.map fun a => (w a).run []) : m.statement = e.map fun a => (w a).statement := by
  rw [statement, h]
  cases e <;> rfl

-- What is written in all styles once it is known what to write.
theorem alike_of_run {plain : Prop} {m : Style → Building String} {e : Except Fault α} {o : α → Outline}
    {bound : α → List Value} (h : ∀ y, (m y).run [] = e.map fun a => ((o a).text y, bound a))
    (hnumbers : ∀ a, (o a).numbers = List.range' 1 (bound a).length)
    (hclear : plain → ∀ a, e = .ok a → (o a).IsClear) : Alike plain m := by
  cases e with
  | error x =>
    refine .inl ⟨x, fun y => ?_⟩
    rw [statement, h]
    rfl
  | ok a =>
    refine .inr ⟨o a, bound a, hnumbers a, fun y => ?_, fun hp => ?_⟩
    · rw [statement, h]
      rfl
    · exact (Outline.recast_text (hclear hp a rfl)).symm

end Building

namespace Search

variable {s : Search} {y : Style} {request : PageRequest} {ids : List Int}

theorem run_buildClauses {scope : Option (List Int)} (vs : List Value) :
    (s.buildClauses y scope).run vs = (s.predicate scope).map fun p => (p.write y).run vs := by
  have hfilters :=
    Building.run_mapM_write y (fun (x : String × String) => condition s.schema x.1 x.2) s.filter.entries
  simp only [buildClauses, predicate, StateT.run_bind, Building.run_ofWriting, Except.ok_bind, hfilters]
  cases s.filter.entries.mapM fun x => condition s.schema x.1 x.2 with
  | error x => rfl
  | ok filters =>
    change _ = Except.ok ((Predicate.write y (_ ++ filters ++ _)).run vs)
    rw [Predicate.run_write_append, Predicate.run_write_append]
    rfl

theorem run_buildCount (vs : List Value) :
    (s.buildCount y).run vs = s.count.map fun c => (c.write y).run vs := by
  rw [buildCount, StateT.run_bind, run_buildClauses, count_eq_map]
  cases s.predicate none <;> rfl

theorem run_buildWindow (vs : List Value) :
    (s.buildWindow y request).run vs = (s.window request).map fun w => (w.write y).run vs := by
  rw [buildWindow, StateT.run_bind, run_buildClauses, window]
  cases s.predicate none with
  | error x => rfl
  | ok p =>
    cases request.sort.mapM (OrderTerm.ofKey s.schema) <;> rfl

theorem run_buildProjection (vs : List Value) :
    (s.buildProjection y ids).run vs = (s.projection ids).map fun p => (p.write y).run vs := by
  rw [buildProjection, StateT.run_bind, run_buildClauses, projection]
  cases s.predicate (some ids) <;> rfl

variable (s request ids)

theorem alike_buildCount : Building.Alike (s.schema.validate = .ok ()) s.buildCount := by
  have hrun (y : Style) : (s.buildCount y).run [] =
      s.count.map fun c => (c.outline.text y, c.condition.bound) := by
    simp only [run_buildCount, Count.run_write]
  refine Building.alike_of_run hrun Count.numbers_outline fun hv c hc => ?_
  obtain ⟨p, hp, rfl⟩ := count_eq_ok.mp hc
  exact Count.isClear_outline (isProper_of_predicate (Schema.validate_eq_ok.mp hv) hp) _

theorem alike_buildWindow : Building.Alike (s.schema.validate = .ok ()) (s.buildWindow · request) := by
  have hrun (y : Style) : (s.buildWindow y request).run [] =
      (s.window request).map fun w => (w.outline.text y, w.bound) := by
    simp only [run_buildWindow, Window.run_write]
  refine Building.alike_of_run hrun Window.numbers_outline fun hv w hw => ?_
  have hs := Schema.validate_eq_ok.mp hv
  obtain ⟨p, hp, order, ho, rfl⟩ := window_eq_ok.mp hw
  refine Window.isClear_outline (isProper_of_predicate hs hp) _ (fun o hmem => ?_) _ _
  have ⟨f, hf, hcolumn⟩ := order_columns ho o hmem
  exact hcolumn ▸ hs.identifier f hf

theorem alike_buildProjection : Building.Alike (s.schema.validate = .ok ()) (s.buildProjection · ids) := by
  have hrun (y : Style) : (s.buildProjection y ids).run [] =
      (s.projection ids).map fun p => (p.outline.text y, p.condition.bound) := by
    simp only [run_buildProjection, Projection.run_write]
  refine Building.alike_of_run hrun Projection.numbers_outline fun hv p hp => ?_
  have hs := Schema.validate_eq_ok.mp hv
  obtain ⟨q, hq, rfl⟩ := projection_eq_ok.mp hp
  exact Projection.isClear_outline (isProper_of_predicate hs hq) hs.identifier

-- A search is compiled alike in all styles, and in both dialects into the statements that it has in them.
theorem compiles_alike (scope : Option (List Int)) :
    ((∃ x, ∀ y, (s.buildClauses y scope).run [] = .error x) ∨
      ∃ (clauses : List Outline) (values : List Value),
        clauses.flatMap Outline.numbers = List.range' 1 values.length ∧
        (∀ y, (s.buildClauses y scope).run [] = .ok (clauses.map (Outline.text y), values)) ∧
        (s.schema.validate = .ok () → ∀ o ∈ clauses,
          o.text Dialect.postgres.style = recast (o.text Dialect.sqlite.style))) ∧
    Building.Alike (s.schema.validate = .ok ()) s.buildCount ∧
    Building.Alike (s.schema.validate = .ok ()) (s.buildWindow · request) ∧
    Building.Alike (s.schema.validate = .ok ()) (s.buildProjection · ids) ∧
    ∀ d : Dialect,
      (s.buildCount d.style).statement = s.count.map (·.statement d) ∧
      (s.buildWindow d.style request).statement = (s.window request).map (·.statement d) ∧
      (s.buildProjection d.style ids).statement = (s.projection ids).map (·.statement d) := by
  refine ⟨?clauses, s.alike_buildCount, s.alike_buildWindow request, s.alike_buildProjection ids,
    fun d => ?same⟩
  case clauses =>
    simp only [run_buildClauses]
    cases hp : s.predicate scope with
    | error x => exact .inl ⟨x, fun _ => rfl⟩
    | ok p =>
      refine .inr ⟨p.outlines 1, p.bound, p.numbers_outlines 1, fun y => ?_, fun hv o ho => ?_⟩
      case refine_1 =>
        rw [Except.map, p.run_write_eq]
        rfl
      case refine_2 =>
        have hproper := isProper_of_predicate (Schema.validate_eq_ok.mp hv) hp
        exact (Outline.recast_text (Predicate.isClear_outlines hproper 1 o ho)).symm
  case same =>
    rw [Building.statement_eq_map (run_buildCount []), Building.statement_eq_map (run_buildWindow []),
      Building.statement_eq_map (run_buildProjection [])]
    simp only [Count.statement_write, Window.statement_write, Projection.statement_write, and_self]

-- English movies that are dramas.
theorem compiles_alike_drama :
    let s : Search := ⟨.movie, .ofList [("genres", "Drama")], .tag "en"⟩
    let values : List Value := [.text "en", .text "Drama"]
    let start :=
      "SELECT COUNT(DISTINCT r.id) FROM movies r INNER JOIN movie_translations t ON t.movie_id = r.id WHERE "
    s.schema.validate = .ok () ∧
    (s.buildCount Dialect.sqlite.style).statement = .ok ⟨start ++ "t.language = ?1 AND " ++
      "EXISTS (SELECT 1 FROM json_each(r.genres) WHERE json_each.value = ?2)", values⟩ ∧
    (s.buildCount Dialect.postgres.style).statement = .ok ⟨start ++ "t.language = $1 AND " ++
      "array_position(r.genres, $2) IS NOT NULL", values⟩ := by
  intro s values start
  have hv : s.schema.validate = .ok () := by decide
  have hsqlite : (s.buildCount Dialect.sqlite.style).statement = .ok ⟨start ++ "t.language = ?1 AND " ++
      "EXISTS (SELECT 1 FROM json_each(r.genres) WHERE json_each.value = ?2)", values⟩ := by
    decide +kernel
  refine ⟨hv, hsqlite, ?_⟩
  obtain ⟨x, hx⟩ | ⟨o, _, _, ho, hrecast⟩ := (compiles_alike s ⟨0, 2, []⟩ [] none).2.1
  case inl => exact absurd (hsqlite.symm.trans (hx _)) nofun
  case inr =>
    have hsame := Except.ok.inj (hsqlite.symm.trans (ho _))
    have ⟨htext, hvalues⟩ := Statement.mk.inj hsame
    rw [ho, hrecast hv, ← htext, ← hvalues]
    decide +kernel

end Search

end MediaCatalog
