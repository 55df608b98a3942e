import MediaCatalog.Proofs.Search.Predicate
import MediaCatalog.Proofs.Sql.Style

namespace MediaCatalog

namespace Run

variable {σ α β : Type}

-- What is known before anything is done either goes on or has failed.
theorem ok_bind (a : α) (f : α → Run σ β) : (liftM (Except.ok a : Except Fault α) : Run σ α) >>= f = f a :=
  rfl

theorem error_bind (x : Fault) (f : α → Run σ β) :
    (liftM (Except.error x : Except Fault α) : Run σ α) >>= f = throw x :=
  rfl

end Run

namespace Search

open Sql

variable {s : Search} {request : PageRequest}

theorem count_eq_map : s.count = (s.predicate none).map (⟨s.schema.kind, ·⟩) := by
  rw [count]
  cases s.predicate none <;> rfl

theorem projection_eq_map (ids : List Int) :
    s.projection ids = (s.predicate none).map fun p => ⟨s.schema, p ++ [among ids]⟩ := by
  rw [projection, predicate, predicate]
  generalize (s.filter.entries.mapM _ : Except Fault Predicate) = filters
  cases filters with
  | error x => rfl
  | ok filters =>
    change Except.ok _ = Except.ok _
    simp

theorem window_eq_map {order : List OrderTerm} (ho : request.sort.mapM (OrderTerm.ofKey s.schema) = .ok order) :
    s.window request = (s.predicate none).map
      (⟨s.schema.kind, ·, order, request.limit, request.offset⟩) := by
  rw [window, ho]
  cases s.predicate none <;> rfl

theorem count_eq_ok {c : Count} :
    s.count = .ok c ↔ ∃ p, s.predicate none = .ok p ∧ ⟨s.schema.kind, p⟩ = c := by
  simp only [count, Except.bind_eq_ok, Except.pure_eq_ok]

theorem window_eq_ok {w : Window} :
    s.window request = .ok w ↔ ∃ p, s.predicate none = .ok p ∧ ∃ order,
      request.sort.mapM (OrderTerm.ofKey s.schema) = .ok order ∧
        ⟨s.schema.kind, p, order, request.limit, request.offset⟩ = w := by
  simp only [window, Except.bind_eq_ok, Except.pure_eq_ok]

theorem projection_eq_ok {ids : List Int} {p : Projection} :
    s.projection ids = .ok p ↔ ∃ q, s.predicate (some ids) = .ok q ∧ ⟨s.schema, q⟩ = p := by
  simp only [projection, Except.bind_eq_ok, Except.pure_eq_ok]

-- Only fields with one value each are sorted by.
theorem ofKey_eq_ok {schema : Schema} {k : SortKey} {o : OrderTerm} : OrderTerm.ofKey schema k = .ok o ↔
    ∃ f, schema.find? k.field = some f ∧ f.isSortable ∧ ⟨Column.ofField f, k.direction⟩ = o := by
  rw [OrderTerm.ofKey]
  cases schema.find? k.field with
  | none => simp
  | some f => cases hf : f.isSortable <;> simp [hf]

theorem order_columns {schema : Schema} {sort : List SortKey} {order : List OrderTerm}
    (h : sort.mapM (OrderTerm.ofKey schema) = .ok order) :
    ∀ o ∈ order, ∃ f ∈ schema.fields, o.column = Column.ofField f := by
  intro o ho
  have ⟨k, _, hk⟩ := List.exists_of_mapM_eq_ok h o ho
  obtain ⟨f, hf, _, rfl⟩ := ofKey_eq_ok.mp hk
  exact ⟨f, (Schema.mem_of_find? hf).1, rfl⟩

-- What is done in the session of a search for a page, when its statements are known.
def answerPage {σ : Type} (r : Reader σ) (schema : Schema) (c : Count) (w : Window)
    (request : PageRequest) : Run σ (Page Entry) := do
  r.start
  let total ← r.count c
  let ids ← r.window w
  if ids.isEmpty then
    r.finish
    return .answer [] request total
  else
    let rows ← r.rows ⟨schema, w.condition ++ [among ids]⟩
    r.finish
    return .answer (Row.assemble ids rows) request total

-- The projection is not refused.
theorem findPage_eq_answerPage {σ : Type} (r : Reader σ) (s : Search) (request : PageRequest) :
    findPage r s request = (do answerPage r s.schema (← s.count) (← s.window request) request) := by
  have hc := count_eq_map (s := s)
  have hq := projection_eq_map (s := s)
  cases hp : s.predicate none with
  | error x =>
    rw [hp] at hc
    simp only [findPage, hc, Except.map, Run.error_bind]
  | ok p =>
    rw [hp] at hc
    simp only [hp] at hq
    cases hw : s.window request with
    | error x => simp only [findPage, hc, hw, Except.map, Run.ok_bind, Run.error_bind]
    | ok w =>
      obtain ⟨_, hpw, _, _, rfl⟩ := window_eq_ok.mp hw
      cases hp.symm.trans hpw
      simp only [findPage, answerPage, hc, hw, hq, Except.map, Run.ok_bind]

-- The clause that restricts a statement to given entries, behind a number of values.
def amongClause (y : Style) (bound : Nat) (ids : List Int) : String :=
  "r.id IN (" ++ String.intercalate ", " ((List.range' (bound + 1) ids.length).map y.placeholder) ++ ")"

theorem run_write_among (y : Style) {ids : List Int} (h : ids ≠ []) (p : Predicate) (vs : List Value) :
    ((p ++ [among ids]).write y).run vs =
      (((p.write y).run vs).1 ++ [amongClause y ((p.write y).run vs).2.length ids],
        ((p.write y).run vs).2 ++ ids.map .int) := by
  have hamong : among ids = .isIn Column.id (ids.map .int) := by
    cases ids with
    | nil => exact absurd rfl h
    | cons => rfl
  have hid : Column.id.text = "r.id" := rfl
  simp only [Predicate.write, List.mapM_append, List.mapM_cons, List.mapM_nil, Writing.run_bind,
    Writing.run_pure, hamong, Condition.write, Style.run_mapM_bind, hid, amongClause, List.length_map,
    List.map_map]
  rfl

-- Where the order is in order, the statements of a search fail for one reason, or none of them does. Then they
-- have the same source and the same clauses with the same values in front; the projection has one clause more.
-- A search that has started its session can fail in no other way than by an answer of the database.
theorem statements_share_predicate (s : Search) (request : PageRequest) :
    (∀ order ids, request.sort.mapM (OrderTerm.ofKey s.schema) = .ok order → ids ≠ [] →
      (∃ x, s.count = .error x ∧ s.window request = .error x ∧ s.projection ids = .error x) ∨
      ∃ c w q, s.count = .ok c ∧ s.window request = .ok w ∧ s.projection ids = .ok q ∧
        (∀ y : Style, ∃ clauses values,
          (c.condition.write y).run [] = (clauses, values) ∧
          (w.condition.write y).run [] = (clauses, values) ∧
          (q.condition.write y).run [] =
            (clauses ++ [amongClause y values.length ids], values ++ ids.map .int) ∧
          (c.write y).statement =
            ⟨"SELECT COUNT(DISTINCT r.id) FROM " ++ source s.schema.kind ++ " WHERE " ++
              Predicate.whole clauses, values⟩ ∧
          (w.write y).statement =
            ⟨"SELECT r.id FROM " ++ source s.schema.kind ++ " WHERE " ++ Predicate.whole clauses ++
              " GROUP BY r.id ORDER BY " ++ OrderTerm.orderText order ++
              " LIMIT " ++ y.placeholder (values.length + 1) ++
              " OFFSET " ++ y.placeholder (values.length + 2),
              values ++ [.int request.limit.toInt, .int request.offset.toInt]⟩ ∧
          (q.write y).statement =
            ⟨"SELECT " ++ q.shown ++ " FROM " ++ source s.schema.kind ++ " WHERE " ++
              Predicate.whole (clauses ++ [amongClause y values.length ids]) ++
              " ORDER BY r.id ASC, t.language ASC", values ++ ids.map .int⟩) ∧
        ∀ d : Dialect,
          (c.write d.style).statement = c.statement d ∧
          (w.write d.style).statement = w.statement d ∧
          (q.write d.style).statement = q.statement d ∧
          ((c.condition.write d.style).run []).1 = Phrase.texts d 1 (c.condition.map (·.phrase d))) ∧
    ∀ {σ : Type} (r : Reader σ),
      findPage r s request = (do answerPage r s.schema (← s.count) (← s.window request) request) := by
  refine ⟨?together, fun r => findPage_eq_answerPage r s request⟩
  intro order ids ho hids
  rw [count_eq_map, window_eq_map ho, projection_eq_map]
  cases s.predicate none with
  | error x => exact .inl ⟨x, rfl, rfl, rfl⟩
  | ok p =>
    refine .inr ⟨_, _, _, rfl, rfl, rfl, fun y => ?_, fun d => ?_⟩
    case refine_1 =>
      refine ⟨((p.write y).run []).1, ((p.write y).run []).2, rfl, rfl, run_write_among y hids p [], rfl, ?_, ?_⟩
      case refine_1 =>
        simp only [Writing.statement, Window.write, Writing.run_bind, Writing.run_pure, Style.run_bind]
        simp
      case refine_2 =>
        simp only [Writing.statement, Projection.write, Writing.run_bind, Writing.run_pure,
          run_write_among y hids]
    case refine_2 =>
      exact ⟨Count.statement_write d _, Window.statement_write d _, Projection.statement_write d _,
        congrArg Prod.fst (Predicate.run_write _ [])⟩

-- Two movies are read under the condition that they were counted by.
theorem statements_share_predicate_long :
    let s : Search := ⟨.movie, .ofList [("duration", ">60")], .tag "en"⟩
    ∃ c q clauses values, s.count = .ok c ∧ s.projection [7, 3] = .ok q ∧
      (c.condition.write Dialect.sqlite.style).run [] = (clauses, values) ∧
      clauses = ["t.language = ?1", "r.duration > ?2"] ∧
      (q.condition.write Dialect.sqlite.style).run [] =
        (clauses ++ ["r.id IN (?3, ?4)"], values ++ [.int 7, .int 3]) := by
  intro s
  have h := (statements_share_predicate s ⟨0, 2, [⟨"duration", .descending⟩]⟩).1 _ [7, 3] rfl (by simp)
  rcases h with ⟨x, hx, _⟩ | ⟨c, w, q, hc, _, hq, hwritten, _⟩
  case inl => cases hx
  case inr =>
    have ⟨clauses, values, hcount, _, hprojection, _⟩ := hwritten Dialect.sqlite.style
    cases hc
    have ⟨hclauses, hvalues⟩ := Prod.mk.inj hcount
    subst hclauses hvalues
    exact ⟨_, q, _, _, rfl, hq, rfl, by decide, hprojection⟩

end Search

end MediaCatalog
