import MediaCatalog.Proofs.Search.Statement
import MediaCatalog.Search.Script

namespace MediaCatalog.Search

open Sql

-- The answers of a session that are known beforehand. Any of its steps can be made to fail, with any fault.
structure Replay where
  total  : Int64
  window : List Int
  rows   : List Row
  fault? : Step → Option Fault

namespace Replay

variable {α β : Type}

-- A step is kept whether it fails or not.
def take (h : Replay) (step : Step) (answer : α) : Run (List Step) α := do
  modify (· ++ [step])
  if let some x := h.fault? step then throw x
  return answer

def reader (h : Replay) : Reader (List Step) where
  start := h.take .start ()
  count c := h.take (.count c) h.total
  window w := h.take (.window w) h.window
  rows p := h.take (.rows p) h.rows
  finish := h.take .finish ()

-- A script is played with one fault at the most, which is the fault of a database.
def ofScript (s : Script) : Replay where
  total := s.total
  window := s.window
  rows := s.rows
  fault? step := if s.failAt = some step.name then some (.database (step.name ++ " failed")) else none

theorem take_ofScript (s : Script) (step : Step) (answer : α) :
    (ofScript s).take step answer = s.take step answer := by
  rw [take, Script.take]
  by_cases hf : s.failAt = some step.name
  case pos => simp [ofScript, hf]
  case neg => simp [ofScript, hf]

theorem reader_ofScript (s : Script) : (ofScript s).reader = s.reader := by
  simp only [reader, Script.reader, take_ofScript]
  rfl

variable (h : Replay)

-- What comes of steps that are taken one after the other until one fails.
def perform (answer : α) : List Step → Except Fault α × List Step
  | []           => (.ok answer, [])
  | step :: plan =>
    match h.fault? step with
    | some x => (.error x, [step])
    | none   => (perform answer plan).map id (step :: ·)

-- Whatever has been done before, the steps of a plan are taken and lead to an answer.
def Performs (m : Run (List Step) α) (plan : List Step) (answer : α) : Prop :=
  ∀ log, (ExceptT.run m).run log = (h.perform answer plan).map id (log ++ ·)

variable {h}

theorem run_take_bind (step : Step) (b : β) (f : β → Run (List Step) α) (log : List Step) :
    (ExceptT.run (h.take step b >>= f)).run log =
      match h.fault? step with
      | some x => (.error x, log ++ [step])
      | none   => (ExceptT.run (f b)).run (log ++ [step]) := by
  cases hx : h.fault? step <;> simp only [take, hx] <;> rfl

namespace Performs

variable {answer : α} {plan : List Step}

theorem pure : h.Performs (Pure.pure answer) [] answer :=
  fun log => Prod.ext rfl (List.append_nil log).symm

theorem take {step : Step} {b : β} {f : β → Run (List Step) α} (hf : h.Performs (f b) plan answer) :
    h.Performs (h.take step b >>= f) (step :: plan) answer := by
  intro log
  rw [run_take_bind, perform]
  cases h.fault? step with
  | some x => rfl
  | none =>
    rw [hf, Prod.map_map]
    simp only [Function.comp_def, List.append_assoc, List.singleton_append]
    rfl

end Performs

-- What is said of a session whose steps come before its finish: they are taken in this order, each once, up to one
-- that fails; its fault is the result. The session is finished if all of them succeed, and there is an answer if
-- its finish does so, too.
structure Obeys (h : Replay) (steps : List Step) (answer : α) (result : Except Fault α) (log : List Step) :
    Prop where
  ordered : log <+: steps ++ [.finish]
  once    : log.Nodup
  stops   : ∀ step ∈ log.dropLast, h.fault? step = none
  fails   : ∀ x, result = .error x ↔ ∃ step ∈ log.getLast?, h.fault? step = some x
  answers : ∀ a, result = .ok a ↔ log = steps ++ [.finish] ∧ (∀ step ∈ log, h.fault? step = none) ∧ answer = a
  finish  : .finish ∈ log ↔ ∀ step ∈ steps, h.fault? step = none

section

variable {steps : List Step} {answer : α} {step : Step}

namespace Obeys

theorem stop {x : Fault} (hx : h.fault? step = some x) (hs : step ≠ .finish) :
    h.Obeys (step :: steps) answer (.error x) [step] where
  ordered := by simp
  once := by simp
  stops := by simp
  fails := by simp [hx, eq_comm]
  answers := by simp [hx]
  finish := by simp [hx, hs.symm]

theorem go {result : Except Fault α} {log : List Step} (hx : h.fault? step = none)
    (hs : step ∉ steps ++ [.finish]) (ho : h.Obeys steps answer result log) :
    h.Obeys (step :: steps) answer result (step :: log) where
  ordered := List.cons_prefix_cons.mpr ⟨rfl, ho.ordered⟩
  once := ho.once.cons fun hm => hs (ho.ordered.mem hm)
  stops := by
    cases log with
    | nil => simp
    | cons =>
      rw [List.dropLast_cons_cons, List.forall_mem_cons]
      exact ⟨hx, ho.stops⟩
  fails := by
    simp only [ho.fails]
    cases log with
    | nil => simp [hx]
    | cons => simp
  answers := by
    simp only [ho.answers]
    simp [hx]
  finish := by
    have hne : step ≠ .finish := fun he => hs (he ▸ List.mem_append_right _ List.mem_cons_self)
    simp [hx, hne.symm, ho.finish]

end Obeys

theorem obeys_perform (hs : (steps ++ [Step.finish]).Nodup) :
    h.Obeys steps answer (h.perform answer (steps ++ [.finish])).1
      (h.perform answer (steps ++ [.finish])).2 := by
  induction steps with
  | nil =>
    rw [List.nil_append, perform]
    cases hx : h.fault? .finish <;> constructor <;> simp [hx, perform, eq_comm]
  | cons step steps ih =>
    rw [List.cons_append, List.nodup_cons] at hs
    have ⟨hstep, hs⟩ := hs
    rw [List.cons_append, perform]
    cases hx : h.fault? step with
    | some x => exact .stop hx fun he => hstep (he ▸ List.mem_append_right _ List.mem_cons_self)
    | none => exact .go hx hstep (ih hs)

theorem Performs.obeys {m : Run (List Step) α} (hm : h.Performs m (steps ++ [.finish]) answer)
    (hs : (steps ++ [Step.finish]).Nodup) :
    h.Obeys steps answer ((ExceptT.run m).run []).1 ((ExceptT.run m).run []).2 := by
  rw [hm]
  exact obeys_perform hs

theorem Obeys.ne_error {result : Except Fault α} {log : List Step} (ho : h.Obeys steps answer result log)
    (hn : ∀ step, h.fault? step = none) (x : Fault) : result ≠ .error x := by
  intro hx
  have ⟨step, _, hstep⟩ := (ho.fails x).mp hx
  cases (hn step).symm.trans hstep

end

end Replay

section Faults

variable {schema : Schema} {x : Fault}

theorem kind_of_condition_error {name raw : String} (hx : condition schema name raw = .error x) :
    x.kind = "invalidFilterField" ∨ x.kind = "invalidFilterValue" := by
  rcases Except.bind_eq_error.mp hx with hx | ⟨f, _, hx⟩
  · left
    unfold Schema.resolve at hx
    split at hx <;> cases hx
    rfl
  · right
    rcases Except.bind_eq_error.mp hx with hx | ⟨_, _, hx⟩
    · obtain ⟨m, _, rfl⟩ := Except.mapError_eq_error.mp hx
      rfl
    · cases hx

theorem kind_of_ofKey_error {k : SortKey} (hx : OrderTerm.ofKey schema k = .error x) :
    x.kind = "invalidSortField" := by
  unfold OrderTerm.ofKey at hx
  split at hx
  case h_1 =>
    split at hx <;> cases hx
    rfl
  case h_2 =>
    cases hx
    rfl

end Faults

section Session

variable {s : Search} {request : PageRequest}

-- The steps of a search for a page that come before the finish of its session.
def pageSteps (h : Replay) (c : Count) (w : Window) (p : Projection) : List Step :=
  [.start, .count c, .window w] ++ if h.window = [] then [] else [.rows p]

-- The page that is answered when no step fails.
def replayedPage (h : Replay) (request : PageRequest) : Page Entry :=
  .answer (if h.window = [] then [] else Row.assemble h.window h.rows) request h.total

theorem nodup_pageSteps (h : Replay) (c : Count) (w : Window) (p : Projection) :
    (pageSteps h c w p ++ [Step.finish]).Nodup := by
  unfold pageSteps
  split <;> simp

theorem performs_answerPage (h : Replay) (schema : Schema) (c : Count) (w : Window) :
    h.Performs (answerPage h.reader schema c w request)
      (pageSteps h c w ⟨schema, w.condition ++ [among h.window]⟩ ++ [.finish]) (replayedPage h request) := by
  rw [pageSteps, replayedPage]
  by_cases hw : h.window = []
  case pos =>
    rw [if_pos hw, if_pos hw]
    refine .take (.take (.take ?_))
    rw [hw]
    exact .take .pure
  case neg =>
    rw [if_neg hw, if_neg hw]
    refine .take (.take (.take ?_))
    rw [if_neg (by simpa using hw)]
    exact .take (.take .pure)

theorem performs_findEntry (h : Replay) (schema : Schema) (language : Language) (id : Int) :
    ∃ q, (Search.mk schema ∅ language).projection [id] = .ok q ∧
      h.Performs (findEntry h.reader schema language id) ([.start, .rows q] ++ [.finish])
        (Row.assemble [id] h.rows).head? :=
  ⟨_, rfl, .take (.take (.take .pure))⟩

-- A filter that is not in order is found before anything else.
theorem refused_of_filter {σ : Type} (r : Reader σ) (log : σ) {x : Fault}
    (hx : (s.filter.entries.mapM fun (name, raw) => condition s.schema name raw) = .error x) :
    (ExceptT.run (findPage r s request)).run log = (.error x, log) ∧
      (x.kind = "invalidFilterField" ∨ x.kind = "invalidFilterValue") := by
  refine ⟨?run, ?kind⟩
  case run =>
    rw [findPage, count, predicate, hx]
    rfl
  case kind =>
    obtain ⟨_, _, hcondition⟩ := List.exists_of_mapM_eq_error hx
    exact kind_of_condition_error hcondition

section

variable {filters : List Condition}
  (hf : (s.filter.entries.mapM fun (name, raw) => condition s.schema name raw) = .ok filters)

include hf

theorem refused_of_order {σ : Type} (r : Reader σ) (log : σ) {x : Fault}
    (hx : request.sort.mapM (OrderTerm.ofKey s.schema) = .error x) :
    (ExceptT.run (findPage r s request)).run log = (.error x, log) ∧ x.kind = "invalidSortField" := by
  refine ⟨?run, ?kind⟩
  case run =>
    rw [findPage, count, window, predicate_of_filters hf, hx]
    rfl
  case kind =>
    obtain ⟨_, _, hkey⟩ := List.exists_of_mapM_eq_error hx
    exact kind_of_ofKey_error hkey

theorem obeys_findPage (h : Replay) {order : List OrderTerm}
    (ho : request.sort.mapM (OrderTerm.ofKey s.schema) = .ok order) :
    ∃ c w q, s.count = .ok c ∧ s.window request = .ok w ∧ s.projection h.window = .ok q ∧
      h.Obeys (pageSteps h c w q) (replayedPage h request)
        ((ExceptT.run (findPage h.reader s request)).run []).1
        ((ExceptT.run (findPage h.reader s request)).run []).2 := by
  have hc := count_eq_map (s := s)
  have hw := window_eq_map ho
  have hq := projection_eq_map (s := s) h.window
  rw [predicate_of_filters hf] at hc hw hq
  refine ⟨_, _, _, hc, hw, hq, ?_⟩
  rw [findPage_eq_answerPage, hc, hw]
  exact (performs_answerPage h s.schema _ _).obeys (nodup_pageSteps ..)

end

-- However the steps of a session turn out, a search that is not in order takes none of them, where the filter is
-- looked at first; any other search keeps to its plan. An answer means that no step has failed, and without a
-- failing step there can be nothing wrong but the search itself.
theorem steps_follow_plan (h : Replay) :
    (∀ (s : Search) (request : PageRequest),
      let filters := s.filter.entries.mapM fun (name, raw) => condition s.schema name raw
      let order := request.sort.mapM (OrderTerm.ofKey s.schema)
      let run := (ExceptT.run (findPage h.reader s request)).run []
      (∀ x, filters = .error x →
        run = (.error x, []) ∧ (x.kind = "invalidFilterField" ∨ x.kind = "invalidFilterValue")) ∧
      (∀ p x, filters = .ok p → order = .error x →
        run = (.error x, []) ∧ x.kind = "invalidSortField") ∧
      (∀ p o, filters = .ok p → order = .ok o → ∃ c w q,
        s.count = .ok c ∧ s.window request = .ok w ∧ s.projection h.window = .ok q ∧
          h.Obeys (pageSteps h c w q) (replayedPage h request) run.1 run.2) ∧
      (∀ page, run.1 = .ok page → ∀ step ∈ run.2, h.fault? step = none) ∧
      ((∀ step, h.fault? step = none) → ∀ x, run.1 = .error x →
        x.kind = "invalidFilterField" ∨ x.kind = "invalidFilterValue" ∨ x.kind = "invalidSortField")) ∧
    ∀ (schema : Schema) (language : Language) (id : Int),
      let run := (ExceptT.run (findEntry h.reader schema language id)).run []
      (∃ q, (Search.mk schema ∅ language).projection [id] = .ok q ∧
        h.Obeys [.start, .rows q] (Row.assemble [id] h.rows).head? run.1 run.2) ∧
      (∀ e, run.1 = .ok e → ∀ step ∈ run.2, h.fault? step = none) ∧
      ((∀ step, h.fault? step = none) → ∀ x, run.1 ≠ .error x) := by
  refine ⟨fun s request => ?page, fun schema language id => ?entry⟩
  case page =>
    intro filters order run
    have hcases : (∃ x, run = (.error x, []) ∧ (x.kind = "invalidFilterField" ∨
        x.kind = "invalidFilterValue" ∨ x.kind = "invalidSortField")) ∨
        ∃ steps answer, h.Obeys steps answer run.1 run.2 := by
      cases hf : filters with
      | error x =>
        have ⟨hrun, hkind⟩ : run = _ ∧ _ := refused_of_filter h.reader [] hf
        exact .inl ⟨x, hrun, hkind.imp_right .inl⟩
      | ok p =>
        cases ho : order with
        | error x =>
          have ⟨hrun, hkind⟩ : run = _ ∧ _ := refused_of_order hf h.reader [] ho
          exact .inl ⟨x, hrun, .inr (.inr hkind)⟩
        | ok o =>
          have ⟨_, _, _, _, _, _, hobeys⟩ := obeys_findPage hf h ho
          exact .inr ⟨_, _, hobeys⟩
    refine ⟨fun x hx => refused_of_filter h.reader [] hx, fun p x hp hx => refused_of_order hp h.reader [] hx,
      fun p o hp ho => obeys_findPage hp h ho, ?_⟩
    rcases hcases with ⟨x, hrun, hkind⟩ | ⟨_, _, ho⟩
    case inl =>
      rw [hrun]
      exact ⟨fun _ hp => (nomatch hp), fun _ _ hx => Except.error.inj hx ▸ hkind⟩
    case inr =>
      exact ⟨fun page hp => ((ho.answers page).mp hp).2.1, fun hn x hx => absurd hx (ho.ne_error hn x)⟩
  case entry =>
    intro run
    have ⟨q, hq, hm⟩ := performs_findEntry h schema language id
    have ho := hm.obeys (by simp)
    exact ⟨⟨q, hq, ho⟩, fun e he => ((ho.answers e).mp he).2.1, ho.ne_error⟩

-- The finish of a session fails: it has been tried, but there is no page. Nor is there one for a filter of no
-- field, and then no step has been taken.
theorem steps_follow_plan_finish :
    let script : Script := ⟨12, [7, 4], [], some "finish"⟩
    let run (name : String) := (ExceptT.run
      (findPage script.reader ⟨.movie, .ofList [(name, ">60")], .any⟩ ⟨1, 2, []⟩)).run []
    (Step.finish ∈ (run "duration").2 ∧ ∀ page, (run "duration").1 ≠ .ok page) ∧
      run "foo" = (.error (.invalidFilterField "foo"), []) := by
  intro script run
  have hsteps (name : String) :=
    (steps_follow_plan (.ofScript script)).1 ⟨.movie, .ofList [(name, ">60")], .any⟩ ⟨1, 2, []⟩
  simp only [Replay.reader_ofScript] at hsteps
  refine ⟨?duration, ((hsteps "foo").1 _ rfl).1⟩
  case duration =>
    have ⟨_, _, _, _, _, _, ho⟩ := (hsteps "duration").2.2.1 _ _ rfl rfl
    have hfinish := ho.finish.mpr (by simp [script, pageSteps, Replay.ofScript, Step.name])
    refine ⟨hfinish, fun page hp => ?_⟩
    have hall := ((ho.answers page).mp hp).2.1 .finish hfinish
    simp [script, Replay.ofScript, Step.name] at hall

end Session

end MediaCatalog.Search
