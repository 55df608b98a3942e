import MediaCatalog.Proofs.Filter.Operand
import MediaCatalog.Proofs.Search.Statement

namespace MediaCatalog.Search

open Sql MediaCatalog.Filter

-- The form of a filter.
structure Form where
  field    : String
  operator : Operator
  operands : Nat

def form (schema : Schema) (name raw : String) : Except Fault Form := do
  let f ← schema.resolve name
  let a ← Criterion.ofField f raw
  return ⟨name, (Operator.detect raw).1, a.operands.length⟩

-- The forms of all filters, in the order of their names.
def forms (s : Search) : Except Fault (List Form) :=
  s.filter.entries.mapM fun (name, raw) => form s.schema name raw

theorem form_eq_ok {schema : Schema} {name raw : String} {x : Form} :
    form schema name raw = .ok x ↔ ∃ f a, schema.find? name = some f ∧ Criterion.ofField f raw = .ok a ∧
      ⟨name, (Operator.detect raw).1, a.operands.length⟩ = x := by
  simp [form, Schema.resolve_eq_ok]

theorem exists_alike_of_form {schema : Schema} {x y : String × String} {form : Form}
    (h : Search.form schema x.1 x.2 = .ok form) (h' : Search.form schema y.1 y.2 = .ok form) :
    ∃ a b, condition schema x.1 x.2 = .ok a ∧ condition schema y.1 y.2 = .ok b ∧ a.Alike b := by
  obtain ⟨f, a, hf, ha, rfl⟩ := form_eq_ok.mp h
  obtain ⟨g, b, hg, hb, heq⟩ := form_eq_ok.mp h'
  obtain ⟨hname, ho, hl⟩ := Form.mk.inj heq
  rw [hname, hf, Option.some.injEq] at hg
  subst hg
  exact ⟨_, _, condition_eq_ok.mpr ⟨f, a, hf, ha, rfl⟩, condition_eq_ok.mpr ⟨f, b, hname ▸ hf, hb, rfl⟩,
    Criterion.alike_condition ha hb ho.symm hl.symm⟩

theorem alike_language {l l' : Language} (h : l = .any ↔ l' = .any) : l.predicate.Alike l'.predicate := by
  cases l with
  | any =>
    rw [h.mp rfl]
    exact .nil
  | tag t =>
    cases l' with
    | any => cases h.mpr rfl
    | tag t' => exact .cons (.compares ..) .nil

theorem alike_among {ids ids' : List Int} (h : ids.length = ids'.length) :
    (among ids).Alike (among ids') := by
  cases ids <;> cases ids'
  case nil.nil => exact .never
  case cons.cons => exact .isIn _ (by simpa using h)
  all_goals cases h

section

variable {s s' : Search} {forms : List Form} (hs : s.schema = s'.schema) (hf : s.forms = .ok forms)
  (hf' : s'.forms = .ok forms) (hl : s.language = .any ↔ s'.language = .any)

include hs hf hf' hl

theorem exists_alike_of_forms :
    ∃ p p', s.predicate none = .ok p ∧ s'.predicate none = .ok p' ∧ p.Alike p' := by
  rw [Search.forms, ← hs] at hf'
  have ⟨filters, filters', h, h', hfilters⟩ := List.exists_forall₂_of_mapM_eq
    (g := fun x => condition s.schema x.1 x.2) hf hf' fun _ _ _ => exists_alike_of_form
  exact ⟨_, _, predicate_of_filters h, predicate_of_filters (hs ▸ h'),
    List.rel_append (alike_language hl) hfilters⟩

-- Searches of one form have one text for each of their statements, whatever the style: what they ask for besides
-- their form is in the values alone.
theorem texts_eq_of_forms {ids ids' : List Int} (hi : ids.length = ids'.length) {r r' : PageRequest}
    (hr : r.sort = r'.sort) :
    (s.count.isOk ∧ (s.projection ids).isOk) ∧
    (∀ y : Style,
      s.count.map (fun c => (c.write y).statement.text) =
        s'.count.map (fun c => (c.write y).statement.text) ∧
      (s.window r).map (fun w => (w.write y).statement.text) =
        (s'.window r').map (fun w => (w.write y).statement.text) ∧
      (s.projection ids).map (fun p => (p.write y).statement.text) =
        (s'.projection ids').map (fun p => (p.write y).statement.text)) ∧
    ∀ d : Dialect,
      s.count.map (fun c => (c.statement d).text) = s'.count.map (fun c => (c.statement d).text) ∧
      (s.window r).map (fun w => (w.statement d).text) =
        (s'.window r').map (fun w => (w.statement d).text) ∧
      (s.projection ids).map (fun p => (p.statement d).text) =
        (s'.projection ids').map (fun p => (p.statement d).text) := by
  have ⟨p, p', hp, hp', hpp⟩ := exists_alike_of_forms hs hf hf' hl
  have hq : (p ++ [among ids]).Alike (p' ++ [among ids']) :=
    List.rel_append hpp (.cons (alike_among hi) .nil)
  have hwritten (y : Style) :
      s.count.map (fun c => (c.write y).statement.text) =
        s'.count.map (fun c => (c.write y).statement.text) ∧
      (s.window r).map (fun w => (w.write y).statement.text) =
        (s'.window r').map (fun w => (w.write y).statement.text) ∧
      (s.projection ids).map (fun p => (p.write y).statement.text) =
        (s'.projection ids').map (fun p => (p.write y).statement.text) := by
    refine ⟨?count, ?window, ?projection⟩
    case count =>
      rw [count_eq_map, count_eq_map, hp, hp', ← hs]
      exact congrArg Except.ok (Count.agree y hpp _).text_statement
    case window =>
      cases ho : r.sort.mapM (OrderTerm.ofKey s.schema) with
      | error x =>
        have ho' : r'.sort.mapM (OrderTerm.ofKey s'.schema) = .error x := hr ▸ hs ▸ ho
        rw [window, window, hp, hp', ho, ho']
        rfl
      | ok order =>
        have ho' : r'.sort.mapM (OrderTerm.ofKey s'.schema) = .ok order := hr ▸ hs ▸ ho
        rw [window_eq_map ho, window_eq_map ho', hp, hp', ← hs]
        exact congrArg Except.ok (Window.agree y hpp _ _ _ _ _ _).text_statement
    case projection =>
      rw [projection_eq_map, projection_eq_map, hp, hp', ← hs]
      exact congrArg Except.ok (Projection.agree y hq _).text_statement
  refine ⟨?accepted, hwritten, fun d => ?dialect⟩
  case accepted =>
    rw [count_eq_map, projection_eq_map, hp]
    exact ⟨rfl, rfl⟩
  case dialect =>
    simpa only [Count.statement_write, Window.statement_write, Projection.statement_write] using
      hwritten d.style

end

-- A title to look for and an attempt to break out of the statement, in two languages.
theorem texts_eq_of_forms_attempt :
    let s : Search := ⟨.movie, .ofList [("genres", ":Drama,War"), ("name", "*50%_off")], .tag "en"⟩
    let s' : Search := ⟨.movie, .ofList [("genres", ":?1,$2"), ("name", "*' OR 1 = 1 --")], .tag "');"⟩
    s.forms = .ok [⟨"genres", .isIn, 2⟩, ⟨"name", .like, 1⟩] ∧
      (s.projection [3, 7]).map (fun p => (p.statement .sqlite).text) =
        (s'.projection [9, 9]).map (fun p => (p.statement .sqlite).text) := by
  intro s s'
  have hf : s.forms = .ok [⟨"genres", .isIn, 2⟩, ⟨"name", .like, 1⟩] := by rfl
  have hf' : s'.forms = .ok [⟨"genres", .isIn, 2⟩, ⟨"name", .like, 1⟩] := by rfl
  have hs : s.schema = s'.schema := rfl
  have hl : s.language = .any ↔ s'.language = .any := by simp [s, s']
  have hi : [(3 : Int), 7].length = [(9 : Int), 9].length := rfl
  have hr : (PageRequest.mk 0 2 []).sort = (PageRequest.mk 5 1 []).sort := rfl
  have h := texts_eq_of_forms hs hf hf' hl hi hr
  exact ⟨hf, (h.2.2 .sqlite).2.2⟩

end MediaCatalog.Search
