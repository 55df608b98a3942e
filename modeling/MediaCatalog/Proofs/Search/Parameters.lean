import MediaCatalog.Proofs.Filter.Operand
import MediaCatalog.Proofs.Search.Statement
import MediaCatalog.Proofs.Sql.Placeholder

namespace MediaCatalog

open Sql MediaCatalog.Filter

def Language.values : Language → List Value
  | any   => []
  | tag t => [.text t]

namespace Search

-- The operands of one filter.
def filterOperands (schema : Schema) (name raw : String) : Except Fault (List Value) := do
  let f ← schema.resolve name
  return (← Criterion.ofField f raw).operands

-- The operands of all filters, in the order of their names.
def operands (s : Search) : Except Fault (List Value) := do
  return (← s.filter.entries.mapM fun (name, raw) => filterOperands s.schema name raw).flatten

section Values

variable (d : Dialect)

theorem values_eq_flatMap (p : Predicate) : p.values d = p.flatMap fun a => (a.phrase d).values := by
  cases p with
  | nil => rfl
  | cons a as =>
    have h : (Predicate.phrase d (a :: as)).values = _ := Phrase.values_joined ..
    rw [Predicate.values, h, List.flatMap_map]

theorem values_language (l : Language) : l.predicate.values d = l.values := by
  cases l <;> rfl

-- What a search by a filter binds.
theorem values_criterion (l : Language) (f : Field) (a : Criterion) :
    (l.predicate ++ [a.condition f] : Predicate).values d = l.values ++ a.operands := by
  rw [values_eq_flatMap, List.flatMap_append, List.flatMap_singleton, ← values_eq_flatMap, values_language,
    Criterion.values_condition]

theorem values_among (ids : List Int) : ((among ids).phrase d).values = ids.map .int := by
  cases ids with
  | nil => rfl
  | cons i ids => exact (values_isIn d Column.id _).trans (by simp)

theorem values_window (w : Window) :
    (w.statement d).values = w.condition.values d ++ [.int w.limit.toInt, .int w.offset.toInt] :=
  Phrase.values_append ..

theorem values_projection (p : Projection) : (p.statement d).values = p.condition.values d :=
  (Phrase.values_append ..).trans (List.append_nil _)

end Values

variable {s : Search} {vs : List Value}

-- A search whose operands can be read has a predicate, which binds them behind the language.
theorem exists_predicate_of_operands (hf : s.operands = .ok vs) :
    ∃ p, s.predicate none = .ok p ∧ ∀ d, p.values d = s.language.values ++ vs := by
  simp only [operands, Except.bind_eq_ok, Except.pure_eq_ok] at hf
  obtain ⟨vss, hf, rfl⟩ := hf
  have hone (x : String × String) (vs : List Value) (hx : filterOperands s.schema x.1 x.2 = .ok vs) :
      ∃ a, condition s.schema x.1 x.2 = .ok a ∧ ∀ d, (a.phrase d).values = vs := by
    simp only [filterOperands, Except.bind_eq_ok, Except.pure_eq_ok, Schema.resolve_eq_ok] at hx
    obtain ⟨f, hf, a, ha, rfl⟩ := hx
    exact ⟨_, condition_eq_ok.mpr ⟨f, a, hf, ha, rfl⟩, fun d => Criterion.values_condition d f a⟩
  obtain ⟨filters, hfilters, hvalues⟩ := List.exists_mapM_eq_ok hf hone
  refine ⟨_, predicate_of_filters hfilters, fun d => ?_⟩
  have hflat : filters.flatMap (fun a => (a.phrase d).values) = vss.flatten := by
    clear hf hfilters
    induction hvalues with
    | nil => rfl
    | cons h _ ih => rw [List.flatMap_cons, List.flatten_cons, h d, ih]
  rw [values_eq_flatMap, List.flatMap_append, hflat, ← values_eq_flatMap, values_language]

-- In the text of each statement, what a database takes for placeholders has the numbers from one on, in this order
-- and each once. There are as many values, and they are those of the language, the operands of the filters, and
-- then the limits of the page or the numbers of the entries. Put in place of the placeholders, they stand where the
-- statement means them.
theorem placeholders_number_values (hv : s.schema.validate = .ok ()) (hf : s.operands = .ok vs)
    {request : PageRequest} {order : List OrderTerm}
    (ho : request.sort.mapM (OrderTerm.ofKey s.schema) = .ok order) (ids : List Int) (d : Dialect) :
    ∃ c w p, s.count = .ok c ∧ s.window request = .ok w ∧ s.projection ids = .ok p ∧
      ((c.statement d).placeholders d = List.range' 1 (c.statement d).values.length ∧
        (c.statement d).values = s.language.values ++ vs ∧
        (c.statement d).filled d = (c.phrase d).filled) ∧
      ((w.statement d).placeholders d = List.range' 1 (w.statement d).values.length ∧
        (w.statement d).values =
          s.language.values ++ vs ++ [.int request.limit.toInt, .int request.offset.toInt] ∧
        (w.statement d).filled d = (w.phrase d).filled) ∧
      (p.statement d).placeholders d = List.range' 1 (p.statement d).values.length ∧
        (p.statement d).values = s.language.values ++ vs ++ ids.map .int ∧
        (p.statement d).filled d = (p.phrase d).filled := by
  have hs := Schema.validate_eq_ok.mp hv
  have ⟨p, hp, hvalues⟩ := exists_predicate_of_operands hf
  have hproper := isProper_of_predicate hs hp
  have hproper' : ∀ a ∈ p ++ [among ids], a.IsProper := isProper_of_predicate hs (predicate_some hp)
  have horder : ∀ o ∈ order, Schema.isIdentifier o.column.name := by
    intro o hmem
    have ⟨f, hf, hc⟩ := order_columns ho o hmem
    exact hc ▸ hs.identifier f hf
  have ⟨hcount, hcount'⟩ := (Count.reads (d := d) hproper s.schema.kind).statement
  have ⟨hwindow, hwindow'⟩ :=
    (Window.reads (d := d) hproper s.schema.kind horder request.limit request.offset).statement
  have ⟨hprojection, hprojection'⟩ := (Projection.reads (d := d) hproper' hs.identifier).statement
  refine ⟨⟨s.schema.kind, p⟩, ⟨s.schema.kind, p, order, request.limit, request.offset⟩,
    ⟨s.schema, p ++ [among ids]⟩, ?_, ?_, ?_, ⟨hcount, hvalues d, hcount'⟩, ⟨hwindow, ?_, hwindow'⟩,
    hprojection, ?_, hprojection'⟩
  · rw [count_eq_map, hp]
    rfl
  · rw [window_eq_map ho, hp]
    rfl
  · rw [projection_eq_map, hp]
    rfl
  · rw [values_window, hvalues]
  · rw [values_projection, values_eq_flatMap, List.flatMap_append, ← values_eq_flatMap, hvalues]
    simp [values_among]

-- Films of two genres that are not too long, in English: all seven placeholders of the projection.
theorem placeholders_number_values_long :
    let s : Search := ⟨.movie, .ofList [("genres", ":Drama,War"), ("duration", "::60,120")], .tag "en"⟩
    ∃ p, s.projection [7, 3] = .ok p ∧
      (p.statement .sqlite).placeholders .sqlite = [1, 2, 3, 4, 5, 6, 7] ∧
      (p.statement .sqlite).values =
        [.text "en", .int 60, .int 120, .text "Drama", .text "War", .int 7, .int 3] := by
  intro s
  have hf : s.operands = .ok [.int 60, .int 120, .text "Drama", .text "War"] := by rfl
  have ho : (PageRequest.mk 0 2 [⟨"duration", .descending⟩]).sort.mapM (OrderTerm.ofKey s.schema) =
      .ok [⟨⟨.root, "duration"⟩, .descending⟩] := by rfl
  have ⟨_, _, p, _, _, hp, _, _, hnumbers, hvalues, _⟩ :=
    placeholders_number_values (by rfl) hf ho [7, 3] .sqlite
  refine ⟨p, hp, ?_, hvalues⟩
  rw [hnumbers, hvalues]
  rfl

end Search

end MediaCatalog
