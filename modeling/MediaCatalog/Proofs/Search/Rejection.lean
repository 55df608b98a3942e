import MediaCatalog.Proofs.Search.Render

namespace MediaCatalog

open Sql MediaCatalog.Filter

-- Every list in a condition has an item.
def Sql.Condition.IsFull : Condition → Prop
  | isIn _ vs         => vs ≠ []
  | hasAll _ items    => items ≠ []
  | orFalse a | not a => a.IsFull
  | _                 => True

namespace Filter

theorem Criterion.isFull_condition {f : Field} {a : Criterion} (h : ∀ vs, a.parts.2 = .list vs → vs ≠ []) :
    (a.condition f).IsFull := by
  have htexts {items : List String} (h : items.map Scalar.text ≠ []) : items ≠ [] :=
    fun hnil => h (hnil ▸ rfl)
  rcases a with test | test <;> cases test
  case ofScalar.isIn vs => exact h vs rfl
  case ofScalar.notIn vs => exact h vs rfl
  case ofList.hasAll items => exact htexts (h _ rfl)
  case ofList.hasNotAll items => exact htexts (h _ rfl)
  all_goals trivial

-- What an operand binds. LIKE binds the pattern of the texts that have its text in them.
def Operand.bound (x : Operand) : Operator → List Value
  | .like | .notLike => x.values.map fun v => .text (Like.containing v.asText)
  | _                => x.values.map .scalar

theorem Criterion.bound_condition (f : Field) (a : Criterion) : (a.condition f).bound = a.parts.2.bound a.parts.1 := by
  rcases a with test | test <;> cases test
  case ofScalar.compares r v => cases r <;> rfl
  case ofList.hasAll items => exact (List.map_map ..).symm
  case ofList.hasNotAll items => exact (List.map_map ..).symm
  all_goals rfl

-- What is known of a filter value that has been parsed: its operator is one for the field, its operand has the shape
-- and the types that the operator wants, no list of values is empty, and a clause is rendered that binds them.
structure IsParsed (f : Field) (raw : String) (o : Operator) (x : Operand) : Prop where
  operator : o = (Operator.detect raw).1
  known    : ¬(f.type.isList ∧ o.isScalar)
  shape    : x.Fits f.type (Operator.detect raw).2 o
  values   : ∀ v ∈ x.values, if o = .like ∨ o = .notLike then v = .text (Operator.detect raw).2
    else (Value.scalar v).Suits f.type.element
  full     : ∀ vs, x = .list vs → vs ≠ []
  rendered : ∀ y vs, ∃ clause, (Search.render y f o x).run vs = .ok (clause, vs ++ x.bound o)

theorem exists_ofField_of_parse {f : Field} {raw : String} {o : Operator} {x : Operand}
    (h : parse f.type raw = .ok (o, x)) : ∃ a, Criterion.ofField f raw = .ok a ∧ a.parts = (o, x) := by
  rw [parse_eq, Except.map_eq_ok] at h
  obtain ⟨a, ha, hparts⟩ := h
  exact ⟨a, Except.mapError_eq_ok.mpr ha, hparts⟩

-- This is just what parsing makes sure of.
theorem parse_eq_ok_iff_isParsed {f : Field} {raw : String} {o : Operator} {x : Operand} :
    parse f.type raw = .ok (o, x) ↔ IsParsed f raw o x := by
  constructor
  · intro h
    obtain ⟨a, ha, hparts⟩ := exists_ofField_of_parse h
    obtain ⟨hknown, operand, hd, hfits⟩ := parse_eq_ok.mp h
    have hrendered (y : Style) (vs : List Value) :
        ∃ clause, (Search.render y f o x).run vs = .ok (clause, vs ++ x.bound o) := by
      have hrender := Search.render_parts y ha
      rw [hparts] at hrender
      rw [hrender, Building.run_ofWriting, Condition.run_write, Criterion.bound_condition, hparts]
      exact ⟨_, rfl⟩
    refine ⟨by rw [hd], hknown, by rwa [hd], by rw [hd]; exact hfits.values, ?_, hrendered⟩
    rintro vs rfl
    exact hfits.list_ne_nil
  · intro h
    exact parse_eq_ok.mpr ⟨h.known, _, by rw [h.operator], h.shape⟩

end Filter

namespace Search

-- What a filter is turned down for: its name stands for no field, or its value cannot be parsed for the field.
def rejection? (s : Search) (x : String × String) : Option Fault :=
  match s.schema.find? x.1 with
  | none   => some (.invalidFilterField x.1)
  | some f =>
    match parse f.type x.2 with
    | .error m => some (.invalidFilterValue x.1 m.message)
    | .ok _    => none

variable {s : Search} {y : Style} {ids : Option (List Int)} {x : Fault}

theorem condition_eq_error {name raw : String} :
    condition s.schema name raw = .error x ↔ s.rejection? (name, raw) = some x := by
  rw [condition, Schema.resolve, rejection?]
  cases hf : s.schema.find? name with
  | none => simp [bind, Except.bind]
  | some f =>
    have hname := (Schema.mem_of_find? hf).2
    simp only [Except.ok_bind, parse_eq, Criterion.ofField]
    cases Criterion.read f.type raw with
    | error m => simp [Except.mapError, bind, Except.bind, Functor.map, Except.map, Mistake.fault, hname]
    | ok a => simp [Except.mapError, bind, Except.bind, pure, Except.pure, Functor.map, Except.map]

theorem predicate_eq_error :
    s.predicate ids = .error x ↔ s.filter.entries.findSome? s.rejection? = some x := by
  rw [← List.mapM_eq_error fun _ _ => condition_eq_error, predicate, Except.bind_eq_error]
  constructor
  · rintro (h | ⟨_, -, h⟩)
    · exact h
    · cases h
  · exact .inl

theorem isFull_of_condition {name raw : String} {a : Condition} (h : condition s.schema name raw = .ok a) :
    a.IsFull := by
  obtain ⟨f, c, -, hc, rfl⟩ := condition_eq_ok.mp h
  have hparse : parse f.type raw = .ok (c.parts.1, c.parts.2) := by
    rw [parse_eq, Except.mapError_eq_ok.mp hc]
    rfl
  exact Criterion.isFull_condition (parse_eq_ok_iff_isParsed.mp hparse).full

theorem isFull_of_predicate {p : Predicate} (hp : s.predicate ids = .ok p) : ∀ a ∈ p, a.IsFull := by
  refine forall_mem_of_predicate hp (fun _ => trivial) isFull_of_condition fun is => ?_
  cases is with
  | nil => trivial
  | cons i is => exact List.cons_ne_nil _ _

theorem run_build : (s.build y ids).run [] = (s.predicate ids).map fun p => (p.write y).run [] := by
  rw [build_eq, run_buildClauses]

theorem run_build_eq_error : (s.build y ids).run [] = .error x ↔ s.filter.entries.findSome? s.rejection? = some x := by
  have hpredicate : s.predicate ids = .error x ↔ _ := predicate_eq_error
  rw [run_build, ← hpredicate]
  cases s.predicate ids <;> simp [Except.map]

-- Clauses are rendered unless a filter is turned down, and then the least of the names that are turned down is
-- reported. A filter value is parsed if its operand is what its operator wants of the field, and then there is a
-- clause for it; no clause asks for membership in nothing.
theorem build_rejects_first_or_renders (y : Style) (ids : Option (List Int)) (s : Search) :
    (s.build y ids).run [] = (s.predicate ids).map (fun p => (p.write y).run []) ∧
    ((∃ x, (s.build y ids).run [] = .error x) ↔ ∃ e ∈ s.filter.entries, (s.rejection? e).isSome) ∧
    (∀ x, (s.build y ids).run [] = .error x ↔ ∃ e ∈ s.filter.entries, s.rejection? e = some x ∧
      ∀ e' ∈ s.filter.entries, (s.rejection? e').isSome → e.1 ≤ e'.1) ∧
    (∀ e x, s.rejection? e = some x →
      x = .invalidFilterField e.1 ∨ ∃ reason, x = .invalidFilterValue e.1 reason) ∧
    (∀ f raw o x, parse f.type raw = .ok (o, x) ↔ IsParsed f raw o x) ∧
    ∀ p, s.predicate ids = .ok p → ∀ a ∈ p, a.IsFull := by
  refine ⟨run_build, ?fails, fun x => ?first, fun e x h => ?kind, fun _ _ _ _ => parse_eq_ok_iff_isParsed,
    fun _ => isFull_of_predicate⟩
  case fails =>
    simp only [run_build_eq_error, ← Option.isSome_iff_exists]
    exact List.findSome?_isSome_iff
  case first => rw [run_build_eq_error, Dictionary.findSome?_entries]
  case kind =>
    rw [rejection?] at h
    split at h
    case h_1 => exact .inl (Option.some.inj h).symm
    case h_2 f _ =>
      split at h
      case h_1 m _ => exact .inr ⟨m.message, (Option.some.inj h).symm⟩
      case h_2 => cases h

-- Two of three filters are turned down; a list of two numbers is excluded.
theorem build_rejects_first_or_renders_rating :
    (build Dialect.sqlite.style none
        ⟨.movie, .ofList [("name", "*x"), ("duration", "abc"), ("age_rating", "300")], .any⟩).run [] =
      .error (.invalidFilterValue "age_rating" "'300' is not a byte (-128..=127)") ∧
    ∃ clause, (render Dialect.sqlite.style (Schema.field .root "duration" .integer) .notIn
      (.list [.int 90, .int 120])).run [] = .ok (clause, [.int 90, .int 120]) := by
  constructor
  · exact ((build_rejects_first_or_renders Dialect.sqlite.style none _).2.2.1 _).mpr
      ⟨("age_rating", "300"), by decide, by decide +kernel, by decide +kernel⟩
  · have hparse : parse .integer "!:90, 120" = .ok (.notIn, .list [.int 90, .int 120]) := by decide +kernel
    have hparsed := ((build_rejects_first_or_renders Dialect.sqlite.style none ⟨.movie, ∅, .any⟩).2.2.2.2.1
      (Schema.field .root "duration" .integer) "!:90, 120" .notIn (.list [.int 90, .int 120])).mp hparse
    exact hparsed.rendered Dialect.sqlite.style []

end Search

end MediaCatalog
