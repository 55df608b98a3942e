import MediaCatalog.Proofs.Filter.Meaning
import MediaCatalog.Proofs.Schema

namespace MediaCatalog.Search

open Sql MediaCatalog.Filter

variable {κ : Type} {e : Engine κ} {fits : FieldType → κ → Prop} {s : Search} {scope : Option (List Int)}
  {p : Predicate} {row : Column → κ}

-- What a search asks of a row whose entry has a number and whose translation has a language, unless they
-- are null.
structure Asks (e : Engine κ) (s : Search) (scope : Option (List Int)) (row : Column → κ)
    (id : Option Int) (language : Option String) : Prop where
  language : ∀ t, s.language = .tag t → language = some t
  scope    : ∀ ids, scope = some ids → ∃ i ∈ ids, id = some i
  filters  : ∀ x ∈ s.filter.entries,
    ∃ f, s.schema.find? x.1 = some f ∧ passes e f.type x.2 (row (Column.ofField f))

-- A search that filters by fields with one value each.
def IsScalar (s : Search) : Prop :=
  ∀ x ∈ s.filter.entries, ∀ f, s.schema.find? x.1 = some f → ¬f.type.isList

theorem condition_eq_ok {schema : Schema} {name raw : String} {a : Condition} :
    condition schema name raw = .ok a ↔
      ∃ f c, schema.find? name = some f ∧ Criterion.ofField f raw = .ok c ∧ c.condition f = a := by
  simp [condition, Schema.resolve_eq_ok]

theorem predicate_eq_ok :
    s.predicate scope = .ok p ↔ ∃ filters,
      s.filter.entries.mapM (fun (name, raw) => condition s.schema name raw) = .ok filters ∧
        s.language.predicate ++ filters ++ (scope.map among).toList = p := by
  simp only [predicate, Except.bind_eq_ok, Except.pure_eq_ok]

theorem predicate_of_filters {filters : Predicate}
    (hf : s.filter.entries.mapM (fun (name, raw) => condition s.schema name raw) = .ok filters) :
    s.predicate none = .ok (s.language.predicate ++ filters) :=
  predicate_eq_ok.mpr ⟨filters, hf, by simp⟩

-- A search without filters asks for its language and its scope alone.
theorem predicate_unfiltered {schema : Schema} {l : Language} :
    (Search.mk schema ∅ l).predicate scope = .ok (l.predicate ++ (scope.map among).toList) :=
  predicate_eq_ok.mpr ⟨[], rfl, by simp⟩

theorem predicate_of_condition {schema : Schema} {name raw : String} {a : Condition} {l : Language}
    (ha : condition schema name raw = .ok a) :
    (Search.mk schema (.ofList [(name, raw)]) l).predicate scope =
      .ok (l.predicate ++ [a] ++ (scope.map among).toList) := by
  have hentries : (Dictionary.ofList [(name, raw)]).entries = [(name, raw)] := rfl
  refine predicate_eq_ok.mpr ⟨[a], ?_, rfl⟩
  rw [hentries]
  exact List.mapM_eq_ok.mpr (.cons ha .nil)

-- A search that is restricted to some entries asks them for nothing else.
theorem predicate_some {ids : List Int} (hp : s.predicate none = .ok p) :
    s.predicate (some ids) = .ok (p ++ [among ids]) := by
  obtain ⟨filters, hf, rfl⟩ := predicate_eq_ok.mp hp
  exact predicate_eq_ok.mpr ⟨filters, hf, by simp⟩

-- Every part of a predicate is the language, a filter or the scope.
theorem forall_mem_of_predicate {P : Condition → Prop} (hp : s.predicate scope = .ok p)
    (language : ∀ t, P (.compares Column.language .equal (.text t)))
    (filter : ∀ {name raw a}, condition s.schema name raw = .ok a → P a) (among : ∀ ids, P (among ids)) :
    ∀ a ∈ p, P a := by
  obtain ⟨filters, hf, rfl⟩ := predicate_eq_ok.mp hp
  intro a ha
  simp only [List.mem_append] at ha
  rcases ha with (ha | ha) | ha
  · cases hl : s.language with
    | any => simp [hl, Language.predicate] at ha
    | tag t =>
      simp only [hl, Language.predicate, List.mem_singleton] at ha
      exact ha ▸ language t
  · have ⟨_, _, hx⟩ := List.exists_of_mapM_eq_ok hf a ha
    exact filter hx
  · obtain ⟨ids, -, rfl⟩ := Option.map_eq_some_iff.mp (Option.mem_toList.mp ha)
    exact among ids

theorem isProper_of_predicate (hs : s.schema.IsSound) (hp : s.predicate scope = .ok p) :
    ∀ a ∈ p, a.IsProper := by
  refine forall_mem_of_predicate hp (fun _ => (by decide : Schema.isIdentifier "language")) (fun ha => ?_) fun ids => ?_
  · have ⟨f, c, hfind, hc, hca⟩ := condition_eq_ok.mp ha
    exact hca ▸ Criterion.isProper_condition (hs.identifier f (Schema.mem_of_find? hfind).1) hc
  · cases ids with
    | nil => trivial
    | cons i ids => exact ⟨by decide, by simp⟩

section Truth

variable (h : e.Lawful fits)

include h

theorem compareWith_equal_text {c : Column} {o : Option String}
    (hc : row c = e.store (o.elim .null .text)) (t : String) :
    Condition.compareWith e row c .equal (.text t) = some true ↔ o = some t := by
  cases o with
  | none =>
    have hfit : fits .text (row c) := hc ▸ h.fits_null .text
    rw [compareWith_eq h hfit .equal (v := .text t) trivial, hc]
    simp [h.isNull_null]
  | some u =>
    rw [Condition.compareWith, hc, Option.some.injEq, ← h.compare_text u t]
    simp [Relation.holds, Ordering.isEq_iff_eq_eq]

theorem compareWith_equal_int {c : Column} {o : Option Int}
    (hc : row c = e.store (o.elim .null .int)) (i : Int) :
    Condition.compareWith e row c .equal (.int i) = some true ↔ o = some i := by
  cases o with
  | none =>
    have hfit : fits .integer (row c) := hc ▸ h.fits_null .integer
    rw [compareWith_eq h hfit .equal (v := .int i) trivial, hc]
    simp [h.isNull_null]
  | some j =>
    rw [Condition.compareWith, hc, Option.some.injEq]
    simp [h.compare_int, Relation.holds, Ordering.isEq_iff_eq_eq]

theorem truth_language {language : Option String}
    (hl : row Column.language = e.store (language.elim .null .text)) :
    (∀ a ∈ s.language.predicate, a.truth e row = some true) ↔
      ∀ t, s.language = .tag t → language = some t := by
  cases s.language with
  | any => simp [Language.predicate]
  | tag t => simp [Language.predicate, compareWith_equal_text h hl]

theorem truth_scope {id : Option Int} (hid : row Column.id = e.store (id.elim .null .int)) :
    (∀ a ∈ (scope.map among).toList, a.truth e row = some true) ↔
      ∀ ids, scope = some ids → ∃ i ∈ ids, id = some i := by
  cases scope with
  | none => simp
  | some ids =>
    cases ids with
    | nil => simp [among]
    | cons i ids =>
      simp only [Option.map_some, Option.toList_some, List.mem_singleton, forall_eq, among,
        Condition.truth, Truth.any_eq_true, List.map_map, List.mem_map, Function.comp_apply,
        Option.some.injEq, forall_eq']
      constructor
      · rintro ⟨_, ⟨j, hj, rfl⟩, hjc⟩
        exact ⟨j, hj, (compareWith_equal_int h hid j).mp hjc⟩
      · rintro ⟨j, hj, hjc⟩
        exact ⟨_, ⟨j, hj, rfl⟩, (compareWith_equal_int h hid j).mpr hjc⟩

theorem truth_filters (hs : s.IsScalar)
    (hr : ∀ f ∈ s.schema.fields, fits f.type (row (Column.ofField f))) {filters : List Condition}
    (hf : s.filter.entries.mapM (fun (name, raw) => condition s.schema name raw) = .ok filters) :
    (∀ a ∈ filters, a.truth e row = some true) ↔ ∀ x ∈ s.filter.entries,
      ∃ f, s.schema.find? x.1 = some f ∧ passes e f.type x.2 (row (Column.ofField f)) := by
  refine (List.all_of_mapM_eq_ok hf fun x hx a ha => ?_).symm
  have ⟨f, c, hfind, hc, hca⟩ := condition_eq_ok.mp ha
  have hfit := hr f (Schema.mem_of_find? hfind).1
  rw [← hca, Criterion.truth_condition_scalar h (hs x hx f hfind) hc hfit]
  constructor
  · rintro ⟨g, hg, hp⟩
    cases hfind.symm.trans hg
    exact hp
  · intro hp
    exact ⟨f, hfind, hp⟩

end Truth

-- Asked about the same list of tokens, one of IN and NOT IN is true and the other is not.
theorem exists_notIn_of_isIn {schema : Schema} {name operand raw raw' : String} {f : Field}
    {a : Condition} (hf : schema.find? name = some f) (hs : ¬f.type.isList)
    (hd : Operator.detect raw = (.isIn, operand)) (hd' : Operator.detect raw' = (.notIn, operand))
    (ha : condition schema name raw = .ok a) :
    ∃ b, condition schema name raw' = .ok b ∧
      ∀ row : Column → κ, b.truth e row = some true ↔ a.truth e row ≠ some true := by
  obtain ⟨g, c, hg, hc, rfl⟩ := condition_eq_ok.mp ha
  cases hf.symm.trans hg
  obtain ⟨test, ht, rfl⟩ := (Criterion.ofField_scalar hs).mp hc
  rw [hd] at ht
  simp only [ScalarTest.read, Except.bind_eq_ok, Except.pure_eq_ok] at ht
  obtain ⟨ts, hts, vs, hvs, rfl⟩ := ht
  have hc' : Criterion.ofField f raw' = .ok (.ofScalar (.notIn vs)) := by
    rw [Criterion.ofField_scalar hs, hd']
    exact ⟨_, by simp [ScalarTest.read, hts, hvs], rfl⟩
  exact ⟨_, condition_eq_ok.mpr ⟨f, _, hf, hc', rfl⟩, fun row => by
    simp [Criterion.condition, ScalarTest.condition]⟩

-- The text of the predicate, read as SQL with the bound values at their placeholders, is true of the rows that
-- the search asks for. A list of rows falls apart into those that IN selects and those that NOT IN selects.
theorem predicate_true_iff_asks (h : e.Lawful fits) (hp : s.predicate scope = .ok p)
    (hs : s.IsScalar) :
    (∀ row id language, (∀ f ∈ s.schema.fields, fits f.type (row (Column.ofField f))) →
      row Column.id = e.store (Option.elim id .null .int) →
      row Column.language = e.store (Option.elim language .null .text) →
        (p.truth e row = some true ↔ s.Asks e scope row id language)) ∧
    (s.schema.validate = .ok () → ∀ d, ∃ f, ((p.phrase d).statement d).formula? d = some f ∧
      ∀ row element, f.truth e row element = p.truth e row) ∧
    (∀ name raw raw' operand f a, s.schema.find? name = some f → ¬f.type.isList →
      Operator.detect raw = (.isIn, operand) → Operator.detect raw' = (.notIn, operand) →
      condition s.schema name raw = .ok a → ∃ b, condition s.schema name raw' = .ok b ∧
        ∀ rows : List (Column → κ), (rows.filter (a.truth e · == some true) ++
          rows.filter (b.truth e · == some true)).Perm rows) := by
  refine ⟨?truth, ?text, ?split⟩
  case truth =>
    intro row id language hr hid hl
    obtain ⟨filters, hf, rfl⟩ := predicate_eq_ok.mp hp
    have hlanguage := truth_language h (s := s) hl
    have hscope : (∀ a ∈ (scope.map among).toList, a.truth e row = some true) ↔ _ := truth_scope h hid
    have hfilters := truth_filters h hs hr hf
    simp only [Predicate.truth_eq_true, List.forall_mem_append, hlanguage, hscope, hfilters]
    constructor
    · rintro ⟨⟨hl, hf⟩, hs⟩
      exact ⟨hl, hs, hf⟩
    · rintro ⟨hl, hs, hf⟩
      exact ⟨⟨hl, hf⟩, hs⟩
  case text =>
    intro hv d
    have hproper := isProper_of_predicate (Schema.validate_eq_ok.mp hv) hp
    exact ⟨p.formula d, p.formula?_statement hproper, fun row x => p.truth_formula h d row x⟩
  case split =>
    intro name raw raw' operand f a hf hl hd hd' ha
    have ⟨b, hb, hab⟩ := exists_notIn_of_isIn (κ := κ) (e := e) hf hl hd hd' ha
    refine ⟨b, hb, fun rows => ?_⟩
    have hnot : (b.truth e · == some true) = fun row => !(a.truth e row == some true) := by
      funext row
      rw [Bool.eq_iff_iff, beq_iff_eq, hab row]
      simp
    rw [hnot]
    exact List.filter_append_perm _ rows

-- Entries 3 and 7 in English, as far as they last between 90 and 120 minutes and have neither of two names.
-- The row has no name at all.
theorem predicate_true_iff_asks_long :
    let s : Search :=
      ⟨.movie, .ofList [("duration", "::90,120"), ("name", "!:Heat,Alien")], .tag "en"⟩
    let p : Predicate :=
      [.compares Column.language .equal (.text "en"),
        .between ⟨.root, "duration"⟩ (.int 90) (.int 120),
        .not (.orFalse (.isIn ⟨.translation, "name"⟩ [.text "Heat", .text "Alien"])),
        .isIn Column.id [.int 3, .int 7]]
    let row (c : Column) : Value :=
      if c = Column.id then .int 7
      else if c = Column.language then .text "en"
      else if c.name = "duration" then .int 120
      else .null
    s.predicate (some [3, 7]) = .ok p ∧ s.IsScalar ∧ p.truth Engine.postgres row = some true ∧
      s.Asks Engine.postgres (some [3, 7]) row (some 7) (some "en") := by
  intro s p row
  have hp : s.predicate (some [3, 7]) = .ok p := by rfl
  have hs : s.IsScalar := by
    have hall : ∀ x ∈ s.filter.entries, (s.schema.find? x.1).all (!·.type.isList) := by decide
    intro x hx f hf
    have := hall x hx
    simpa [hf] using this
  have hr : ∀ f ∈ s.schema.fields, Value.IsOf f.type (row (Column.ofField f)) := by
    simp [s, row, Schema.movie, Schema.field, Column.ofField, Column.id, Column.language,
      Value.IsOf, Scalar.IsOf]
  have ht : p.truth Engine.postgres row = some true := by rfl
  have h := predicate_true_iff_asks Engine.postgres_lawful hp hs
  exact ⟨hp, hs, ht, (h.1 row (some 7) (some "en") hr rfl rfl).mp ht⟩

end MediaCatalog.Search
