import MediaCatalog.Proofs.Filter.Operand
import MediaCatalog.Proofs.Json
import MediaCatalog.Proofs.Sql.Like
import MediaCatalog.Proofs.Text.Split

namespace MediaCatalog

namespace Sql

-- SQLite looks for a stretch of characters that it sees alike and sees texts up to their first NUL character
-- only. Where the stretch is cut short itself, its visible part has to be the last that is seen.
def Like.IsSeenIn (stretch text : String) : Prop :=
  if '\x00' ∈ stretch.toList then
    OccursLast Engine.seenAlike (Engine.beforeNul stretch) (Engine.beforeNul text)
  else Occurs Engine.seenAlike stretch.toList (Engine.beforeNul text)

-- The text of a single condition is its test.
theorem Condition.formula?_statement {d : Dialect} {a : Condition} (h : a.IsProper) :
    ((a.phrase d).statement d).formula? d = some (.one (a.test d)) := by
  have := (a.spells_test (d := d) h).tokens?
  have ht : (Formula.one (a.test d)).tokens = (a.test d).tokens := by simp [Formula.tokens]
  simp [Statement.formula?, this, ← ht, Formula.ofTokens?_tokens]

end Sql

namespace Filter

open Sql

-- The elements of a list that a column may hold.
def listed (l : Option (List String)) : Value :=
  l.elim .null .list

theorem elements_sqlite (l : Option (List String)) :
    Engine.sqlite.elements (Engine.sqlite.store (listed l)) = l.getD [] := by
  cases l with
  | none => rfl
  | some l => exact Engine.Cell.elements_ofValue_list l

theorem elements_postgres (l : Option (List String)) :
    Engine.postgres.elements (Engine.postgres.store (listed l)) = l.getD [] := by
  cases l <;> rfl

theorem passesList_congr {contains contains' : String → String → Prop}
    (h : ∀ stretch text, contains stretch text ↔ contains' stretch text) (raw : String)
    (l : List String) : passesList contains raw l ↔ passesList contains' raw l := by
  have heq : contains = contains' := by
    funext stretch text
    exact propext (h stretch text)
  rw [heq]

-- A NUL character is in an operand just if it is in one of its tokens.
theorem exists_nul_tokens {operand : String} :
    (∃ t ∈ tokens operand, '\x00' ∈ t.toList) ↔ '\x00' ∈ operand.toList := by
  have hsplit : (∃ t ∈ Text.split ',' operand, '\x00' ∈ t.toList) ↔ '\x00' ∈ operand.toList :=
    Text.exists_mem_split (by decide)
  rw [tokens, ← hsplit]
  simp only [List.mem_map, exists_exists_and_eq_and, Text.mem_trim (c := '\x00') (by decide)]

section

variable {f : Field} {raw : String} {a : Criterion} (hf : f.type.isList)
  (hc : Schema.isIdentifier f.column) (ha : Criterion.ofField f raw = .ok a)

include hf hc ha

-- What the text of a filter means in an engine that gets to see the elements of a list.
theorem exists_formula_of_list {κ : Type} {e : Engine κ} {fits : FieldType → κ → Prop}
    (h : e.Lawful fits) (d : Dialect) :
    ∃ φ, (((a.condition f).phrase d).statement d).formula? d = some φ ∧
      ∀ row element, ∃ b, φ.truth e row element = some b ∧
        (b ↔ passesList (e.contains · ·) raw (e.elements (row (Column.ofField f)))) := by
  have hproper := Criterion.isProper_condition hc ha
  refine ⟨_, Condition.formula?_statement hproper, fun row element => ?_⟩
  have ht : (Formula.one ((a.condition f).test d)).truth e row element =
      (a.condition f).truth e row := by
    rw [Formula.truth]
    exact Condition.truth_test h d row element _
  rw [ht]
  exact Criterion.truth_condition_list hf ha

omit hc in
-- Only SQLite refuses a filter on a list, for the length of a pattern that has an element to be tried on.
theorem isRefused_of_list {κ : Type} {e : Engine κ} {row : Column → κ} :
    (a.condition f).isRefused e row ↔
      ((Operator.detect raw).1 = .like ∨ (Operator.detect raw).1 = .notLike) ∧
        e.limits.pattern.any (· < (Like.containing (Operator.detect raw).2).utf8ByteSize) ∧
        e.elements (row (Column.ofField f)) ≠ [] := by
  obtain ⟨test, ht, rfl⟩ := (Criterion.ofField_list hf).mp ha
  generalize (Operator.detect raw).2 = operand at ht ⊢
  generalize (Operator.detect raw).1 = o at ht ⊢
  cases o
  case equal | notEqual =>
    cases ht
    simp [Criterion.condition, ListTest.condition, Condition.isRefused]
  case like | notLike =>
    cases ht
    simp [Criterion.condition, ListTest.condition, Condition.isRefused,
      Condition.isRefused.tooLong]
  case isIn | notIn =>
    obtain ⟨ts, _, rfl⟩ := Except.map_eq_ok.mp ht
    simp [Criterion.condition, ListTest.condition, Condition.isRefused]
  all_goals exact absurd ht Except.throw_ne_ok

omit hc in
-- A filter on a list is as deep as it has tokens.
theorem depth_of_list :
    Predicate.depth [a.condition f] ≤ 8 + (tokens (Operator.detect raw).2).length := by
  obtain ⟨test, ht, rfl⟩ := (Criterion.ofField_list hf).mp ha
  generalize (Operator.detect raw).2 = operand at ht ⊢
  generalize (Operator.detect raw).1 = o at ht ⊢
  have hpos : 0 < (tokens operand).length := List.length_pos_iff.mpr (tokens_ne_nil operand)
  cases o
  case equal | notEqual | like | notLike =>
    cases ht
    simp only [Criterion.condition, ListTest.condition, Predicate.depth, Condition.height,
      List.foldl_nil]
    omega
  case isIn | notIn =>
    obtain ⟨ts, hts, rfl⟩ := Except.map_eq_ok.mp ht
    rw [elements_eq_ok hts]
    simp only [Criterion.condition, ListTest.condition, Predicate.depth, Condition.height,
      List.foldl_nil]
    omega
  all_goals exact absurd ht Except.throw_ne_ok

omit hc in
-- PostgreSQL has all that a filter on a list binds, unless there is a NUL character in it.
theorem takes_operands_of_list :
    (∀ v ∈ a.operands, Engine.postgres.takes v) ↔ '\x00' ∉ (Operator.detect raw).2.toList := by
  obtain ⟨test, ht, rfl⟩ := (Criterion.ofField_list hf).mp ha
  generalize (Operator.detect raw).2 = operand at ht ⊢
  generalize (Operator.detect raw).1 = o at ht ⊢
  cases o
  case equal | notEqual =>
    cases ht
    simp [Criterion.operands, ListTest.operands, Engine.takes_postgres_text]
  case like | notLike =>
    cases ht
    simp [Criterion.operands, ListTest.operands, Engine.takes_postgres_text, Engine.mem_containing]
  case isIn | notIn =>
    obtain ⟨ts, hts, rfl⟩ := Except.map_eq_ok.mp ht
    rw [elements_eq_ok hts, ← exists_nul_tokens]
    simp [Criterion.operands, ListTest.operands, Engine.takes_postgres_text]
  all_goals exact absurd ht Except.throw_ne_ok

omit hc in
-- It binds at most as many values as it has tokens.
theorem length_operands_of_list : a.operands.length ≤ (tokens (Operator.detect raw).2).length := by
  obtain ⟨test, ht, rfl⟩ := (Criterion.ofField_list hf).mp ha
  generalize (Operator.detect raw).2 = operand at ht ⊢
  generalize (Operator.detect raw).1 = o at ht ⊢
  have hpos : 0 < (tokens operand).length := List.length_pos_iff.mpr (tokens_ne_nil operand)
  cases o
  case equal | notEqual | like | notLike =>
    cases ht
    exact hpos
  case isIn | notIn =>
    obtain ⟨ts, hts, rfl⟩ := Except.map_eq_ok.mp ht
    rw [elements_eq_ok hts]
    simp [Criterion.operands, ListTest.operands]
  all_goals exact absurd ht Except.throw_ne_ok

-- A filter on a list says the same of the JSON text of a list and of the list as an array, and is never
-- unknown. What LIKE takes for a stretch of a text is all that the databases do not agree on. PostgreSQL refuses
-- operands with a NUL character and too many tokens, SQLite a pattern or a list of tokens that is too long for it.
theorem list_filter_means :
    (∃ φ, (((a.condition f).phrase .sqlite).statement .sqlite).formula? .sqlite = some φ ∧
      ∀ l row element, row (Column.ofField f) = Engine.sqlite.store (listed l) →
        ∃ b, φ.truth Engine.sqlite row element = some b ∧
          (b ↔ passesList Like.IsSeenIn raw (l.getD []))) ∧
    (∃ φ, (((a.condition f).phrase .postgres).statement .postgres).formula? .postgres = some φ ∧
      ∀ l row element, row (Column.ofField f) = Engine.postgres.store (listed l) →
        ∃ b, φ.truth Engine.postgres row element = some b ∧
          (b ↔ passesList (fun stretch text => stretch.toList <:+: text.toList) raw (l.getD []))) ∧
    (∀ row, (a.condition f).isRefused Engine.postgres row = false) ∧
    (Engine.postgres.excess? ((a.condition f).phrase .postgres).values = none ↔
      '\x00' ∉ (Operator.detect raw).2.toList ∧ ((a.condition f).phrase .postgres).values.length ≤ 65535) ∧
    (∀ l row, row (Column.ofField f) = Engine.sqlite.store (listed l) →
      ((a.condition f).isRefused Engine.sqlite row ↔
        ((Operator.detect raw).1 = .like ∨ (Operator.detect raw).1 = .notLike) ∧
          50000 < (Like.containing (Operator.detect raw).2).utf8ByteSize ∧ l.getD [] ≠ [])) ∧
    (Engine.sqlite.limits.depth.any (· < Predicate.depth [a.condition f]) ∨
        Engine.sqlite.excess? ((a.condition f).phrase .sqlite).values ≠ none →
      992 < (tokens (Operator.detect raw).2).length) := by
  refine ⟨?sqlite, ?postgres, ?never, ?values, ?pattern, ?tokens⟩
  case sqlite =>
    have ⟨φ, hφ, ht⟩ := exists_formula_of_list hf hc ha Engine.sqlite_lawful .sqlite
    refine ⟨φ, hφ, fun l row element hl => ?_⟩
    have ⟨b, hb, hiff⟩ := ht row element
    rw [hl, elements_sqlite] at hiff
    exact ⟨b, hb, hiff.trans (passesList_congr Engine.sqlite_like_containing raw _)⟩
  case postgres =>
    have ⟨φ, hφ, ht⟩ := exists_formula_of_list hf hc ha Engine.postgres_lawful .postgres
    refine ⟨φ, hφ, fun l row element hl => ?_⟩
    have ⟨b, hb, hiff⟩ := ht row element
    rw [hl, elements_postgres] at hiff
    exact ⟨b, hb, hiff.trans (passesList_congr Engine.postgres_like_containing raw _)⟩
  case never =>
    intro row
    rw [← Bool.not_eq_true, isRefused_of_list hf ha]
    simp [Engine.postgres]
  case pattern =>
    intro l row hl
    rw [isRefused_of_list hf ha, hl, elements_sqlite]
    simp [Engine.sqlite]
  case values =>
    rw [Engine.excess?_eq_none, Criterion.values_condition, takes_operands_of_list hf ha, and_comm]
    rfl
  case tokens =>
    have hd := depth_of_list hf ha
    have hl := length_operands_of_list hf ha
    rw [ne_eq, Engine.excess?_eq_none, Criterion.values_condition]
    simp only [Engine.sqlite, Option.any_some, decide_eq_true_eq, implies_true, and_true]
    omega

end

-- One of the genres asked for is missing.
theorem list_filter_means_missing :
    let f := Schema.field .root "genres" .textList
    let a : Criterion := .ofList (.hasNotAll ["Drama", "Crime"])
    Criterion.ofField f "!:Drama, Crime" = .ok a ∧
      (∃ φ, (((a.condition f).phrase .sqlite).statement .sqlite).formula? .sqlite = some φ ∧
        φ.truth Engine.sqlite (fun _ => Engine.sqlite.store (.list ["Drama"])) "" = some true) ∧
      (∃ φ, (((a.condition f).phrase .postgres).statement .postgres).formula? .postgres = some φ ∧
        φ.truth Engine.postgres (fun _ => Engine.postgres.store (.list ["Drama"])) "" =
          some true) := by
  intro f a
  have ha : Criterion.ofField f "!:Drama, Crime" = .ok a := by rfl
  have hpass (contains : String → String → Prop) :
      passesList contains "!:Drama, Crime" ["Drama"] := by
    change ¬∀ t ∈ ["Drama", "Crime"], t ∈ ["Drama"]
    decide
  have ⟨⟨φ, hφ, ht⟩, ⟨ψ, hψ, ht'⟩, _⟩ := list_filter_means rfl (by decide) ha
  have ⟨b, hb, hiff⟩ := ht (some ["Drama"]) (fun _ => Engine.sqlite.store (.list ["Drama"])) "" rfl
  have ⟨b', hb', hiff'⟩ := ht' (some ["Drama"]) (fun _ => .list ["Drama"]) "" rfl
  refine ⟨ha, ⟨φ, hφ, ?_⟩, ⟨ψ, hψ, ?_⟩⟩
  · rw [hb, hiff.mpr (hpass _)]
  · exact hb'.trans (congrArg some (hiff'.mpr (hpass _)))

-- What comes behind a NUL character in the operand of LIKE is lost on SQLite, and with it the wildcard at the
-- end of the pattern: every list with an element passes.
theorem sqlite_like_nul :
    let f := Schema.field .root "genres" .textList
    let a : Criterion := .ofList (.like "\x00x")
    Criterion.ofField f "*\x00x" = .ok a ∧
      (a.condition f).truth Engine.sqlite (fun _ => Engine.sqlite.store (.list ["Drama"])) =
        some true ∧
      ¬∃ t ∈ ["Drama"], Like.Occurs (·.toLower == ·.toLower) "\x00x".toList t.toList := by
  intro f a
  have ha : Criterion.ofField f "*\x00x" = .ok a := by rfl
  refine ⟨ha, by rfl, ?_⟩
  simp only [← Like.matchesText_within]
  decide

end Filter

end MediaCatalog
