import MediaCatalog.Proofs.Schema
import MediaCatalog.Proofs.Sql.Engine
import MediaCatalog.Proofs.Sql.Formula.Reader

namespace MediaCatalog.Sql

open MediaCatalog.Filter (Relation)

namespace Condition

def hasTest (d : Dialect) (c : Column) (item : String) : Test :=
  match d with
  | .sqlite   => .any (.jsonEach c) (.one (.compares .jsonValue .equal (.value (.text item))))
  | .postgres => .isNotNull (.position c (.text item))

def hasLikeTest (d : Dialect) (c : Column) (pattern : String) : Test :=
  match d with
  | .sqlite   => .any (.jsonEach c) (.one (.like .jsonValue false (.value (.text pattern))))
  | .postgres => .any (.unnest c) (.one (.like .item false (.value (.text pattern))))

-- Tests over no values at all have no syntax of their own.
def test (d : Dialect) : Condition → Test
  | never                       => .compares .one .equal .zero
  | compares c r v              => .compares (.column c) r (.value (.scalar v))
  | between c low high          =>
    .between (.column c) (.value (.scalar low)) (.value (.scalar high))
  | isIn _ []                   => .compares .one .equal .zero
  | isIn c (v :: vs)            => .isIn (.column c) (.scalar v) (vs.map .scalar)
  | like c negated cast pattern =>
    .like (if cast then .castText c else .column c) negated (.value (.text pattern))
  | has c item                  => hasTest d c item
  | hasAll _ []                 => .compares .one .equal .one
  | hasAll c (x :: xs)          =>
    .group (.ofTests (hasTest d c x) (xs.map (hasTest d c)))
  | hasLike c pattern           => hasLikeTest d c pattern
  | orFalse a                   => .coalesce (.one (test d a))
  | not a                       => .not (test d a)

attribute [simp] test truth

-- The columns have names that need no quotes, and there is something to test.
def IsProper : Condition → Prop
  | never                                          => True
  | compares c .. | between c .. | like c .. | has c .. | hasLike c .. =>
    Schema.isIdentifier c.name
  | isIn c vs                                      => Schema.isIdentifier c.name ∧ vs ≠ []
  | hasAll c items                                 => Schema.isIdentifier c.name ∧ items ≠ []
  | orFalse a | not a                              => IsProper a

end Condition

namespace Predicate

def formula (d : Dialect) : Predicate → Formula
  | []      => .one (.compares .one .equal .one)
  | c :: cs => .ofTests (c.test d) (cs.map (·.test d))

end Predicate

section Spelling

variable {d : Dialect}

open Phrase (Spells)

theorem isWord_of_isIdentifier {s : String} (h : Schema.isIdentifier s) :
    s.toList ≠ [] ∧ s.toList.all Text.isWord := by
  have ⟨hne, hchars⟩ := Schema.chars_of_isIdentifier h
  refine ⟨hne, List.all_eq_true.mpr fun c hc => ?_⟩
  rcases hchars c hc with h | h | h
  · have ha : c.isAlpha := by
      change (c.isUpper || c.isLower) = true
      rw [h, Bool.or_true]
    simp [Text.isWord, Text.isAsciiAlphanumeric, ha]
  · simp [Text.isWord, Text.isAsciiAlphanumeric, h]
  · simp [Text.isWord, h]

theorem spells_closing : Spells d [.text ")"] [.mark ')'] :=
  Spells.text (t := [.mark ')']) (p := .nothing) (fun vs => by cases d <;> rfl) fun vs => rfl

-- A column between two texts, the second of which does not go on with the name.
theorem Column.run?_text {c : Column} (h : Schema.isIdentifier c.name) (vs : List Value)
    {p q : String} {t u : List Token}
    (hp : Token.run? d vs .nothing p.toList = some (t, .nothing))
    (hq : ∀ w, Token.run? d vs (.word w) q.toList = some (.word (.ofList w) :: u, .nothing)) :
    Token.run? d vs .nothing (p ++ c.text ++ q).toList =
      some (t ++ c.tokens ++ u, .nothing) := by
  have ⟨hne, hw⟩ := isWord_of_isIdentifier h
  have hc : Token.run? d vs .nothing c.text.toList =
      some ([.word c.owner.tableAlias, .mark '.'], .word c.name.toList) := by
    have hname : Token.run? d vs .nothing c.name.toList = some ([], .word c.name.toList) := by
      cases hcs : c.name.toList with
      | nil => exact absurd hcs hne
      | cons x xs =>
        simp only [hcs, List.all_cons, Bool.and_eq_true] at hw
        simp [Token.Pending.step, hw.1, Token.Pending.close?, Token.run?_word _ hw.2]
    have halias : Token.run? d vs .nothing (c.owner.tableAlias ++ ".").toList =
        some ([.word c.owner.tableAlias, .mark '.'], .nothing) := by
      cases d <;> cases c.owner <;> rfl
    rw [Column.text, String.toList_append, Token.run?_append, halias]
    simp [hname]
  simp [Token.run?_append, hp, hc, hq, Column.tokens, String.ofList_toList]

section

variable {c : Column} (hc : Schema.isIdentifier c.name)

include hc

theorem spells_compares (r : Relation) (v : Scalar) :
    Spells d ((Condition.compares c r v).phrase d) ((Condition.compares c r v).test d).tokens := by
  have hs : ∀ vs, Token.run? d vs .nothing (c.text ++ " " ++ r.sign ++ " ").toList =
      some (c.tokens ++ [Token.sign r.sign], .nothing) := fun vs => by
    have := Column.run?_text (d := d) (p := "") (q := " " ++ r.sign ++ " ")
      (u := [.sign r.sign]) hc vs rfl fun w => by cases d <;> cases r <;> rfl
    simpa [String.append_assoc] using this
  have := (Spells.bind (d := d) (.scalar v)).cons hs
  simpa [Condition.phrase, Test.tokens, Operand.tokens] using this

theorem spells_between (low high : Scalar) :
    Spells d ((Condition.between c low high).phrase d)
      ((Condition.between c low high).test d).tokens := by
  have hs : ∀ vs, Token.run? d vs .nothing (c.text ++ " BETWEEN ").toList =
      some (c.tokens ++ [Token.word "BETWEEN"], .nothing) := fun vs => by
    have := Column.run?_text (d := d) (p := "") (q := " BETWEEN ")
      (u := [.word "BETWEEN"]) hc vs rfl fun w => by cases d <;> rfl
    simpa using this
  have hand : Spells d (.text " AND " :: [.bind (.scalar high)])
      ([Token.word "AND"] ++ [Token.value (.scalar high)]) :=
    (Spells.bind _).cons fun vs => by cases d <;> rfl
  have := ((Spells.bind (.scalar low)).append (c := ' ') rfl rfl hand).cons hs
  simpa [Condition.phrase, Test.tokens, Operand.tokens] using this

theorem spells_isIn (v : Scalar) (vs : List Scalar) :
    Spells d ((Condition.isIn c (v :: vs)).phrase d)
      ((Condition.isIn c (v :: vs)).test d).tokens := by
  have hs : ∀ vs, Token.run? d vs .nothing (c.text ++ " IN (").toList =
      some (c.tokens ++ [Token.word "IN", .mark '('], .nothing) := fun vs => by
    have := Column.run?_text (d := d) (p := "") (q := " IN (")
      (u := [.word "IN", .mark '(']) hc vs rfl fun w => by cases d <;> rfl
    simpa using this
  have hsep : ∀ vs, Token.run? d vs .nothing ", ".toList = some ([.mark ','], .nothing) :=
    fun vs => by cases d <;> rfl
  have hlist := Spells.joined hsep (c := ',') rfl rfl (f := fun v => [.bind v])
    (g := fun v => [.value v]) (.scalar v) (vs.map Value.scalar) fun v _ => Spells.bind v
  have := (hlist.append (c := ')') rfl rfl spells_closing).cons hs
  simpa [Condition.phrase, Test.tokens, Operand.tokens, Phrase.listed, othersTokens_eq] using this

theorem spells_like (negated cast : Bool) (pattern : String) :
    Spells d ((Condition.like c negated cast pattern).phrase d)
      ((Condition.like c negated cast pattern).test d).tokens := by
  have hend : Spells d [.text Condition.escape] ([Token.word "ESCAPE", .quoted "\\"] ++ []) :=
    Spells.nil.cons fun vs => by cases d <;> rfl
  have hbind := (Spells.bind (.text pattern)).append (c := ' ') rfl rfl hend
  cases cast with
  | false =>
    have hs : ∀ vs, Token.run? d vs .nothing
        (c.text ++ if negated then " NOT LIKE " else " LIKE ").toList =
        some (c.tokens ++ if negated then [Token.word "NOT", .word "LIKE"] else [Token.word "LIKE"],
          .nothing) := fun vs => by
      have := Column.run?_text (d := d) (p := "")
        (q := if negated then " NOT LIKE " else " LIKE ")
        (u := if negated then [.word "NOT", .word "LIKE"] else [.word "LIKE"])
        hc vs rfl fun w => by cases d <;> cases negated <;> rfl
      simpa using this
    have := hbind.cons hs
    simpa [Condition.phrase, Test.tokens, Operand.tokens] using this
  | true =>
    have hs : ∀ vs, Token.run? d vs .nothing
        ("CAST(" ++ c.text ++ " AS TEXT)" ++ if negated then " NOT LIKE " else " LIKE ").toList =
        some ((Operand.castText c).tokens ++
          if negated then [Token.word "NOT", .word "LIKE"] else [Token.word "LIKE"], .nothing) :=
      fun vs => by
        have := Column.run?_text (d := d) (p := "CAST(")
          (q := " AS TEXT)" ++ if negated then " NOT LIKE " else " LIKE ")
          (t := [.word "CAST", .mark '('])
          (u := [Token.word "AS", .word "TEXT", .mark ')'] ++
            if negated then [Token.word "NOT", .word "LIKE"] else [Token.word "LIKE"])
          hc vs (by cases d <;> rfl) fun w => by cases d <;> cases negated <;> rfl
        simpa [Operand.tokens, String.append_assoc] using this
    have := hbind.cons hs
    simpa [Condition.phrase, Test.tokens, Operand.tokens] using this

theorem spells_has (item : String) :
    Spells d (Condition.hasPhrase d c item) (Condition.hasTest d c item).tokens := by
  cases d with
  | sqlite =>
    have hs : ∀ vs, Token.run? .sqlite vs .nothing
        ("EXISTS (SELECT 1 FROM json_each(" ++ c.text ++ ") WHERE json_each.value = ").toList = _ :=
      fun vs => Column.run?_text hc vs
        (t := [.word "EXISTS", .mark '(', .word "SELECT", .word "1", .word "FROM",
          .word "json_each", .mark '('])
        (u := [.mark ')', .word "WHERE", .word "json_each", .mark '.', .word "value", .sign "="])
        rfl fun w => rfl
    have := ((Spells.bind (.text item)).append (c := ')') rfl rfl spells_closing).cons hs
    simpa [Condition.hasPhrase, Condition.hasTest, Test.tokens, Formula.tokens, Series.tokens,
      Operand.tokens, Relation.sign] using this
  | postgres =>
    have hs : ∀ vs, Token.run? .postgres vs .nothing
        ("array_position(" ++ c.text ++ ", ").toList = _ :=
      fun vs => Column.run?_text hc vs
        (t := [.word "array_position", .mark '(']) (u := [.mark ',']) rfl fun w => rfl
    have hend : Spells .postgres [.text ") IS NOT NULL"]
        ([Token.mark ')', .word "IS", .word "NOT"] ++ [Token.word "NULL"]) :=
      Spells.text (p := .word "NULL".toList) (fun vs => rfl) fun vs => rfl
    have := ((Spells.bind (.text item)).append (c := ')') rfl rfl hend).cons hs
    simpa [Condition.hasPhrase, Condition.hasTest, Test.tokens, Operand.tokens] using this

theorem spells_hasLike (pattern : String) :
    Spells d (Condition.hasLikePhrase d c pattern) (Condition.hasLikeTest d c pattern).tokens := by
  have hend : Spells d [.text (Condition.escape ++ ")")]
      ([Token.word "ESCAPE", .quoted "\\", .mark ')'] ++ []) :=
    Spells.nil.cons fun vs => by cases d <;> rfl
  have hbind := (Spells.bind (.text pattern)).append (c := ' ') rfl rfl hend
  cases d with
  | sqlite =>
    have hs : ∀ vs, Token.run? .sqlite vs .nothing
        ("EXISTS (SELECT 1 FROM json_each(" ++ c.text ++ ") WHERE json_each.value LIKE ").toList =
          _ :=
      fun vs => Column.run?_text hc vs
        (t := [.word "EXISTS", .mark '(', .word "SELECT", .word "1", .word "FROM",
          .word "json_each", .mark '('])
        (u := [.mark ')', .word "WHERE", .word "json_each", .mark '.', .word "value",
          .word "LIKE"]) rfl fun w => rfl
    have := hbind.cons hs
    simpa [Condition.hasLikePhrase, Condition.hasLikeTest, Test.tokens, Formula.tokens,
      Series.tokens, Operand.tokens] using this
  | postgres =>
    have hs : ∀ vs, Token.run? .postgres vs .nothing
        ("EXISTS (SELECT 1 FROM unnest(" ++ c.text ++ ") AS g WHERE g LIKE ").toList = _ :=
      fun vs => Column.run?_text hc vs
        (t := [.word "EXISTS", .mark '(', .word "SELECT", .word "1", .word "FROM",
          .word "unnest", .mark '('])
        (u := [.mark ')', .word "AS", .word "g", .word "WHERE", .word "g", .word "LIKE"])
        rfl fun w => rfl
    have := hbind.cons hs
    simpa [Condition.hasLikePhrase, Condition.hasLikeTest, Test.tokens, Formula.tokens,
      Series.tokens, Operand.tokens] using this

end

theorem tokens_ofTests (t : Test) (ts : List Test) :
    (Formula.ofTests t ts).tokens = t.tokens ++ ts.flatMap (.word "AND" :: ·.tokens) := by
  induction ts generalizing t with
  | nil => simp [Formula.ofTests, Formula.tokens]
  | cons u us ih => simp [Formula.ofTests, Formula.tokens, ih]

-- Phrases that spell tests spell all of them together when they are joined by `and`.
theorem spells_joined_and {α : Type} {f : α → Phrase} {g : α → Test} (x : α) (xs : List α)
    (h : ∀ y ∈ x :: xs, Spells d (f y) (g y).tokens) :
    Spells d (Phrase.joined " AND " ((x :: xs).map f))
      (Formula.ofTests (g x) (xs.map g)).tokens := by
  have hand : ∀ vs, Token.run? d vs .nothing " AND ".toList = some ([.word "AND"], .nothing) :=
    fun vs => by cases d <;> rfl
  have := Spells.joined hand (c := ' ') rfl rfl x xs h
  simpa [tokens_ofTests, List.flatMap_map] using this

-- The phrase of a condition spells its test.
theorem Condition.spells_test : (a : Condition) → a.IsProper → Spells d (a.phrase d) (a.test d).tokens
  | never, _                       =>
    Spells.text (t := [.word "1", .sign "="]) (p := .word ['0']) (u := [.word "0"])
      (fun vs => by cases d <;> rfl) fun vs => rfl
  | compares _ r v, h              => spells_compares h r v
  | between _ low high, h          => spells_between h low high
  | isIn _ (v :: vs), h            => spells_isIn h.1 v vs
  | isIn _ [], h                   => absurd rfl h.2
  | like _ negated cast pattern, h => spells_like h negated cast pattern
  | has _ item, h                  => spells_has h item
  | hasAll _ [], h                 => absurd rfl h.2
  | hasAll c (x :: xs), h          => by
    have hopen : ∀ vs, Token.run? d vs .nothing "(".toList = some ([.mark '('], .nothing) :=
      fun vs => by cases d <;> rfl
    have hitems := spells_joined_and (g := hasTest d c) x xs fun y _ => spells_has h.1 y
    have := (hitems.append (c := ')') rfl rfl spells_closing).cons hopen
    simpa [phrase, Test.tokens] using this
  | hasLike _ pattern, h           => spells_hasLike h pattern
  | orFalse a, h                   => by
    have hend : Spells d [.text ", FALSE)"] ([Token.mark ',', .word "FALSE", .mark ')'] ++ []) :=
      Spells.nil.cons fun vs => by cases d <;> rfl
    have hopen : ∀ vs, Token.run? d vs .nothing "COALESCE(".toList =
        some ([.word "COALESCE", .mark '('], .nothing) := fun vs => by cases d <;> rfl
    have := ((spells_test a h).append (c := ',') rfl rfl hend).cons hopen
    simpa [phrase, Test.tokens, Formula.tokens] using this
  | not a, h                       => by
    have hopen : ∀ vs, Token.run? d vs .nothing "NOT ".toList = some ([.word "NOT"], .nothing) :=
      fun vs => by cases d <;> rfl
    have := (spells_test a h).cons hopen
    simpa [phrase, Test.tokens] using this

theorem Predicate.spells_formula (p : Predicate) (h : ∀ a ∈ p, a.IsProper) :
    Spells d (p.phrase d) (p.formula d).tokens := by
  cases p with
  | nil =>
    exact Spells.text (t := [.word "1", .sign "="]) (p := .word ['1']) (u := [.word "1"])
      (fun vs => by cases d <;> rfl) fun vs => rfl
  | cons a as =>
    exact spells_joined_and (g := (·.test d)) a as fun b hb => b.spells_test (h b hb)

-- The text of a predicate, with its values at the placeholders, is its formula and no other.
theorem Predicate.formula?_statement (p : Predicate) (h : ∀ a ∈ p, a.IsProper) :
    ((p.phrase d).statement d).formula? d = some (p.formula d) := by
  simp [Statement.formula?, (p.spells_formula h).tokens?, Formula.ofTokens?_tokens]

end Spelling

section Meaning

variable {κ : Type} {e : Engine κ} {fits : FieldType → κ → Prop} (h : e.Lawful fits) (d : Dialect)
  (row : Column → κ) (element : String)

theorem Predicate.truth_eq_true {p : Predicate} :
    p.truth e row = some true ↔ ∀ a ∈ p, a.truth e row = some true := by
  rw [truth, Truth.all_eq_true, List.forall_mem_map]

theorem Predicate.holds_eq_true {p : Predicate} :
    p.holds e row = true ↔ ∀ a ∈ p, a.truth e row = some true := by
  rw [holds, beq_iff_eq, truth_eq_true]

include h

theorem truth_hasTest (c : Column) (item : String) :
    (Condition.hasTest d c item).truth e row element = some ((e.elements (row c)).contains item) := by
  have heq (x : String) :
      (e.compare? (e.store (.text x)) (e.store (.text item)) == some .eq) = (x == item) := by
    rw [Bool.eq_iff_iff, beq_iff_eq, beq_iff_eq, h.compare_text]
  cases d with
  | sqlite =>
    have heach (x : String) :
        (Formula.one (.compares .jsonValue .equal (.value (.text item)))).truth e row x = some true ↔
          x = item := by
      rw [← h.compare_text x item]
      simp [Relation.holds, Ordering.isEq_iff_eq_eq]
    rw [Condition.hasTest, Test.truth, Series.elements, Option.some.injEq, Bool.eq_iff_iff,
      List.any_eq_true, List.contains_iff_mem]
    simp only [beq_iff_eq, heach, exists_eq_right]
  | postgres =>
    simp only [Condition.hasTest, Test.truth, Operand.cell, heq, Option.some.injEq]
    cases hf : (e.elements (row c)).findIdx? (· == item) with
    | none =>
      have : ¬item ∈ e.elements (row c) := by
        intro hx
        simpa using List.findIdx?_eq_none_iff.mp hf item hx
      simp [h.isNull_null, this]
    | some i =>
      have : item ∈ e.elements (row c) := by
        obtain ⟨hi, hx, _⟩ := List.findIdx?_eq_some_iff_getElem.mp hf
        exact beq_iff_eq.mp hx ▸ List.getElem_mem hi
      simp [h.isNull_scalar, this]

theorem truth_hasLikeTest (c : Column) (pattern : String) :
    (Condition.hasLikeTest d c pattern).truth e row element =
      some ((e.elements (row c)).any (e.like pattern)) := by
  cases d <;> simp [Condition.hasLikeTest, h.text_text]

theorem truth_castText (c : Column) :
    e.text? ((Operand.castText c).cell e row element) = e.text? (row c) := by
  cases ht : e.text? (row c) <;> simp [ht, h.text_null, h.text_text]

-- What is written means what was meant.
theorem Condition.truth_test (a : Condition) : (a.test d).truth e row element = a.truth e row := by
  induction a with
  | never => simp [h.compare_int]; decide
  | compares c r v => rfl
  | between c low high => rfl
  | isIn c vs =>
    cases vs with
    | nil => simp [h.compare_int]; decide
    | cons v vs =>
      simp only [test, Test.truth, truth, Operand.cell, List.map_cons, List.map_map]
      rfl
  | like c negated cast pattern =>
    have ht : e.text? ((if cast then Operand.castText c else .column c).cell e row element) =
        e.text? (row c) := by
      cases cast
      case false => rfl
      case true => exact truth_castText h row element c
    have hp : e.text? ((Operand.value (.text pattern)).cell e row element) = some pattern :=
      h.text_text pattern
    simp only [test, Test.truth, ht, hp, truth]
    cases e.text? (row c) <;> rfl
  | has c item => exact truth_hasTest h d row element c item
  | hasAll c items =>
    cases items with
    | nil => simp [h.compare_int]; decide
    | cons x xs =>
      have hk := Truth.all_known ((x :: xs).map (e.elements (row c)).contains)
      rw [List.map_map, List.all_map, Function.id_comp] at hk
      rw [test, Test.truth, Formula.truth_ofTests, truth, ← hk, ← List.map_cons, List.map_map]
      congr 1
      exact List.map_congr_left fun y _ => truth_hasTest h d row element c y
  | hasLike c pattern => exact truth_hasLikeTest h d row element c pattern
  | orFalse a ih => simp [ih]
  | not a ih => simp [ih]

theorem Predicate.truth_formula (p : Predicate) :
    (p.formula d).truth e row element = p.truth e row := by
  cases p with
  | nil => simp [formula, h.compare_int, truth]; decide
  | cons a as =>
    rw [formula, Formula.truth_ofTests, truth]
    simp [Condition.truth_test h, Function.comp_def]

end Meaning

end MediaCatalog.Sql
