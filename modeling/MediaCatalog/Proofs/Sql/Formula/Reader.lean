import MediaCatalog.Proofs.Sql.Formula

namespace MediaCatalog.Sql

open MediaCatalog.Filter (Relation)

def Column.tokens (c : Column) : List Token :=
  [.word c.owner.tableAlias, .mark '.', .word c.name]

def Column.read? : List Token → Option (Column × List Token)
  | .word "r" :: .mark '.' :: .word name :: ts => some (⟨.root, name⟩, ts)
  | .word "t" :: .mark '.' :: .word name :: ts => some (⟨.translation, name⟩, ts)
  | _                                          => none

@[simp]
theorem Column.read?_tokens (c : Column) (ts : List Token) :
    read? (c.tokens ++ ts) = some (c, ts) := by
  rcases c with ⟨_ | _, name⟩ <;> rfl

namespace Operand

def tokens : Operand → List Token
  | zero         => [.word "0"]
  | one          => [.word "1"]
  | value v      => [.value v]
  | column c     => c.tokens
  | castText c   => [.word "CAST", .mark '('] ++ c.tokens ++ [.word "AS", .word "TEXT", .mark ')']
  | position c v =>
    [.word "array_position", .mark '('] ++ c.tokens ++ [.mark ',', .value v, .mark ')']
  | jsonValue    => [.word "json_each", .mark '.', .word "value"]
  | item         => [.word "g"]

def read? : List Token → Option (Operand × List Token)
  | .value v :: ts                                        => some (value v, ts)
  | .word "0" :: ts                                       => some (zero, ts)
  | .word "1" :: ts                                       => some (one, ts)
  | .word "g" :: ts                                       => some (item, ts)
  | .word "json_each" :: .mark '.' :: .word "value" :: ts => some (jsonValue, ts)
  | .word "CAST" :: .mark '(' :: ts                       => do
    match ← Column.read? ts with
    | (c, .word "AS" :: .word "TEXT" :: .mark ')' :: ts) => some (castText c, ts)
    | _                                                  => none
  | .word "array_position" :: .mark '(' :: ts             => do
    match ← Column.read? ts with
    | (c, .mark ',' :: .value v :: .mark ')' :: ts) => some (position c v, ts)
    | _                                             => none
  | ts                                                    => do
    let (c, ts) ← Column.read? ts
    some (column c, ts)

@[simp]
theorem read?_tokens (a : Operand) (ts : List Token) : read? (a.tokens ++ ts) = some (a, ts) := by
  cases a with
  | column c => rcases c with ⟨_ | _, name⟩ <;> rfl
  | castText c => simp [tokens, read?]
  | position c v => simp [tokens, read?]
  | _ => rfl

end Operand

namespace Series

def tokens : Series → List Token
  | jsonEach c => [.word "json_each", .mark '('] ++ c.tokens ++ [.mark ')']
  | unnest c   =>
    [.word "unnest", .mark '('] ++ c.tokens ++ [.mark ')', .word "AS", .word "g"]

def read? : List Token → Option (Series × List Token)
  | .word "json_each" :: .mark '(' :: ts => do
    match ← Column.read? ts with
    | (c, .mark ')' :: ts) => some (jsonEach c, ts)
    | _                    => none
  | .word "unnest" :: .mark '(' :: ts    => do
    match ← Column.read? ts with
    | (c, .mark ')' :: .word "AS" :: .word "g" :: ts) => some (unnest c, ts)
    | _                                               => none
  | _                                    => none

@[simp]
theorem read?_tokens (s : Series) (ts : List Token) : read? (s.tokens ++ ts) = some (s, ts) := by
  cases s <;> simp [tokens, read?]

end Series

-- The values of a list behind its first one, up to the closing parenthesis.
def othersTokens : List Value → List Token
  | []      => [.mark ')']
  | v :: vs => .mark ',' :: .value v :: othersTokens vs

theorem othersTokens_eq (vs : List Value) :
    othersTokens vs = vs.flatMap (fun v => [.mark ',', .value v]) ++ [.mark ')'] := by
  induction vs with
  | nil => rfl
  | cons v vs ih => simp [othersTokens, ih]

def readOthers? : List Token → Option (List Value × List Token)
  | .mark ')' :: ts             => some ([], ts)
  | .mark ',' :: .value v :: ts => do
    let (vs, ts) ← readOthers? ts
    some (v :: vs, ts)
  | _                           => none

@[simp]
theorem readOthers?_tokens (vs : List Value) (ts : List Token) :
    readOthers? (othersTokens vs ++ ts) = some (vs, ts) := by
  induction vs with
  | nil => rfl
  | cons v vs ih => simp [othersTokens, readOthers?, ih]

def readRelation? (sign : String) : Option Relation :=
  [Relation.equal, .notEqual, .greater, .greaterOrEqual, .less, .lessOrEqual].find? (·.sign = sign)

@[simp]
theorem readRelation?_sign (r : Relation) : readRelation? r.sign = some r := by
  cases r <;> rfl

mutual

def Test.tokens : Test → List Token
  | .compares a r b      => a.tokens ++ .sign r.sign :: b.tokens
  | .between a low high  =>
    a.tokens ++ .word "BETWEEN" :: low.tokens ++ .word "AND" :: high.tokens
  | .isIn a first others =>
    a.tokens ++ [.word "IN", .mark '(', .value first] ++ othersTokens others
  | .like a negated b    =>
    a.tokens ++ (if negated then [.word "NOT", .word "LIKE"] else [.word "LIKE"]) ++ b.tokens ++
      [.word "ESCAPE", .quoted "\\"]
  | .isNotNull a         => a.tokens ++ [.word "IS", .word "NOT", .word "NULL"]
  | .any s f             =>
    [.word "EXISTS", .mark '(', .word "SELECT", .word "1", .word "FROM"] ++ s.tokens ++
      .word "WHERE" :: Formula.tokens f ++ [.mark ')']
  | .coalesce f          =>
    [.word "COALESCE", .mark '('] ++ Formula.tokens f ++ [.mark ',', .word "FALSE", .mark ')']
  | .group f             => .mark '(' :: Formula.tokens f ++ [.mark ')']
  | .not t               => .word "NOT" :: Test.tokens t

def Formula.tokens : Formula → List Token
  | .one t   => Test.tokens t
  | .and t f => Test.tokens t ++ .word "AND" :: Formula.tokens f

end

-- The pattern of a test and the escape character behind it.
def readPattern? (ts : List Token) : Option (Operand × List Token) := do
  match ← Operand.read? ts with
  | (b, .word "ESCAPE" :: .quoted "\\" :: ts) => some (b, ts)
  | _                                         => none

-- What is tested of an operand.
def Test.readBehind? (a : Operand) : List Token → Option (Test × List Token)
  | .sign s :: ts                                => do
    let r ← readRelation? s
    let (b, ts) ← Operand.read? ts
    some (.compares a r b, ts)
  | .word "BETWEEN" :: ts                        => do
    match ← Operand.read? ts with
    | (low, .word "AND" :: ts) => do
      let (high, ts) ← Operand.read? ts
      some (.between a low high, ts)
    | _                        => none
  | .word "IN" :: .mark '(' :: .value v :: ts    => do
    let (vs, ts) ← readOthers? ts
    some (.isIn a v vs, ts)
  | .word "LIKE" :: ts                           => do
    let (b, ts) ← readPattern? ts
    some (.like a false b, ts)
  | .word "NOT" :: .word "LIKE" :: ts            => do
    let (b, ts) ← readPattern? ts
    some (.like a true b, ts)
  | .word "IS" :: .word "NOT" :: .word "NULL" :: ts => some (.isNotNull a, ts)
  | _                                            => none

mutual

-- Every test and every formula has a token of its own, so that the count of tokens is enough fuel.
def Test.read? : (fuel : Nat) → List Token → Option (Test × List Token)
  | 0,        _                                   => none
  | fuel + 1, .word "NOT" :: ts                   => do
    let (t, ts) ← Test.read? fuel ts
    some (.not t, ts)
  | fuel + 1, .mark '(' :: ts                     => do
    match ← Formula.read? fuel ts with
    | (f, .mark ')' :: ts) => some (.group f, ts)
    | _                    => none
  | fuel + 1, .word "COALESCE" :: .mark '(' :: ts => do
    match ← Formula.read? fuel ts with
    | (f, .mark ',' :: .word "FALSE" :: .mark ')' :: ts) => some (.coalesce f, ts)
    | _                                                  => none
  | fuel + 1,
    .word "EXISTS" :: .mark '(' :: .word "SELECT" :: .word "1" :: .word "FROM" :: ts => do
    match ← Series.read? ts with
    | (s, .word "WHERE" :: ts) => do
      match ← Formula.read? fuel ts with
      | (f, .mark ')' :: ts) => some (.any s f, ts)
      | _                    => none
    | _                        => none
  | _ + 1,    ts                                  => do
    let (a, ts) ← Operand.read? ts
    Test.readBehind? a ts

def Formula.read? : (fuel : Nat) → List Token → Option (Formula × List Token)
  | 0,        _  => none
  | fuel + 1, ts => do
    match ← Test.read? fuel ts with
    | (t, .word "AND" :: ts) => do
      let (f, ts) ← Formula.read? fuel ts
      some (.and t f, ts)
    | (t, ts)                => some (.one t, ts)

end

@[simp]
theorem readPattern?_tokens (a : Operand) (ts : List Token) :
    readPattern? (a.tokens ++ .word "ESCAPE" :: .quoted "\\" :: ts) = some (a, ts) := by
  simp [readPattern?]

-- An operand does not open like one of the tests that have a keyword in front.
theorem Test.read?_operand (fuel : Nat) (a : Operand) (ts : List Token) :
    Test.read? (fuel + 1) (a.tokens ++ ts) = Test.readBehind? a ts := by
  have h := Operand.read?_tokens a ts
  cases a with
  | column c =>
    rcases c with ⟨_ | _, name⟩ <;>
      simp_all [Operand.tokens, Column.tokens, Owner.tableAlias, Test.read?]
  | _ => simp_all [Operand.tokens, Test.read?]

mutual

theorem Test.read?_tokens (t : Test) (fuel : Nat) (ts : List Token)
    (h : t.tokens.length ≤ fuel) : Test.read? fuel (t.tokens ++ ts) = some (t, ts) := by
  cases fuel with
  | zero => cases t <;> simp [Test.tokens] at h
  | succ fuel =>
    cases t with
    | compares a r b =>
      simp [Test.tokens, Test.read?_operand, Test.readBehind?]
    | between a low high =>
      simp [Test.tokens, Test.read?_operand, Test.readBehind?]
    | isIn a first others =>
      simp [Test.tokens, Test.read?_operand, Test.readBehind?]
    | like a negated b =>
      cases negated <;> simp [Test.tokens, Test.read?_operand, Test.readBehind?]
    | isNotNull a =>
      simp [Test.tokens, Test.read?_operand, Test.readBehind?]
    | any s f =>
      have hf := Formula.read?_tokens f fuel (.mark ')' :: ts)
        (by simp [Test.tokens] at h; omega) (by simp)
      simp [Test.tokens, Test.read?, hf]
    | coalesce f =>
      have hf := Formula.read?_tokens f fuel (.mark ',' :: .word "FALSE" :: .mark ')' :: ts)
        (by simp [Test.tokens] at h; omega) (by simp)
      simp [Test.tokens, Test.read?, hf]
    | group f =>
      have hf := Formula.read?_tokens f fuel (.mark ')' :: ts)
        (by simp [Test.tokens] at h; omega) (by simp)
      simp [Test.tokens, Test.read?, hf]
    | not t =>
      have ht := Test.read?_tokens t fuel ts (by simpa [Test.tokens] using h)
      simp [Test.tokens, Test.read?, ht]

theorem Formula.read?_tokens (f : Formula) (fuel : Nat) (ts : List Token)
    (h : f.tokens.length < fuel) (hts : ts.head? ≠ some (.word "AND")) :
    Formula.read? fuel (f.tokens ++ ts) = some (f, ts) := by
  cases fuel with
  | zero => simp at h
  | succ fuel =>
    cases f with
    | one t =>
      have ht := Test.read?_tokens t fuel ts (by simp [Formula.tokens] at h; omega)
      simp only [Formula.tokens, Formula.read?, ht, Option.bind_eq_bind, Option.bind_some]
      split
      case h_1 heq => cases heq; simp at hts
      case h_2 heq => cases heq; rfl
    | and t f =>
      have ht := Test.read?_tokens t fuel (.word "AND" :: (f.tokens ++ ts))
        (by simp [Formula.tokens] at h; omega)
      have hf := Formula.read?_tokens f fuel ts (by simp [Formula.tokens] at h; omega) hts
      simp [Formula.tokens, Formula.read?, ht, hf]

end

def Formula.ofTokens? (ts : List Token) : Option Formula :=
  match Formula.read? (ts.length + 1) ts with
  | some (f, []) => some f
  | _            => none

theorem Formula.ofTokens?_tokens (f : Formula) : ofTokens? f.tokens = some f := by
  have h := f.read?_tokens (f.tokens.length + 1) [] (Nat.lt_succ_self _) (by simp)
  rw [List.append_nil] at h
  simp [ofTokens?, h]

-- The formula that a statement consists of, with the values of the statement at its placeholders.
def Statement.formula? (d : Dialect) (s : Statement) : Option Formula :=
  (s.tokens? d).bind Formula.ofTokens?

end MediaCatalog.Sql
