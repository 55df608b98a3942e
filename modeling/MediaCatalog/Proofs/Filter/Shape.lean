import MediaCatalog.Filter.Operand
import MediaCatalog.Proofs.Entry.Value
import MediaCatalog.Proofs.Filter.Meaning

namespace MediaCatalog.Filter

-- The operand that an operator wants: as many values as tokens for a list of tokens, two values for two tokens, and
-- else a single value.
def Operand.Fits (type : FieldType) (operand : String) (x : Operand) : Operator → Prop
  | .isIn | .notIn   => "" ∉ tokens operand ∧
    ∃ vs, x = list vs ∧ List.Forall₂ (fun t v => readScalar type t = .ok v) (tokens operand) vs
  | .between         => "" ∉ tokens operand ∧ ∃ t u low high, tokens operand = [t, u] ∧ x = range low high ∧
    readScalar type t = .ok low ∧ readScalar type u = .ok high
  | .like | .notLike => x = single (.text operand)
  | _                => ∃ v, x = single v ∧ readScalar type operand = .ok v

theorem Operand.read_eq_ok {type : FieldType} {operand : String} {o : Operator} {x : Operand} :
    read type operand o = .ok x ↔ x.Fits type operand o := by
  cases o
  case isIn | notIn =>
    simp only [read, Fits, Except.bind_eq_ok, Except.pure_eq_ok, elements_eq_ok_iff, List.mapM_eq_ok]
    constructor
    · rintro ⟨_, ⟨hfull, rfl⟩, vs, hvs, rfl⟩
      exact ⟨hfull, vs, rfl, hvs⟩
    · rintro ⟨hfull, vs, rfl, hvs⟩
      exact ⟨_, ⟨hfull, rfl⟩, vs, hvs, rfl⟩
  case between =>
    simp only [read, Fits, Except.bind_eq_ok, elements_eq_ok_iff]
    constructor
    · rintro ⟨ts, ⟨hfull, hts⟩, h⟩
      split at h
      case h_1 t u =>
        simp only [Except.bind_eq_ok, Except.pure_eq_ok] at h
        obtain ⟨low, hlow, high, hhigh, rfl⟩ := h
        exact ⟨hfull, t, u, low, high, hts.symm, rfl, hlow, hhigh⟩
      case h_2 => exact absurd h Except.throw_ne_ok
    · rintro ⟨hfull, t, u, low, high, hts, rfl, hlow, hhigh⟩
      exact ⟨[t, u], ⟨hfull, hts.symm⟩, by simp [hlow, hhigh]⟩
  case like | notLike => exact Except.pure_eq_ok.trans eq_comm
  all_goals
    simp only [read, Fits, Except.map_eq_ok]
    exact exists_congr fun v => and_comm.trans (and_congr_left fun _ => eq_comm)

-- What is read is what fits.
theorem parse_eq_ok {type : FieldType} {raw : String} {o : Operator} {x : Operand} :
    parse type raw = .ok (o, x) ↔
      ¬(type.isList ∧ o.isScalar) ∧ ∃ operand, Operator.detect raw = (o, operand) ∧ x.Fits type operand o := by
  rw [parse]
  cases Operator.detect raw with
  | mk o' operand =>
    simp only [Prod.mk.injEq]
    split
    case isTrue hdead =>
      rw [Bool.and_eq_true] at hdead
      constructor
      · exact fun h => absurd h Except.throw_ne_ok
      · rintro ⟨hlive, _, ⟨rfl, -⟩, -⟩
        exact absurd hdead hlive
    case isFalse hlive =>
      rw [Bool.and_eq_true] at hlive
      simp only [Except.map_eq_ok, Prod.mk.injEq, Operand.read_eq_ok]
      constructor
      · rintro ⟨x, hx, rfl, rfl⟩
        exact ⟨hlive, operand, ⟨rfl, rfl⟩, hx⟩
      · rintro ⟨-, _, ⟨rfl, rfl⟩, hx⟩
        exact ⟨x, hx, rfl, rfl⟩

section Values

variable {type : FieldType} {operand token : String} {o : Operator} {x : Operand} {v : Scalar}

theorem suits_of_readScalar (h : readScalar type token = .ok v) : (Value.scalar v).Suits type.element := by
  have hrange {low high n : Int} (h : Text.readInt? low high token = some n) : low ≤ n ∧ n ≤ high := by
    have := (Option.filter_eq_some_iff.mp h).2
    rwa [decide_eq_true_eq] at this
  cases type with
  | text | textList =>
    cases h
    trivial
  | integer | byte =>
    obtain ⟨n, hn, rfl⟩ := Option.map_eq_some_iff.mp (Except.getDM_throw_eq_ok.mp h)
    exact hrange hn
  | date =>
    obtain ⟨d, -, rfl⟩ := Option.map_eq_some_iff.mp (Except.getDM_throw_eq_ok.mp h)
    trivial

-- All values of an operand are of the type of the field, save that LIKE has its text as it stands.
theorem Operand.Fits.values (h : x.Fits type operand o) :
    ∀ v ∈ x.values, if o = .like ∨ o = .notLike then v = .text operand else (Value.scalar v).Suits type.element := by
  cases o
  case isIn | notIn =>
    obtain ⟨-, vs, rfl, hvs⟩ := h
    intro v hv
    obtain ⟨t, -, ht⟩ := hvs.exists_of_mem v hv
    exact suits_of_readScalar ht
  case between =>
    obtain ⟨-, t, u, low, high, -, rfl, hlow, hhigh⟩ := h
    exact List.forall_mem_cons.mpr
      ⟨suits_of_readScalar hlow, List.forall_mem_singleton.mpr (suits_of_readScalar hhigh)⟩
  case like | notLike =>
    cases h
    exact List.forall_mem_singleton.mpr rfl
  all_goals
    obtain ⟨v, rfl, hv⟩ := h
    exact List.forall_mem_singleton.mpr (suits_of_readScalar hv)

-- There is no empty list of values, as every operand has a token.
theorem Operand.Fits.list_ne_nil {vs : List Scalar} (h : (list vs).Fits type operand o) : vs ≠ [] := by
  cases o
  case isIn | notIn =>
    obtain ⟨-, vs', heq, hvs⟩ := h
    cases heq
    rintro rfl
    exact tokens_ne_nil operand (List.forall₂_nil_right_iff.mp hvs)
  case between =>
    obtain ⟨-, _, _, _, _, -, heq, -⟩ := h
    cases heq
  case like | notLike => cases h
  all_goals
    obtain ⟨_, heq, -⟩ := h
    cases heq

end Values

-- The operator and the operand that a test was read from.
def Relation.operator : Relation → Operator
  | equal          => .equal
  | notEqual       => .notEqual
  | greater        => .greater
  | greaterOrEqual => .greaterOrEqual
  | less           => .less
  | lessOrEqual    => .lessOrEqual

def ScalarTest.parts : ScalarTest → Operator × Operand
  | compares r v     => (r.operator, .single v)
  | between low high => (.between, .range low high)
  | isIn vs          => (.isIn, .list vs)
  | notIn vs         => (.notIn, .list vs)
  | like s           => (.like, .single (.text s))
  | notLike s        => (.notLike, .single (.text s))

def ListTest.parts : ListTest → Operator × Operand
  | has item        => (.equal, .single (.text item))
  | hasNot item     => (.notEqual, .single (.text item))
  | hasAll items    => (.isIn, .list (items.map .text))
  | hasNotAll items => (.notIn, .list (items.map .text))
  | like s          => (.like, .single (.text s))
  | notLike s       => (.notLike, .single (.text s))

def Criterion.parts : Criterion → Operator × Operand
  | ofScalar test => test.parts
  | ofList test   => test.parts

theorem ScalarTest.parts_read (type : FieldType) (operand : String) (o : Operator) :
    parts <$> read type operand o = (o, ·) <$> Operand.read type operand o := by
  cases o
  case isIn | notIn =>
    simp only [read, Operand.read]
    cases elements operand with
    | error m => rfl
    | ok ts =>
      simp only [Except.ok_bind]
      cases ts.mapM (readScalar type) <;> rfl
  case between =>
    simp only [read, Operand.read]
    cases elements operand with
    | error m => rfl
    | ok ts =>
      simp only [Except.ok_bind]
      rcases ts with _ | ⟨t, _ | ⟨u, _ | ⟨w, ts⟩⟩⟩
      case cons.cons.nil =>
        dsimp only
        cases readScalar type t with
        | error m => rfl
        | ok low => cases readScalar type u <;> rfl
      all_goals rfl
  case like | notLike => rfl
  all_goals
    simp only [read, Operand.read]
    cases readScalar type operand <;> rfl

theorem ListTest.parts_read (operand : String) {o : Operator} (ho : o.isScalar = false) :
    parts <$> read operand o = (o, ·) <$> Operand.read .textList operand o := by
  have htexts (ts : List String) : ts.mapM (readScalar .textList) = .ok (ts.map .text) :=
    List.mapM_eq_ok.mpr (List.forall₂_map_right_iff.mpr (List.forall₂_same.mpr fun _ _ => rfl))
  cases o
  case isIn | notIn =>
    simp only [read, Operand.read]
    cases elements operand with
    | error m => rfl
    | ok ts =>
      simp only [Except.ok_bind, htexts]
      rfl
  case equal | notEqual | like | notLike => rfl
  all_goals cases ho

-- A filter value is read into a criterion just as it is read into an operator with its operand.
theorem parse_eq (type : FieldType) (raw : String) : parse type raw = Criterion.parts <$> Criterion.read type raw := by
  rw [parse, Criterion.read]
  cases Operator.detect raw with
  | mk o operand =>
    by_cases hlist : type.isList
    case neg =>
      have h := ScalarTest.parts_read type operand o
      simp only [hlist, Bool.false_and, Bool.false_eq_true, if_false, ← h]
      cases ScalarTest.read type operand o <;> rfl
    case pos =>
      have htype : type = .textList := by cases type <;> first | rfl | cases hlist
      subst htype
      simp only [FieldType.isList, Bool.true_and, if_true]
      cases hscalar : o.isScalar with
      | true => cases o <;> first | rfl | cases hscalar
      | false =>
        simp only [Bool.false_eq_true, if_false, ← ListTest.parts_read operand hscalar]
        cases ListTest.read operand o <;> rfl

end MediaCatalog.Filter
