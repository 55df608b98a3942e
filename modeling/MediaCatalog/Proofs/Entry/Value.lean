import MediaCatalog.Entry.Record
import MediaCatalog.Proofs.Date
import MediaCatalog.Proofs.Dictionary
import MediaCatalog.Proofs.Except
import MediaCatalog.Proofs.Sql.Engine

namespace MediaCatalog

namespace Value

-- A value that a field of a type can be given.
def Suits : FieldType → Value → Prop
  | .integer, scalar (.int n) => Int64.minValue.toInt ≤ n ∧ n ≤ Int64.maxValue.toInt
  | .byte,    scalar (.int n) => -128 ≤ n ∧ n ≤ 127
  | τ,        v               => v.IsOf τ

def json : Value → Json
  | null             => .null
  | scalar (.text s) => .str s
  | scalar (.int n)  => .int n
  | scalar (.date d) => .str d.text
  | list l           => Json.strs l

variable {τ : FieldType} {v : Value}

theorem Suits.isOf (h : v.Suits τ) : v.IsOf τ := by
  rcases v with _ | (_ | _ | _) | _ <;> cases τ <;> first | exact h | trivial

theorem suits_null (τ : FieldType) : null.Suits τ := by
  cases τ <;> trivial

end Value

-- How a value of a type is shown: a date is written in one way only, and all else is left as it is.
def FieldType.canonical : FieldType → Json → Json
  | .date, .str s => .str (((Date.read? s).map Date.text).getD s)
  | _,     j      => j

-- Which values the attributes give to a field of a type.
inductive FieldType.Takes : FieldType → Json → Value → Prop
  | null (τ : FieldType) : Takes τ .null .null
  | text (s : String) : Takes .text (.str s) (.text s)
  | integer {n : Int} (h : Int64.minValue.toInt ≤ n ∧ n ≤ Int64.maxValue.toInt) :
    Takes .integer (.int n) (.int n)
  | byte {n : Int} (h : -128 ≤ n ∧ n ≤ 127) : Takes .byte (.int n) (.int n)
  | date {s : String} {d : Date} (h : Date.read? s = some d) : Takes .date (.str s) (.date d)
  | textList (l : List String) : Takes .textList (Json.strs l) (.list l)

namespace FieldType.Takes

variable {τ : FieldType} {j : Json} {v : Value} (h : τ.Takes j v)

include h

theorem suits : v.Suits τ := by
  cases h with
  | null => exact Value.suits_null τ
  | integer h | byte h => exact h
  | text | date | textList => trivial

-- A value is shown as it was given, save for the form of a date.
theorem json_eq : v.json = τ.canonical j := by
  cases h with
  | null => cases τ <;> rfl
  | date h => simp [Value.json, canonical, h]
  | text | integer | byte | textList => rfl

end FieldType.Takes

-- What is shown of a value gives that value again.
theorem FieldType.takes_json {τ : FieldType} {v : Value} (h : v.Suits τ) : τ.Takes v.json v := by
  rcases v with _ | (s | n | d) | l <;> cases τ <;>
    first
      | exact .null _
      | exact .text s
      | exact .integer h
      | exact .byte h
      | exact .date (Date.read?_text d)
      | exact .textList l
      | exact h.elim

namespace Json

theorem int64?_eq_some {j : Json} {n : Int} :
    j.int64? = some n ↔ j = .int n ∧ Int64.minValue.toInt ≤ n ∧ n ≤ Int64.maxValue.toInt := by
  cases j <;> grind [int64?]

theorem str?_eq_some {j : Json} {s : String} : j.str? = some s ↔ j = .str s := by
  cases j <;> simp [str?]

theorem arr?_eq_some {j : Json} {js : List Json} : j.arr? = some js ↔ j = .arr js := by
  cases j <;> simp [arr?]

theorem mapM_str? {js : List Json} {l : List String} : js.mapM str? = some l ↔ js = l.map str := by
  induction js generalizing l with
  | nil => cases l <;> simp
  | cons j js ih =>
    simp only [List.mapM_cons, Option.bind_eq_bind, Option.bind_eq_some_iff, Option.pure_def, ih,
      str?_eq_some, Option.some.injEq]
    cases l <;> simp

end Json

namespace Field

variable {f : Field} {j : Json} {v : Value}

-- A byte is within the range of an integer.
theorem filter_int64?_eq_some {n : Int} :
    (j.int64?.filter fun n => -128 ≤ n ∧ n ≤ 127) = some n ↔ j = .int n ∧ -128 ≤ n ∧ n ≤ 127 := by
  have hmin : Int64.minValue.toInt = -2 ^ 63 := rfl
  have hmax : Int64.maxValue.toInt = 2 ^ 63 - 1 := rfl
  rw [Option.filter_eq_some_iff, Json.int64?_eq_some, decide_eq_true_eq, hmin, hmax, and_assoc]
  refine and_congr_right fun _ => ?_
  omega

theorem value?_eq_some : f.value? j = some v ↔ f.type.Takes j v := by
  rw [value?]
  generalize f.type = τ
  split
  case isTrue hj =>
    cases j <;> simp only [Json.isNull, Bool.false_eq_true] at hj
    constructor
    · rintro ⟨⟩
      exact .null τ
    · rintro ⟨⟩
      rfl
  case isFalse hj =>
    cases τ <;>
      simp only [Option.map_eq_some_iff, Json.str?_eq_some, Json.int64?_eq_some, filter_int64?_eq_some,
        dateOfJson?, Option.bind_eq_bind, Option.bind_eq_some_iff, Json.arr?_eq_some, Json.mapM_str?,
        Option.pure_def, Option.some.injEq]
    all_goals
      constructor
      case mpr =>
        intro h
        cases h <;> simp_all [Json.isNull, Json.strs]
    case text.mp => rintro ⟨s, rfl, rfl⟩; exact .text s
    case integer.mp => rintro ⟨n, ⟨rfl, h⟩, rfl⟩; exact .integer h
    case byte.mp => rintro ⟨n, ⟨rfl, h⟩, rfl⟩; exact .byte h
    case date.mp => rintro ⟨s, rfl, d, h, rfl⟩; exact .date h
    case textList.mp => rintro ⟨_, rfl, l, rfl, rfl⟩; exact .textList l

theorem value_eq_ok : f.value j = .ok v ↔ f.type.Takes j v := by
  rw [← value?_eq_some, value]
  split <;> simp_all

end Field

end MediaCatalog
