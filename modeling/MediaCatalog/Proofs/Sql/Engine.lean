import MediaCatalog.Store.Table
import Mathlib.Logic.Basic

namespace MediaCatalog

-- A scalar of a type whose fields hold one value each.
def Scalar.IsOf : FieldType → Scalar → Prop
  | .text, .text _ | .integer, .int _ | .byte, .int _ | .date, .date _ => True
  | _,     _                                                           => False

def Value.IsOf : FieldType → Value → Prop
  | _,         null     => True
  | .textList, list _   => True
  | τ,         scalar v => v.IsOf τ
  | _,         _        => False

namespace Sql.Engine

variable {κ : Type}

-- Values can be bound together if there are all of them and not too many.
theorem excess?_eq_none {e : Engine κ} {vs : List Value} :
    e.excess? vs = none ↔ vs.length ≤ e.limits.values ∧ ∀ v ∈ vs, e.takes v := by
  rw [excess?]
  split
  case isTrue h => simp [Nat.not_le.mpr h]
  case isFalse h => simp [Nat.not_lt.mp h]

theorem takes_postgres_text {s : String} : postgres.takes (.text s) ↔ '\x00' ∉ s.toList := by
  simp [postgres, isHad]

-- The values that fit a type are those that a column of this type can hold.
structure Lawful (e : Engine κ) (fits : FieldType → κ → Prop) : Prop where
  compare_int   : ∀ m n, e.compare? (e.store (.int m)) (e.store (.int n)) = some (compare m n)
  compare_text  : ∀ s t, e.compare? (e.store (.text s)) (e.store (.text t)) = some .eq ↔ s = t
  isNull_null   : e.isNull (e.store .null)
  isNull_scalar : ∀ v : Scalar, e.isNull (e.store (.scalar v)) = false
  text_text     : ∀ s, e.text? (e.store (.text s)) = some s
  text_null     : e.text? (e.store .null) = none
  load_text     : ∀ s, e.load .text (e.store (.text s)) = .str s
  load_int      : ∀ n, e.load .integer (e.store (.int n)) = .int n
  fits_null     : ∀ τ, fits τ (e.store .null)
  fits_scalar   : ∀ {τ} {v : Scalar}, v.IsOf τ → fits τ (e.store (.scalar v))
  compare_none  : ∀ {τ a b}, fits τ a → fits τ b →
    (e.compare? a b = none ↔ e.isNull a ∨ e.isNull b)
  order_swap    : ∀ {τ a b}, fits τ a → fits τ b → e.order a b = (e.order b a).swap
  order_trans   : ∀ {τ a b c}, fits τ a → fits τ b → fits τ c →
    (e.order a b).isLE → (e.order b c).isLE → (e.order a c).isLE

namespace Lawful

variable {e : Engine κ} {fits : FieldType → κ → Prop} (h : e.Lawful fits)

include h

theorem store_int_inj {m n : Int} : e.store (.int m) = e.store (.int n) ↔ m = n := by
  refine ⟨fun heq => ?_, fun heq => heq ▸ rfl⟩
  have := h.compare_int m n
  rw [heq, h.compare_int, Option.some.injEq, Std.ReflOrd.compare_self] at this
  exact Std.LawfulEqOrd.eq_of_compare this.symm

theorem store_text_inj {s t : String} : e.store (.text s) = e.store (.text t) ↔ s = t := by
  refine ⟨fun heq => ?_, fun heq => heq ▸ rfl⟩
  rw [← h.compare_text, heq, h.compare_text]

theorem order_text_eq {s t : String} :
    e.order (e.store (.text s)) (e.store (.text t)) = .eq ↔ s = t := by
  have hs : fits .text (e.store (.text s)) := h.fits_scalar trivial
  have ht : fits .text (e.store (.text t)) := h.fits_scalar trivial
  have hn := (h.compare_none hs ht).not.mpr (by simp [h.isNull_scalar])
  have ⟨o, ho⟩ := Option.ne_none_iff_exists'.mp hn
  have := h.compare_text s t
  simp_all [order]

-- Two values that are not null compare as they are sorted.
theorem compare_eq {τ : FieldType} {a b : κ} (ha : fits τ a) (hb : fits τ b) :
    e.compare? a b = if e.isNull a || e.isNull b then none else some (e.order a b) := by
  cases hc : e.compare? a b with
  | none => simp_all [(h.compare_none ha hb).mp hc]
  | some o =>
    have hn := (h.compare_none ha hb).not.mp (by simp [hc])
    simp_all [order]

end Lawful

instance : Std.TransCmp sqlite.order where
  eq_swap {a b} := by
    cases a <;> cases b
    case int.int m n => exact (Std.OrientedCmp.eq_swap : compare m n = (compare n m).swap)
    case text.text s t => exact (Std.OrientedCmp.eq_swap : compare s t = (compare t s).swap)
    all_goals rfl
  isLE_trans {a b c} hab hbc := by
    cases a <;> cases b <;> cases c
    case int.int.int l m n => exact (Std.TransCmp.isLE_trans hab hbc : (compare l n).isLE)
    case text.text.text s t u => exact (Std.TransCmp.isLE_trans hab hbc : (compare s u).isLE)
    all_goals first | rfl | exact absurd hab Bool.false_ne_true | exact absurd hbc Bool.false_ne_true

theorem sqlite_lawful : sqlite.Lawful fun _ _ => True where
  compare_int _ _ := rfl
  compare_text s t := by simp [sqlite, Cell.ofValue, Cell.compare?]
  isNull_null := rfl
  isNull_scalar v := by cases v <;> rfl
  text_text _ := rfl
  text_null := rfl
  load_text _ := rfl
  load_int _ := rfl
  fits_null _ := trivial
  fits_scalar _ := trivial
  compare_none {_ a b} _ _ := by cases a <;> cases b <;> simp [isNull, sqlite, Cell.compare?]
  order_swap _ _ := Std.OrientedCmp.eq_swap
  order_trans _ _ _ := Std.TransCmp.isLE_trans

instance : Std.TransOrd Date :=
  inferInstanceAs <| Std.TransCmp <| compareLex (compareOn Date.year)
    (compareLex (compareOn Date.month) (compareOn Date.day))

theorem postgres_lawful : postgres.Lawful Value.IsOf where
  compare_int _ _ := rfl
  compare_text s t := by simp [postgres]
  isNull_null := rfl
  isNull_scalar v := by cases v <;> rfl
  text_text _ := rfl
  text_null := rfl
  load_text _ := rfl
  load_int _ := rfl
  fits_null τ := by cases τ <;> trivial
  fits_scalar {τ v} h := by cases τ <;> cases v <;> trivial
  compare_none {τ a b} ha hb := by
    rcases a with _ | (_ | _ | _) | _ <;> rcases b with _ | (_ | _ | _) | _ <;> cases τ <;>
      simp_all [isNull, postgres, Value.IsOf, Scalar.IsOf]
  order_swap {τ a b} ha hb := by
    rcases a with _ | (s | m | d) | _ <;> rcases b with _ | (t | n | d') | _
    case scalar.text.scalar.text =>
      exact (Std.OrientedCmp.eq_swap : compare s t = (compare t s).swap)
    case scalar.int.scalar.int =>
      exact (Std.OrientedCmp.eq_swap : compare m n = (compare n m).swap)
    case scalar.date.scalar.date =>
      exact (Std.OrientedCmp.eq_swap : compare d d' = (compare d' d).swap)
    all_goals rfl
  order_trans {τ a b c} ha hb hc hab hbc := by
    rcases a with _ | (s | m | d) | _ <;> rcases b with _ | (_ | _ | _) | _ <;>
      rcases c with _ | (t | n | d') | _
    case scalar.text.scalar.text.scalar.text =>
      exact (Std.TransCmp.isLE_trans hab hbc : (compare s t).isLE)
    case scalar.int.scalar.int.scalar.int =>
      exact (Std.TransCmp.isLE_trans hab hbc : (compare m n).isLE)
    case scalar.date.scalar.date.scalar.date =>
      exact (Std.TransCmp.isLE_trans hab hbc : (compare d d').isLE)
    all_goals cases τ <;>
      first
        | rfl
        | exact (ha : False).elim
        | exact (hb : False).elim
        | exact (hc : False).elim
        | exact absurd hab Bool.false_ne_true
        | exact absurd hbc Bool.false_ne_true

end Sql.Engine

end MediaCatalog
