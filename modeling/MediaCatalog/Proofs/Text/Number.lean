import MediaCatalog.Text.Number
import Mathlib.Data.Option.Basic

namespace MediaCatalog.Text

-- A text that says a number.
inductive IsDecimal (s : String) : Nat → Prop
  | intro {sign digits : List Char} (text : s.toList = sign ++ digits) (signed : sign = [] ∨ sign = ['+'])
    (nonempty : digits ≠ []) (decimal : ∀ d ∈ digits, d.isDigit) : IsDecimal s (Nat.ofDigitChars 10 digits 0)

variable {cs : List Char} {s : String} {n high : Nat}

theorem digits?_eq_some : digits? cs = some n ↔ cs ≠ [] ∧ (∀ c ∈ cs, c.isDigit) ∧ Nat.ofDigitChars 10 cs 0 = n := by
  rw [digits?, Option.ite_none_right_eq_some, Option.some.injEq, List.all_eq_true, and_assoc]

theorem readNat?_go_eq_some : readNat?.go cs = some n ↔
    ∃ sign digits, cs = sign ++ digits ∧ (sign = [] ∨ sign = ['+']) ∧ digits? digits = some n := by
  constructor
  · intro h
    unfold readNat?.go at h
    split at h
    case h_1 digits => exact ⟨['+'], digits, rfl, .inr rfl, h⟩
    case h_2 => exact ⟨[], cs, rfl, .inl rfl, h⟩
  · rintro ⟨sign, digits, rfl, rfl | rfl, h⟩
    · rw [List.nil_append]
      unfold readNat?.go
      split
      case h_1 rest =>
        have hplus := (digits?_eq_some.mp h).2.1 '+' List.mem_cons_self
        cases hplus
      case h_2 => exact h
    · exact h

-- A number is read where the text says one that is not too large.
theorem readNat?_eq_some : readNat? high s = some n ↔ IsDecimal s n ∧ n ≤ high := by
  rw [readNat?, Option.filter_eq_some_iff, decide_eq_true_eq, readNat?_go_eq_some]
  refine and_congr_left fun _ => ?_
  simp only [digits?_eq_some]
  constructor
  · rintro ⟨sign, digits, htext, hsign, hne, hdigits, rfl⟩
    exact .intro htext hsign hne hdigits
  · rintro ⟨htext, hsign, hne, hdigits⟩
    exact ⟨_, _, htext, hsign, hne, hdigits, rfl⟩

theorem IsDecimal.unique {m : Nat} (hm : IsDecimal s m) (hn : IsDecimal s n) : m = n := by
  have hm := readNat?_eq_some.mpr ⟨hm, Nat.le_max_left m n⟩
  have hn := readNat?_eq_some.mpr ⟨hn, Nat.le_max_right m n⟩
  exact Option.some.inj (hm.symm.trans hn)

end MediaCatalog.Text
