import MediaCatalog.Date
import Mathlib.Algebra.Group.Nat.Defs
import Mathlib.Data.List.TakeWhile

namespace MediaCatalog

namespace Text

theorem isDigit_of_mem_padded {width n : Nat} {c : Char} (h : c ∈ padded width n) : c.isDigit := by
  rw [padded, List.mem_append] at h
  rcases h with h | h
  · rw [List.eq_of_mem_replicate h]
    rfl
  · exact Nat.isDigit_of_mem_toDigits (by decide) (by decide) h

theorem ofDigitChars_padded (width n : Nat) : Nat.ofDigitChars 10 (padded width n) 0 = n := by
  have hzeros (k : Nat) : Nat.ofDigitChars 10 (List.replicate k '0') 0 = 0 := by
    induction k with
    | zero => rfl
    | succ k ih => rw [List.replicate_succ, Nat.ofDigitChars_cons]; exact ih
  rw [padded, Nat.ofDigitChars_append, hzeros, Nat.ofDigitChars_ten_toDigits]

theorem padded_ne_nil (width n : Nat) : padded width n ≠ [] :=
  fun h => Nat.toDigits_ne_nil (List.append_eq_nil_iff.mp h).2

theorem length_padded {n : Nat} (width : Nat) (hw : 0 < width) (hn : n < 10 ^ width) :
    (padded width n).length = width := by
  have := (Nat.length_toDigits_le_iff (by decide) hw).mpr hn
  rw [padded, List.length_append, List.length_replicate]
  omega

end Text

namespace Date

open Text

-- A number is read up to what is no digit.
theorem number?_padded {limit : Nat} (width n : Nat) (rest : List Char) (hl : (padded width n).length ≤ limit)
    (hrest : ∀ c ∈ rest.head?, ¬c.isDigit) : number? limit (padded width n ++ rest) = some (n, rest) := by
  have hdigits : ((padded width n ++ rest).take limit).takeWhile Char.isDigit = padded width n := by
    rw [List.take_append, List.take_of_length_le hl,
      List.takeWhile_append_of_pos fun c hc => isDigit_of_mem_padded hc]
    cases rest with
    | nil => simp
    | cons c cs =>
      have hc : ¬c.isDigit := hrest c (by simp)
      cases limit - (padded width n).length <;> simp [hc]
  simp [number?, hdigits, padded_ne_nil, ofDigitChars_padded]

theorem dropWhile_padded {width n : Nat} {rest : List Char} :
    (padded width n ++ rest).dropWhile isBlank = padded width n ++ rest := by
  cases hp : padded width n with
  | nil => exact absurd hp (padded_ne_nil width n)
  | cons c cs =>
    have hc : c.isDigit := isDigit_of_mem_padded (hp ▸ List.mem_cons_self)
    have hb : isBlank c = false := by
      simp only [Char.isDigit, ge_iff_le, Bool.and_eq_true, decide_eq_true_eq,
        UInt32.le_iff_toNat_le] at hc
      simp only [isBlank, Char.toNat]
      grind
    simp [hb]

-- Two digits are enough for a month and for a day.
theorem number?_two {n : Nat} (rest : List Char) (hn : n < 100) (hrest : ∀ c ∈ rest.head?, ¬c.isDigit) :
    number? 2 ((padded 2 n ++ rest).dropWhile isBlank) = some (n, rest) := by
  rw [dropWhile_padded]
  exact number?_padded 2 n rest (length_padded 2 (by decide) hn).le hrest

theorem year?_padded {n : Nat} {rest : List Char} (hn : n < 10000)
    (hrest : ∀ c ∈ rest.head?, ¬c.isDigit) : year? (padded 4 n ++ rest) = some ((n : Int), rest) := by
  have hread := number?_padded 4 n rest (length_padded 4 (by decide) hn).le hrest
  cases hp : padded 4 n with
  | nil => exact absurd hp (padded_ne_nil 4 n)
  | cons c cs =>
    have hc : c.isDigit := isDigit_of_mem_padded (hp ▸ List.mem_cons_self)
    rw [hp] at hread
    unfold year?
    split
    case h_1 heq => cases heq; exact absurd hc (by decide)
    case h_2 heq => cases heq; exact absurd hc (by decide)
    case h_3 => rw [hread, Option.map_some]

theorem year?_yearChars (year : Int) (rest : List Char) (hrest : ∀ c ∈ rest.head?, ¬c.isDigit) :
    year? ((yearChars year ++ rest).dropWhile isBlank) = some (year, rest) := by
  unfold yearChars
  split
  case isTrue h =>
    rw [dropWhile_padded, year?_padded (by omega) hrest, Int.toNat_of_nonneg h.1]
  case isFalse =>
    split
    case isTrue h =>
      have hlength : (padded 4 (-year).toNat).length ≤ (padded 4 (-year).toNat ++ rest).length := by simp
      have hread := number?_padded 4 (-year).toNat rest hlength hrest
      have hskip : isBlank '-' = false := by decide
      simp only [List.cons_append, List.dropWhile_cons, hskip, Bool.false_eq_true, if_false, year?, hread,
        Option.map_some, Option.some.injEq, Prod.mk.injEq, and_true]
      omega
    case isFalse h =>
      have hlength : (padded 4 year.toNat).length ≤ (padded 4 year.toNat ++ rest).length := by simp
      have hread := number?_padded 4 year.toNat rest hlength hrest
      have hskip : isBlank '+' = false := by decide
      simp only [List.cons_append, List.dropWhile_cons, hskip, Bool.false_eq_true, if_false, year?, hread,
        Option.map_some, Option.some.injEq, Prod.mk.injEq, and_true]
      omega

theorem month_lt_day_lt (d : Date) : d.month < 100 ∧ d.day < 100 := by
  have ⟨_, _, hpos, hday⟩ := d.isDay
  have hmonth : d.month ≤ 12 := by
    by_contra hm
    have : Calendar.daysIn d.year d.month = 0 := by
      unfold Calendar.daysIn
      split <;> omega
    omega
  have hlong : Calendar.daysIn d.year d.month ≤ 31 := by
    unfold Calendar.daysIn
    split <;> (try split) <;> omega
  omega

-- A date reads back as it was written.
theorem read?_text (d : Date) : read? d.text = some d := by
  have ⟨hmonth, hday⟩ := d.month_lt_day_lt
  have hyear := year?_yearChars d.year ('-' :: (padded 2 d.month ++ '-' :: padded 2 d.day)) (by simp)
  have hm := number?_two ('-' :: padded 2 d.day) hmonth (by simp)
  have hd := number?_two [] hday (by simp)
  rw [List.append_nil] at hd
  have hof : of? d.year d.month d.day = some d := by
    simp [of?, d.isDay]
  simp only [read?, text, String.toList_ofList, ofChars?, chars, List.append_assoc, List.cons_append]
  simp only [hyear, hyphen?, hm, hd, Option.bind_eq_bind, Option.bind_some, List.isEmpty_nil, if_true, hof]

end Date

end MediaCatalog
