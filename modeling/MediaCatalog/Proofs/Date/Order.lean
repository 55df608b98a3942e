import MediaCatalog.Proofs.Date
import MediaCatalog.Proofs.Sql.Engine
import Mathlib.Data.String.Basic

namespace MediaCatalog

namespace Text

def digitOf (c : Char) : Nat :=
  c.toNat - '0'.toNat

def numberOf (cs : List Char) : Nat :=
  Nat.ofDigitChars 10 cs 0

theorem numberOf_append (cs ds : List Char) :
    numberOf (cs ++ ds) = 10 ^ ds.length * numberOf cs + numberOf ds := by
  rw [numberOf, Nat.ofDigitChars_append, Nat.ofDigitChars_eq_ofDigitChars_zero, ← numberOf, ← numberOf]

theorem numberOf_cons (c : Char) (cs : List Char) :
    numberOf (c :: cs) = 10 ^ cs.length * digitOf c + numberOf cs := by
  rw [numberOf, Nat.ofDigitChars_cons, Nat.mul_zero, Nat.zero_add, Nat.ofDigitChars_eq_ofDigitChars_zero, ← digitOf,
    ← numberOf]

section Digits

-- Digits come in the order of their values, behind the hyphen.
theorem lt_iff_digitOf_lt {c d : Char} (hc : c.isDigit) (hd : d.isDigit) :
    (c < d ↔ digitOf c < digitOf d) ∧ (c = d ↔ digitOf c = digitOf d) ∧ digitOf c < 10 ∧ '-' < c := by
  simp only [Char.isDigit, ge_iff_le, Bool.and_eq_true, decide_eq_true_eq, UInt32.le_iff_toNat_le] at hc hd
  have hzero : '0'.val.toNat = 48 := rfl
  have hnine : '9'.val.toNat = 57 := rfl
  have hhyphen : '-'.val.toNat = 45 := rfl
  have heq : c = d ↔ c.val.toNat = d.val.toNat := by rw [Char.ext_iff, UInt32.toNat_inj]
  have hdigit (c : Char) : digitOf c = c.val.toNat - 48 := rfl
  rw [heq, Char.lt_def, Char.lt_def, UInt32.lt_iff_toNat_lt, UInt32.lt_iff_toNat_lt, hhyphen, hdigit, hdigit]
  omega

variable {cs ds s t : List Char} (hc : ∀ c ∈ cs, c.isDigit) (hd : ∀ d ∈ ds, d.isDigit)

include hc

theorem numberOf_lt : numberOf cs < 10 ^ cs.length := by
  induction cs with
  | nil => exact Nat.one_pos
  | cons c cs ih =>
    have ⟨hfirst, hrest⟩ := List.forall_mem_cons.mp hc
    have ⟨_, _, hten, _⟩ := lt_iff_digitOf_lt hfirst hfirst
    have hle := Nat.mul_le_mul_left (10 ^ cs.length) (Nat.le_sub_one_of_lt hten)
    have := ih hrest
    rw [numberOf_cons, List.length_cons, Nat.pow_succ]
    omega

include hd

-- Of texts that begin with equally many digits, the one with the lesser number comes first. What is behind the
-- digits decides where the numbers are equal.
theorem digits_append_lt_iff (hl : cs.length = ds.length) :
    cs ++ s < ds ++ t ↔ numberOf cs < numberOf ds ∨ numberOf cs = numberOf ds ∧ s < t := by
  induction cs generalizing ds with
  | nil =>
    cases List.length_eq_zero_iff.mp hl.symm
    simp
  | cons c cs ih =>
    cases ds with
    | nil => cases hl
    | cons d ds =>
      have ⟨hfirst, hcs⟩ := List.forall_mem_cons.mp hc
      have ⟨hfirst', hds⟩ := List.forall_mem_cons.mp hd
      have ⟨hlt, heq, _⟩ := lt_iff_digitOf_lt hfirst hfirst'
      have hl : cs.length = ds.length := Nat.succ.inj hl
      have hrest := numberOf_lt hcs
      have hrest' := numberOf_lt hds
      rw [List.cons_append, List.cons_append, List.cons_lt_cons_iff, ih hcs hds hl, hlt, heq, numberOf_cons,
        numberOf_cons, ← hl]
      rw [← hl] at hrest'
      -- The first digits outweigh all that follow them.
      obtain h | h | h := Nat.lt_trichotomy (digitOf c) (digitOf d)
      · have := Nat.mul_le_mul_left (10 ^ cs.length) (Nat.succ_le_of_lt h)
        rw [Nat.mul_succ] at this
        simp only [h, true_or, true_iff]
        omega
      · simp [h]
      · have := Nat.mul_le_mul_left (10 ^ cs.length) (Nat.succ_le_of_lt h)
        rw [Nat.mul_succ] at this
        simp only [Nat.not_lt_of_gt h, Nat.ne_of_gt h, false_and, or_self, false_iff]
        omega

end Digits

section Padded

variable {m n : Nat} {s t : List Char}

theorem numberOf_padded (width n : Nat) : numberOf (padded width n) = n :=
  ofDigitChars_padded width n

-- A greater number has no fewer digits.
theorem length_padded_mono (width : Nat) (h : m ≤ n) : (padded width m).length ≤ (padded width n).length := by
  have hpos : 0 < (Nat.toDigits 10 n).length := Nat.length_toDigits_pos
  have hn := (Nat.length_toDigits_le_iff (by decide) hpos).mp (Nat.le_refl _)
  have hm := (Nat.length_toDigits_le_iff (n := m) (by decide) hpos).mpr (Nat.lt_of_le_of_lt h hn)
  simp only [padded, List.length_append, List.length_replicate]
  omega

-- Numbers with the same number of digits come in their order, and so does what follows them.
theorem padded_append_lt_iff {width : Nat} (hw : 0 < width) (hm : m < 10 ^ width) (hn : n < 10 ^ width) :
    padded width m ++ s < padded width n ++ t ↔ m < n ∨ m = n ∧ s < t := by
  have hl := (length_padded width hw hm).trans (length_padded width hw hn).symm
  rw [digits_append_lt_iff (fun _ => isDigit_of_mem_padded) (fun _ => isDigit_of_mem_padded) hl, numberOf_padded,
    numberOf_padded]

-- Where a hyphen follows a number, the number comes before a greater one if it would with as many digits, zeros
-- being added at its end.
theorem padded_hyphen_lt_iff (width : Nat) (h : m < n) : padded width m ++ '-' :: s < padded width n ++ '-' :: t ↔
    m * 10 ^ ((padded width n).length - (padded width m).length) ≤ n := by
  let cs := padded width m
  let first := (padded width n).take cs.length
  let last := (padded width n).drop cs.length
  have hle : cs.length ≤ (padded width n).length := length_padded_mono width (Nat.le_of_lt h)
  have hcut : padded width n = first ++ last := (List.take_append_drop ..).symm
  have hcs : ∀ c ∈ cs, c.isDigit := fun _ => isDigit_of_mem_padded
  have hfirst : ∀ c ∈ first, c.isDigit := fun _ hc => isDigit_of_mem_padded (List.mem_of_mem_take hc)
  have hlast : ∀ c ∈ last, c.isDigit := fun _ hc => isDigit_of_mem_padded (List.mem_of_mem_drop hc)
  have hl : cs.length = first.length := by rw [List.length_take, Nat.min_eq_left hle]
  have hmore : last.length = (padded width n).length - cs.length := List.length_drop
  have hquotient : numberOf first = n / 10 ^ last.length := by
    conv_rhs => rw [← numberOf_padded width n, hcut, numberOf_append]
    rw [Nat.mul_add_div (Nat.pow_pos (by decide)), Nat.div_eq_of_lt (numberOf_lt hlast), Nat.add_zero]
  rw [← hmore, ← Nat.le_div_iff_mul_le (Nat.pow_pos (by decide)), ← hquotient, hcut, List.append_assoc,
    digits_append_lt_iff hcs hfirst hl, numberOf_padded]
  cases hlast' : last with
  | nil =>
    -- There are equally many digits, and the numbers are not equal.
    rw [hlast', List.length_nil, Nat.pow_zero, Nat.div_one] at hquotient
    omega
  | cons d ds =>
    have ⟨hd, _⟩ := List.forall_mem_cons.mp (hlast' ▸ hlast)
    have hhyphen : '-' < d := (lt_iff_digitOf_lt hd hd).2.2.2
    have hdrop : '-' :: s < d :: ds ++ '-' :: t := List.cons_lt_cons_iff.mpr (.inl hhyphen)
    rw [and_iff_left hdrop, ← Nat.le_iff_lt_or_eq]

-- A sign comes before a number.
theorem sign_lt_padded {sign : Char} (h : sign ≤ '-') (width n : Nat) : sign :: s < padded width n ++ t := by
  cases hp : padded width n with
  | nil => exact absurd hp (padded_ne_nil width n)
  | cons c cs =>
    have hc : c.isDigit := isDigit_of_mem_padded (hp ▸ List.mem_cons_self)
    have hhyphen : '-' < c := (lt_iff_digitOf_lt hc hc).2.2.2
    exact List.cons_lt_cons_iff.mpr (.inl (lt_of_le_of_lt h hhyphen))

end Padded

end Text

namespace Calendar

-- How many digits a year is written with.
def width (year : Int) : Nat :=
  (Text.padded 4 year.natAbs).length

-- Whether what is written for a year comes before what is written for a later one. With a sign, years are compared
-- as if those with fewer digits went on with zeros.
def Precedes (y z : Int) : Prop :=
  0 ≤ z ∧ z ≤ 9999 ∨
  9999 < y ∧ y.natAbs * 10 ^ (width z - width y) ≤ z.natAbs ∨
  z < 0 ∧ y.natAbs < z.natAbs * 10 ^ (width y - width z)

-- Whether two years come in the same order when they are written.
def InStep (y z : Int) : Prop :=
  (y < z → Precedes y z) ∧ (z < y → Precedes z y)

instance {y z : Int} : Decidable (Precedes y z) :=
  inferInstanceAs (Decidable (_ ∨ _ ∨ _))

instance {y z : Int} : Decidable (InStep y z) :=
  inferInstanceAs (Decidable (_ ∧ _))

variable {y z : Int}

theorem InStep.symm (h : InStep y z) : InStep z y :=
  ⟨h.2, h.1⟩

-- All years of four digits are in step.
theorem inStep_of_four_digits (hy : 0 ≤ y ∧ y ≤ 9999) (hz : 0 ≤ z ∧ z ≤ 9999) : InStep y z :=
  ⟨fun _ => .inl hz, fun _ => .inl hy⟩

-- A year of four digits comes behind those that are written with a plus sign.
example : InStep 1967 2016 ∧ ¬InStep 2016 10000 ∧ InStep 10000 12000 ∧ ¬InStep (-2) (-1) := by decide

end Calendar

namespace Date

open Text Calendar

variable {d e : Date}

-- What is written for a date behind its year.
def rest (d : Date) : List Char :=
  padded 2 d.month ++ '-' :: padded 2 d.day

theorem chars_eq (d : Date) : d.chars = yearChars d.year ++ '-' :: d.rest := by
  rw [chars, rest, List.append_assoc, List.cons_append]

theorem rest_lt_iff : d.rest < e.rest ↔ d.month < e.month ∨ d.month = e.month ∧ d.day < e.day := by
  have ⟨hmonth, hday⟩ := d.month_lt_day_lt
  have ⟨hmonth', hday'⟩ := e.month_lt_day_lt
  have hdays := padded_append_lt_iff (s := []) (t := []) (show 0 < 2 by decide) hday hday'
  simp only [List.append_nil, List.lt_irrefl, and_false, or_false] at hdays
  rw [rest, rest, padded_append_lt_iff (by decide) hmonth hmonth', List.cons_lt_cons_iff, hdays]
  simp

theorem text_injective : Function.Injective text := by
  intro d e h
  have := congrArg read? h
  rwa [read?_text, read?_text, Option.some.injEq] at this

theorem text_lt_iff_chars_lt : d.text < e.text ↔ d.chars < e.chars := by
  rw [String.lt_iff, text, text, String.toList_ofList, String.toList_ofList]

theorem text_lt_or_lt (h : d ≠ e) : d.text < e.text ∨ e.text < d.text :=
  lt_or_gt_of_ne (text_injective.ne h)

section Years

variable {year : Int}

theorem yearChars_of_neg (h : year < 0) : yearChars year = '-' :: padded 4 year.natAbs := by
  rw [yearChars, if_neg (by omega), if_pos h, show (-year).toNat = year.natAbs by omega]

theorem yearChars_of_four_digits (h : 0 ≤ year ∧ year ≤ 9999) : yearChars year = padded 4 year.natAbs := by
  rw [yearChars, if_pos h, show year.toNat = year.natAbs by omega]

theorem yearChars_of_gt (h : 9999 < year) : yearChars year = '+' :: padded 4 year.natAbs := by
  rw [yearChars, if_neg (by omega), if_neg (by omega), show year.toNat = year.natAbs by omega]

end Years

-- What is written for a date of an earlier year comes first where the year precedes the later one.
theorem text_lt_iff_precedes (h : d.year < e.year) : d.text < e.text ↔ Precedes d.year e.year := by
  obtain hz | hz | hz : e.year < 0 ∨ (0 ≤ e.year ∧ e.year ≤ 9999) ∨ 9999 < e.year := by omega
  case inl =>
    -- Behind two minus signs the numbers stand in the opposite order.
    have hy : d.year < 0 := by omega
    have hnumbers : e.year.natAbs < d.year.natAbs := by omega
    have hopposite : e.text < d.text ↔ e.year.natAbs * 10 ^ (width d.year - width e.year) ≤ d.year.natAbs := by
      rw [text_lt_iff_chars_lt, chars_eq, chars_eq, yearChars_of_neg hy, yearChars_of_neg hz, List.cons_append,
        List.cons_append, List.cons_lt_cons_self, padded_hyphen_lt_iff 4 hnumbers, width, width]
    have hlt : d.text < e.text ↔ ¬e.text < d.text :=
      ⟨fun h => lt_asymm h, fun h' => (text_lt_or_lt (by grind)).resolve_right h'⟩
    rw [hlt, hopposite, Nat.not_le, Precedes]
    omega
  case inr.inl =>
    rw [iff_true_right (.inl hz), text_lt_iff_chars_lt, chars_eq, chars_eq, yearChars_of_four_digits hz]
    obtain hy | hy : d.year < 0 ∨ 0 ≤ d.year := by omega
    case inl =>
      rw [yearChars_of_neg hy]
      exact sign_lt_padded le_rfl 4 _
    case inr =>
      rw [yearChars_of_four_digits ⟨hy, by omega⟩, padded_append_lt_iff (by decide) (by omega) (by omega)]
      exact .inl (by omega)
  case inr.inr =>
    obtain hy | hy | hy : d.year < 0 ∨ (0 ≤ d.year ∧ d.year ≤ 9999) ∨ 9999 < d.year := by omega
    case inr.inr =>
      rw [text_lt_iff_chars_lt, chars_eq, chars_eq, yearChars_of_gt hy, yearChars_of_gt hz, List.cons_append,
        List.cons_append, List.cons_lt_cons_self, padded_hyphen_lt_iff 4 (by omega), Precedes, width, width]
      omega
    all_goals
      -- A plus sign comes before a minus sign and before a digit.
      have hnot : ¬Precedes d.year e.year := by
        rw [Precedes]
        omega
      rw [iff_false_right hnot, text_lt_iff_chars_lt, chars_eq, chars_eq, yearChars_of_gt hz]
      refine List.lt_asymm ?_
    case inl =>
      rw [yearChars_of_neg hy]
      exact List.cons_lt_cons_iff.mpr (.inl (by decide))
    case inr.inl =>
      rw [yearChars_of_four_digits hy]
      exact sign_lt_padded (by decide) 4 _

theorem compare_eq_lt : compare d e = .lt ↔
    d.year < e.year ∨ d.year = e.year ∧ (d.month < e.month ∨ d.month = e.month ∧ d.day < e.day) := by
  change (compare d.year e.year).then ((compare d.month e.month).then (compare d.day e.day)) = .lt ↔ _
  simp only [Ordering.then_eq_lt, compare_lt_iff_lt, compare_eq_iff_eq]

theorem compare_eq_eq : compare d e = .eq ↔ d = e := by
  change (compare d.year e.year).then ((compare d.month e.month).then (compare d.day e.day)) = .eq ↔ _
  simp only [Ordering.then_eq_eq, compare_eq_iff_eq]
  cases d
  cases e
  simp

-- In one year dates come in the order of what is written for them.
theorem text_lt_iff_of_year_eq (h : d.year = e.year) : d.text < e.text ↔ compare d e = .lt := by
  have hyear (cs : List Char) : cs ++ '-' :: d.rest < cs ++ '-' :: e.rest ↔ d.rest < e.rest := by
    induction cs with
    | nil => exact List.cons_lt_cons_self
    | cons c cs ih => exact List.cons_lt_cons_self.trans ih
  rw [text_lt_iff_chars_lt, chars_eq, chars_eq, ← h, hyear, rest_lt_iff, compare_eq_lt]
  simp [h]

-- The texts of two dates compare as the dates do where their years are in step, and only there.
theorem compare_text_eq_iff : compare d.text e.text = compare d e ↔ InStep d.year e.year := by
  have hgt : compare d e = .gt ↔ compare e d = .lt := Std.OrientedCmp.gt_iff_lt
  obtain h | h | h := lt_trichotomy d.year e.year
  case inl =>
    rw [compare_eq_lt.mpr (.inl h), compare_lt_iff_lt, text_lt_iff_precedes h, InStep]
    simp [h, h.le]
  case inr.inl =>
    have hstep : InStep d.year e.year := ⟨fun hlt => absurd h hlt.ne, fun hlt => absurd h hlt.ne'⟩
    rw [iff_true_right hstep]
    by_cases heq : d = e
    case pos => rw [heq, Std.ReflOrd.compare_self, Std.ReflOrd.compare_self]
    case neg =>
      cases text_lt_or_lt heq with
      | inl hlt => rw [compare_lt_iff_lt.mpr hlt, (text_lt_iff_of_year_eq h).mp hlt]
      | inr hlt => rw [compare_gt_iff_gt.mpr hlt, hgt.mpr ((text_lt_iff_of_year_eq h.symm).mp hlt)]
  case inr.inr =>
    rw [hgt.mpr (compare_eq_lt.mpr (.inl h)), compare_gt_iff_gt, text_lt_iff_precedes h, InStep]
    simp [h, h.le]

end Date

end MediaCatalog
