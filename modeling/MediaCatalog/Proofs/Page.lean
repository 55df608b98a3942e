import MediaCatalog.Page
import Mathlib.Algebra.Group.Nat.Defs

namespace MediaCatalog

namespace PageRequest

variable (r : PageRequest)

theorem toNat_offset (h : r.page.toNat * r.size.toNat < 2 ^ 63) :
    r.offset.toNatClampNeg = r.page.toNat * r.size.toNat := by
  rw [offset, ← Int64.ofNat_mul, Int64.toNatClampNeg_ofNat_of_lt h]

theorem toNat_limit : r.limit.toNatClampNeg = r.size.toNat :=
  Int64.toNatClampNeg_ofNat_of_lt (Nat.lt_trans r.size.toNat_lt (by decide))

-- A page begins wherever the pages of its size divide what 32-bit numbers and 64-bit offsets reach.
theorem exists_offset {i : Nat} {size : UInt32} (sort : List SortKey) (hs : 0 < size.toNat)
    (hi : i < 2 ^ 32 * size.toNat) (hfit : i < 2 ^ 63) :
    ∃ number, (PageRequest.mk number size sort).offset.toNatClampNeg = i / size.toNat * size.toNat := by
  have hnumber : (UInt32.ofNat (i / size.toNat)).toNat = i / size.toNat :=
    UInt32.toNat_ofNat_of_lt' ((Nat.div_lt_iff_lt_mul hs).mpr hi)
  have hle := Nat.div_mul_le_self i size.toNat
  refine ⟨.ofNat (i / size.toNat), ?_⟩
  rw [toNat_offset _ (hnumber.symm ▸ Nat.lt_of_le_of_lt hle hfit), hnumber]

end PageRequest

-- The number of pages that a list takes.
def pageCount (length size : Nat) : Nat :=
  (length + size - 1) / size

-- A page has items as long as the pages before it do not hold all.
theorem lt_pageCount {length size i : Nat} (hs : 0 < size) :
    i < pageCount length size ↔ i * size < length := by
  rw [pageCount, ← Nat.succ_le_iff, Nat.le_div_iff_mul_le hs, Nat.succ_mul]
  omega

theorem le_pageCount_mul (length : Nat) {size : Nat} (hs : 0 < size) :
    length ≤ pageCount length size * size :=
  Nat.le_of_not_lt fun h => Nat.lt_irrefl _ ((lt_pageCount hs).mpr h)

theorem max_one_of_pos {n : UInt32} (h : 0 < n.toNat) : max n 1 = n := by
  change (if n ≤ 1 then 1 else n) = n
  split
  case isTrue hle =>
    have : n.toNat ≤ 1 := UInt32.le_iff_toNat_le.mp hle
    exact UInt32.toNat_inj.mp (by simp; omega)
  case isFalse => rfl

-- As many pages are told of as it takes for every item to have a place.
theorem Page.totalPages_answer {α : Type} (items : List α) (r : PageRequest) {total : Nat}
    (hs : 0 < r.size.toNat) (ht : total + r.size.toNat ≤ 2 ^ 63) :
    (answer items r (.ofNat total)).totalPages =
      .ofNat (pageCount total r.size.toNat) := by
  have hsize : r.size.toNat < 2 ^ 63 := Nat.lt_trans r.size.toNat_lt (by decide)
  have hone : Int64.ofNat 1 = 1 := rfl
  rw [pageCount, Int64.ofNat_div (by omega) hsize, Int64.ofNat_sub _ _ (by omega), Int64.ofNat_add, hone]
  simp only [answer, max_one_of_pos hs]

end MediaCatalog
