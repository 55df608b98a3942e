import MediaCatalog.Config
import MediaCatalog.Proofs.Except
import MediaCatalog.Proofs.Page

namespace MediaCatalog

theorem Config.check_eq_ok {c : Config} : c.check = .ok () ↔
    c.settings.paging.defaultSize ≠ 0 ∧ c.settings.paging.maxSize ≠ 0 ∧
    c.settings.paging.defaultSize ≤ c.settings.paging.maxSize ∧ LanguageTag.isValid c.settings.defaultLanguage := by
  rw [check, ← UInt32.not_lt]
  dsimp only
  split
  case isTrue h =>
    simp only [Bool.or_eq_true, decide_eq_true_eq] at h
    refine iff_of_false (by simp) fun hsound => ?_
    exact h.elim hsound.1 hsound.2.1
  case isFalse h =>
    simp only [Bool.or_eq_true, decide_eq_true_eq, not_or] at h
    split
    case isTrue hlt => exact iff_of_false (by simp) fun hsound => hsound.2.2.1 hlt
    case isFalse hlt =>
      cases hv : LanguageTag.isValid c.settings.defaultLanguage <;> simp [h, hlt]

namespace PageRequest

variable (r : PageRequest)

theorem toInt_limit : r.limit.toInt = r.size.toNat :=
  Int64.toInt_ofNat_of_lt (Nat.lt_trans r.size.toNat_lt (by decide))

-- The offset is the product as long as 64 bits suffice for it.
theorem toInt_offset_eq_iff :
    r.offset.toInt = r.page.toNat * r.size.toNat ↔ r.page.toNat * r.size.toNat < 2 ^ 63 := by
  constructor
  · intro h
    have hlt := r.offset.toInt_lt
    rw [h] at hlt
    exact_mod_cast hlt
  · intro h
    rw [offset, ← Int64.ofNat_mul, Int64.toInt_ofNat_of_lt h]
    rfl

end PageRequest

namespace Query

theorem pageRequest_eq_ok {q : Query} {p : Paging} {r : PageRequest} : q.pageRequest p = .ok r ↔
    ∃ page, count "page" p.firstPage q.page = .ok page ∧ p.firstPage ≤ page ∧
      ∃ size, count "size" p.defaultSize q.size = .ok size ∧
        ∃ sort, SortKey.readAll q.sort = .ok sort ∧
          ⟨page - p.firstPage, max 1 (min size p.maxSize), sort⟩ = r := by
  simp only [pageRequest, Except.bind_eq_ok, Except.mapError_eq_ok, ← UInt32.not_lt]
  refine exists_congr fun page => and_congr_right fun _ => ?_
  split
  case isTrue hlt => simp [hlt]
  case isFalse hlt => simp [hlt, Except.mapError_eq_ok]

-- What is reckoned for a page of a number that the client knows it by, and for its answer with a total. Nothing
-- leaves its range.
structure IsExact (p : Paging) (number : UInt32) (r : PageRequest) (total : Nat) : Prop where
  -- The bounds of the size are in order, so that it can be moved between them.
  bounds     : 1 ≤ p.maxSize
  size       : 1 ≤ r.size ∧ r.size ≤ p.maxSize
  difference : p.firstPage ≤ number ∧ r.page.toNat = number.toNat - p.firstPage.toNat
  echo       : (r.page + p.firstPage).toNat = r.page.toNat + p.firstPage.toNat
  limit      : r.limit.toInt = r.size.toNat
  sum        : (Int64.ofNat total + Int64.ofNat (max r.size 1).toNat).toInt = total + r.size.toNat
  less       : (Int64.ofNat total + Int64.ofNat (max r.size 1).toNat - 1).toInt = total + r.size.toNat - 1
  pages      : ∀ {α : Type} (items : List α), (Page.answer items r (.ofNat total)).totalPages.toInt =
    pageCount total r.size.toNat

theorem toNat_clamp (p : Paging) (size : UInt32) :
    (max 1 (min size p.maxSize)).toNat = max 1 (min size.toNat p.maxSize.toNat) := by
  rw [UInt32.toNat_max, UInt32.toNat_min]
  rfl

theorem isExact_of_le {p : Paging} {number size : UInt32} {sort : List SortKey} {total : Nat}
    (hmax : 1 ≤ p.maxSize) (hfirst : p.firstPage ≤ number) (ht : total ≤ 2 ^ 63 - 1 - 2 ^ 32) :
    IsExact p number ⟨number - p.firstPage, max 1 (min size p.maxSize), sort⟩ total := by
  have hmaxNat : 1 ≤ p.maxSize.toNat := UInt32.le_iff_toNat_le.mp hmax
  have hclamp := toNat_clamp p size
  generalize max 1 (min size p.maxSize) = s at hclamp
  have hpos : 0 < s.toNat := by omega
  have hle : s.toNat ≤ p.maxSize.toNat := by omega
  have hs : s.toNat < 2 ^ 32 := s.toNat_lt
  have hdifference := UInt32.toNat_sub_of_le number p.firstPage hfirst
  have hsum : Int64.ofNat total + Int64.ofNat (max s 1).toNat = .ofNat (total + s.toNat) := by
    rw [max_one_of_pos hpos, Int64.ofNat_add]
  refine ⟨hmax, ⟨UInt32.le_iff_toNat_le.mpr hpos, UInt32.le_iff_toNat_le.mpr hle⟩, ⟨hfirst, hdifference⟩,
    ?echo, PageRequest.toInt_limit _, ?sum, ?less, fun items => ?pages⟩
  case echo =>
    have hnumber := number.toNat_lt
    have hfirstNat := UInt32.le_iff_toNat_le.mp hfirst
    rw [UInt32.toNat_add, Nat.mod_eq_of_lt (by rw [hdifference]; omega)]
  case sum =>
    rw [hsum, Int64.toInt_ofNat_of_lt (by omega)]
    rfl
  case less =>
    have hone : (1 : Int64) = .ofNat 1 := rfl
    have hsub : ((total + s.toNat - 1 : Nat) : Int) = total + s.toNat - 1 := by omega
    rw [hsum, hone, ← Int64.ofNat_sub _ _ (by omega), Int64.toInt_ofNat_of_lt (by omega), hsub]
  case pages =>
    have hfit : total + s.toNat ≤ 2 ^ 63 := by omega
    have hcount : pageCount total s.toNat < 2 ^ 63 :=
      Nat.lt_of_le_of_lt (Nat.div_le_self ..) (by omega)
    rw [Page.totalPages_answer items _ hpos hfit, Int64.toInt_ofNat_of_lt hcount]

-- Within a sound configuration all numbers of a page are exact, whatever page and size a client asks for and up to a
-- total of nearly 2⁶³. The offset is so if and only if it fits, which is sure where no more than 2³¹ items can be
-- asked for at once.
theorem offset_eq_iff_of_check {c : Config} (hc : c.check = .ok ()) {q : Query} {r : PageRequest}
    (hr : q.pageRequest c.settings.paging = .ok r) {total : Nat} (ht : total ≤ 2 ^ 63 - 1 - 2 ^ 32) :
    let p := c.settings.paging
    (∃ number, count "page" p.firstPage q.page = .ok number ∧ IsExact p number r total) ∧
    (r.offset.toInt = r.page.toNat * r.size.toNat ↔ r.page.toNat * r.size.toNat < 2 ^ 63) ∧
    (p.maxSize.toNat ≤ 2 ^ 31 → r.page.toNat * r.size.toNat < 2 ^ 63) := by
  obtain ⟨-, hmax, -⟩ := Config.check_eq_ok.mp hc
  obtain ⟨number, hnumber, hfirst, size, -, sort, -, rfl⟩ := pageRequest_eq_ok.mp hr
  have hmax : 1 ≤ c.settings.paging.maxSize := by
    rw [UInt32.le_iff_toNat_le]
    exact Nat.pos_of_ne_zero fun h => hmax (UInt32.toNat_inj.mp h)
  refine ⟨⟨number, hnumber, isExact_of_le hmax hfirst ht⟩, PageRequest.toInt_offset_eq_iff _, fun hle => ?_⟩
  have hsize : (max 1 (min size c.settings.paging.maxSize)).toNat ≤ 2 ^ 31 := by
    rw [toNat_clamp]
    omega
  calc _ ≤ (number - c.settings.paging.firstPage).toNat * 2 ^ 31 := Nat.mul_le_mul_left _ hsize
    _ < 2 ^ 32 * 2 ^ 31 := Nat.mul_lt_mul_of_pos_right (UInt32.toNat_lt _) (by decide)

-- The last page that a client can ask a server with the standard settings for.
theorem offset_eq_iff_of_check_last :
    let q : Query := { empty with page := "4294967295", size := "1000" }
    ∃ r, q.pageRequest Config.standard.settings.paging = .ok r ∧ r.offset.toInt = 4294967295 * 100 ∧
      r.limit.toInt = 100 := by
  intro q
  have hr : q.pageRequest Config.standard.settings.paging = .ok ⟨4294967295, 100, []⟩ := rfl
  have ⟨⟨_, _, hexact⟩, hoffset, hfits⟩ :=
    offset_eq_iff_of_check (c := Config.standard) (by rfl) hr (Nat.le_refl (2 ^ 63 - 1 - 2 ^ 32))
  exact ⟨_, hr, hoffset.mpr (hfits (by decide)), hexact.limit⟩

-- An operator may allow pages as large as 32 bits can say. Then a page may begin at a negative offset.
theorem offset_neg :
    let c : Config := { Config.standard with settings := ⟨⟨20, 4294967295, false⟩, "en-US"⟩ }
    let q : Query := { empty with page := "4294967295", size := "4294967295" }
    c.check = .ok () ∧ ∃ r, q.pageRequest c.settings.paging = .ok r ∧ r.page = 4294967295 ∧ r.size = 4294967295 ∧
      r.offset.toInt = -8589934591 :=
  ⟨rfl, _, rfl, rfl, rfl, rfl⟩

end Query

end MediaCatalog
