import MediaCatalog.Filter.Operator
import MediaCatalog.Proofs.Text.Affix
import Mathlib.Data.List.Basic
import Mathlib.Data.List.Infix

namespace MediaCatalog

namespace Text

variable {beginning s rest : String}

theorem without?_eq_some : without? beginning s = some rest ↔ beginning ++ rest = s := by
  simp only [without?, Option.map_eq_some_iff, List.isPrefixOf?_eq_some_iff_append_eq]
  constructor
  case mp =>
    intro h
    have ⟨cs, hcs, heq⟩ := h
    rw [← heq, ← String.toList_inj, String.toList_append, String.toList_ofList, hcs]
  case mpr =>
    intro h
    exists rest.toList
    rw [← h, String.toList_append, String.ofList_toList]
    exact ⟨rfl, rfl⟩

end Text

namespace Filter.Operator

-- Whether a value opens with the mark of an operator, and with no other mark of that length or a greater one.
structure Leads (o : Operator) (raw : String) : Prop where
  opens   : o.opens raw
  longest : ∀ o', o'.opens raw → o' ≠ o → o'.mark.toList.length < o.mark.toList.length

-- The characters that may go on with a mark: where one of them stands behind it, there is a longer mark.
def sequels : Operator → List Char
  | isIn           => [':']
  | greater | less => ['=']
  | notEqual       => ['*', ':']
  | equal          => ['!', '*', ':', '<', '>']
  | _              => []

section Marks

theorem mem_all (o : Operator) : o ∈ all := by
  cases o <;> decide

-- No mark opens one that stands behind it.
theorem pairwise_all : all.Pairwise fun o o' => ¬o.mark.toList <+: o'.mark.toList := by
  decide

theorem exists_mark_of_sequel {o : Operator} {c : Char} (h : c ∈ o.sequels) :
    ∃ o' : Operator, o'.mark.toList = o.mark.toList ++ [c] := by
  have hall : ∀ longer ∈ all.flatMap fun o => o.sequels.map (o.mark.toList ++ [·]),
      ∃ o' ∈ all, o'.mark.toList = longer := by
    decide
  have hlonger := List.mem_map_of_mem (f := (o.mark.toList ++ [·])) h
  have ⟨o', _, hmark⟩ := hall _ (List.mem_flatMap.mpr ⟨o, mem_all o, hlonger⟩)
  exact ⟨o', hmark⟩

theorem exists_sequel_of_mark {o o' : Operator} (hne : o' ≠ o) {ext : List Char}
    (h : o'.mark.toList = o.mark.toList ++ ext) : ∃ c ∈ ext.head?, c ∈ o.sequels := by
  have hall : ∀ o ∈ all, ∀ o' ∈ all, o' ≠ o → o.mark.toList <+: o'.mark.toList →
      (o'.mark.toList.drop o.mark.toList.length).head?.any (· ∈ o.sequels) := by decide
  have hext : o'.mark.toList.drop o.mark.toList.length = ext := by rw [h, List.drop_left]
  have hprefix : o.mark.toList <+: o'.mark.toList := by rw [h]; apply List.prefix_append
  have ⟨c, hc, hsequel⟩ := (Option.any_eq_true _ _).mp (hall o (mem_all o) o' (mem_all o') hne hprefix)
  exact ⟨c, hext ▸ hc, of_decide_eq_true hsequel⟩

end Marks

variable {o : Operator} {raw operand : String}

theorem opens_iff : o.opens raw ↔ o.mark.toList <+: raw.toList :=
  Text.startsWith_iff

theorem opens_append (o : Operator) (operand : String) : o.opens (o.mark ++ operand) := by
  rw [opens_iff, String.toList_append]
  apply List.prefix_append

-- There is one operator only that leads a value.
theorem Leads.unique {o' : Operator} (h : o.Leads raw) (h' : o'.Leads raw) : o = o' := by
  by_contra hne
  have hlt := h.longest o' h'.opens (Ne.symm hne)
  have hlt' := h'.longest o h.opens hne
  omega

-- Of the operators whose marks open a value, the first one is taken.
theorem exists_of_detect (h : detect raw = (o, operand)) :
    o.mark ++ operand = raw ∧ ∃ before behind, all = before ++ o :: behind ∧ ∀ o' ∈ before, ¬o'.opens raw := by
  have hnone {o' : Operator} (hfail : (Text.without? o'.mark raw).map (o', ·) = none) : ¬o'.opens raw := by
    intro hopens
    have ⟨cs, hcs⟩ := opens_iff.mp hopens
    have hsome : Text.without? o'.mark raw = some (.ofList cs) := by
      rw [Text.without?_eq_some, ← String.toList_inj, String.toList_append, String.toList_ofList, hcs]
    rw [hsome] at hfail
    cases hfail
  rw [detect] at h
  cases hf : all.findSome? fun o => (Text.without? o.mark raw).map (o, ·) with
  | none =>
    have hequal := List.findSome?_eq_none_iff.mp hf .equal (mem_all .equal)
    have hempty : equal.opens raw := opens_iff.mpr List.nil_prefix
    exact absurd hempty (hnone hequal)
  | some found =>
    rw [hf, Option.getD_some] at h
    subst h
    have ⟨before, o', behind, hall, hfound, hbefore⟩ := List.findSome?_eq_some_iff.mp hf
    have ⟨rest, hrest, heq⟩ := Option.map_eq_some_iff.mp hfound
    cases heq
    exact ⟨Text.without?_eq_some.mp hrest, before, behind, hall, fun o' ho' => hnone (hbefore o' ho')⟩

-- The first one is the longest one.
theorem leads_of_detect (h : detect raw = (o, operand)) : o.Leads raw := by
  have ⟨hraw, before, behind, hall, hbefore⟩ := exists_of_detect h
  have hopens : o.opens raw := hraw ▸ opens_append o operand
  constructor
  case opens => exact hopens
  case longest =>
    intro o' hopens' hne
    have hbehind : o' ∈ behind := by
      have hmem := hall ▸ mem_all o'
      cases List.mem_append.mp hmem
      case inl hmem => exact absurd hopens' (hbefore o' hmem)
      case inr hmem => exact (List.mem_cons.mp hmem).resolve_left hne
    have hpairwise := List.pairwise_append.mp (hall ▸ pairwise_all)
    have hnot := (List.pairwise_cons.mp hpairwise.2.1).1 o' hbehind
    by_contra hle
    exact hnot (List.prefix_of_prefix_length_le (opens_iff.mp hopens) (opens_iff.mp hopens') (by omega))

theorem detect_eq_iff : detect raw = (o, operand) ↔ o.Leads raw ∧ o.mark ++ operand = raw := by
  constructor
  case mp =>
    intro h
    exact ⟨leads_of_detect h, (exists_of_detect h).1⟩
  case mpr =>
    intro h
    have ⟨hleads, hraw⟩ := h
    cases hd : detect raw with
    | mk o' operand' =>
      cases hleads.unique (leads_of_detect hd)
      have heq := hraw.trans (exists_of_detect hd).1.symm
      rw [(String.append_right_inj _).mp heq]

-- A mark is the longest one if the operand does not go on with it.
theorem leads_append_iff : o.Leads (o.mark ++ operand) ↔ ∀ c ∈ operand.toList.head?, c ∉ o.sequels := by
  constructor
  case mp =>
    intro h c hc hsequel
    have ⟨o', hmark⟩ := exists_mark_of_sequel hsequel
    have hopens : o'.opens (o.mark ++ operand) := by
      have ⟨rest, hrest⟩ := List.head?_eq_some_iff.mp hc
      rw [opens_iff, hmark, String.toList_append, List.prefix_append_right_inj]
      exact ⟨rest, hrest.symm⟩
    have hne : o' ≠ o := by
      intro heq
      subst heq
      simp at hmark
    have hlt := h.longest o' hopens hne
    rw [hmark, List.length_append] at hlt
    omega
  case mpr =>
    intro h
    constructor
    case opens => apply opens_append
    case longest =>
      intro o' hopens hne
      by_contra hle
      have hprefix := List.prefix_of_prefix_length_le (opens_iff.mp (opens_append o operand)) (opens_iff.mp hopens)
        (by omega)
      have ⟨ext, hext⟩ := hprefix
      have ⟨c, hc, hsequel⟩ := exists_sequel_of_mark hne hext.symm
      apply h c _ hsequel
      have hbehind : ext <+: operand.toList := by
        have hboth := opens_iff.mp hopens
        rwa [← hext, String.toList_append, List.prefix_append_right_inj] at hboth
      have ⟨rest, hrest⟩ := hbehind
      rw [← hrest, List.head?_append, Option.mem_def.mp hc]
      rfl

-- A mark is told apart from an operand that does not go on with it.
theorem detect_mark_iff : detect (o.mark ++ operand) = (o, operand) ↔ ∀ c ∈ operand.toList.head?, c ∉ o.sequels := by
  rw [detect_eq_iff, leads_append_iff, and_iff_left rfl]

-- A value is read by the longest of all marks that it opens with, and what is left over is the operand. The other way
-- round, a mark and an operand are read as they were put together, unless they make a longer mark.
theorem detect_longest_and_lossless :
    (∀ raw, (detect raw).1.Leads raw ∧ (detect raw).1.mark ++ (detect raw).2 = raw) ∧
    ∀ (o : Operator) (operand : String),
      detect (o.mark ++ operand) = (o, operand) ↔ ∀ c ∈ operand.toList.head?, c ∉ o.sequels := by
  constructor
  case left =>
    intro raw
    exact detect_eq_iff.mp rfl
  case right =>
    intro o operand
    exact detect_mark_iff

end Filter.Operator

end MediaCatalog
