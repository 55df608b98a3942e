import MediaCatalog.Proofs.Sql.Engine
import Mathlib.Data.List.Find

namespace MediaCatalog

section Sorting

variable {α : Type}

theorem mergeSort_eq_nil {l : List α} {le : α → α → Bool} : l.mergeSort le = [] ↔ l = [] := by
  rw [← List.length_eq_zero_iff, List.length_mergeSort, List.length_eq_zero_iff]

variable {cmp : α → α → Ordering} [Std.TransCmp cmp]

theorem pairwise_mergeSort_cmp (l : List α) :
    (l.mergeSort fun a b => (cmp a b).isLE).Pairwise fun a b => (cmp a b).isLE := by
  apply List.pairwise_mergeSort
  · intro a b c hab hbc
    exact Std.TransCmp.isLE_trans hab hbc
  · intro a b
    have hs : cmp b a = (cmp a b).swap := Std.OrientedCmp.eq_swap
    rw [hs]
    cases cmp a b <;> rfl

-- It is enough that the items of the list can be compared.
theorem pairwise_mergeSort_mem (cmp : α → α → Ordering) {l : List α}
    (h : Std.TransCmp fun a b : { x // x ∈ l } => cmp a.1 b.1) :
    (l.mergeSort fun a b => (cmp a b).isLE).Pairwise fun a b => (cmp a b).isLE := by
  have hs := @pairwise_mergeSort_cmp { x // x ∈ l } (fun a b => cmp a.1 b.1) h l.attach
  have hm : (l.attach.mergeSort fun a b => (cmp a.1 b.1).isLE).map Subtype.val =
      l.mergeSort fun a b => (cmp a b).isLE := by
    rw [List.map_mergeSort (s := fun a b => (cmp a b).isLE) fun _ _ _ _ => rfl,
      List.attach_map_subtype_val]
  rw [← hm]
  exact List.pairwise_map.mpr hs

-- There is one way only to sort items of which no two are equal in the order.
theorem eq_mergeSort_of_pairwise {l l' : List α} (hp : l'.Perm l)
    (hs : l'.Pairwise fun a b => (cmp a b).isLE)
    (he : ∀ a ∈ l, ∀ b ∈ l, cmp a b = .eq → a = b) :
    l' = l.mergeSort fun a b => (cmp a b).isLE := by
  have hm := List.mergeSort_perm l fun a b => (cmp a b).isLE
  refine List.Perm.eq_of_pairwise ?_ hs (pairwise_mergeSort_cmp l) (hp.trans hm.symm)
  intro a b ha hb hab hba
  exact he a (hp.mem_iff.mp ha) b (hm.mem_iff.mp hb) (Std.OrientedCmp.isLE_antisymm hab hba)

-- Sorted in two ways, the items on which the ways agree come in one order.
theorem filter_mergeSort_congr {cmp cmp' : α → α → Ordering} {l : List α} {p : α → Bool}
    (h : Std.TransCmp fun a b : { x // x ∈ l } => cmp a.1 b.1)
    (h' : Std.TransCmp fun a b : { x // x ∈ l } => cmp' a.1 b.1)
    (he : ∀ a ∈ l, ∀ b ∈ l, cmp a b = .eq → a = b)
    (hp : ∀ a ∈ l, ∀ b ∈ l, p a → p b → cmp a b = cmp' a b) :
    (l.mergeSort fun a b => (cmp a b).isLE).filter p = (l.mergeSort fun a b => (cmp' a b).isLE).filter p := by
  have hm := List.mergeSort_perm l fun a b => (cmp a b).isLE
  have hm' := List.mergeSort_perm l fun a b => (cmp' a b).isLE
  have hs := (pairwise_mergeSort_mem cmp h).filter p
  have hs' : ((l.mergeSort fun a b => (cmp' a b).isLE).filter p).Pairwise fun a b => (cmp a b).isLE := by
    apply ((pairwise_mergeSort_mem cmp' h').filter p).imp_of_mem
    intro a b ha hb hab
    have ⟨ha, hpa⟩ := List.mem_filter.mp ha
    have ⟨hb, hpb⟩ := List.mem_filter.mp hb
    rwa [hp a (hm'.mem_iff.mp ha) b (hm'.mem_iff.mp hb) hpa hpb]
  apply ((hm.trans hm'.symm).filter p).eq_of_pairwise _ hs hs'
  intro a b ha hb hab hba
  have ha := hm.mem_iff.mp (List.mem_filter.mp ha).1
  have hb := hm'.mem_iff.mp (List.mem_filter.mp hb).1
  exact he a ha b hb (h.isLE_antisymm (a := ⟨a, ha⟩) (b := ⟨b, hb⟩) hab hba)

end Sorting

namespace Sql.Engine

variable {κ : Type}

section

variable (e : Engine κ)

-- The order of values in a direction.
def orderIn (d : Direction) (a b : κ) : Ordering :=
  match d with
  | .ascending  => e.order a b
  | .descending => e.order b a

-- Whether a value comes no later than another one in a direction.
def noLater (d : Direction) (a b : κ) : Bool :=
  match d with
  | .ascending  => (e.order a b).isLE
  | .descending => (e.order b a).isLE

-- Whether a value comes no later than any of the given ones.
def isFirst (d : Direction) (cs : List κ) (c : κ) : Bool :=
  cs.all (e.noLater d c)

-- The least of the values that are not null, or the greatest; null if all are null.
def aggregate (d : Direction) (cs : List κ) : κ :=
  let cs := cs.filter (!e.isNull ·)
  (cs.find? (e.isFirst d cs)).getD (e.store .null)

end

variable {e : Engine κ} {fits : FieldType → κ → Prop} (h : e.Lawful fits) {τ : FieldType}
  {d : Direction}

include h

-- Things can be sorted by values that all fit the same type.
theorem Lawful.transCmp {α : Type} {f : α → κ} (hf : ∀ a, fits τ (f a)) :
    Std.TransCmp fun a b => e.order (f a) (f b) where
  eq_swap {a b} := h.order_swap (hf a) (hf b)
  isLE_trans {a b c} := h.order_trans (hf a) (hf b) (hf c)

-- Things can be sorted by such values first, in either direction, and then by something else.
theorem Lawful.transCmp_then {α : Type} {f : α → κ} (hf : ∀ a, fits τ (f a)) (d : Direction) (cmp : α → α → Ordering)
    [Std.TransCmp cmp] :
    Std.TransCmp fun a b => (e.orderIn d (f a) (f b)).then (cmp a b) := by
  have hkey := h.transCmp hf
  cases d with
  | ascending =>
    exact inferInstanceAs (Std.TransCmp <| compareLex (fun a b => e.order (f a) (f b)) cmp)
  | descending =>
    have hopposite : Std.TransCmp fun a b => e.order (f b) (f a) := .opposite
    exact inferInstanceAs (Std.TransCmp <| compareLex (fun a b => e.order (f b) (f a)) cmp)

theorem Lawful.noLater_trans {a b c : κ} (ha : fits τ a) (hb : fits τ b) (hc : fits τ c)
    (hab : e.noLater d a b) (hbc : e.noLater d b c) : e.noLater d a c := by
  cases d with
  | ascending => exact h.order_trans ha hb hc hab hbc
  | descending => exact h.order_trans hc hb ha hbc hab

theorem Lawful.noLater_total {a b : κ} (ha : fits τ a) (hb : fits τ b) :
    e.noLater d a b ∨ e.noLater d b a := by
  cases d <;> simp only [noLater] <;> rw [h.order_swap ha hb] <;> cases e.order b a <;> simp

theorem Lawful.choose_eq {a b : κ} (ha : fits τ a) (hb : fits τ b) (hn : e.isNull a = false) :
    extreme.choose e d a b = if e.noLater d a b then a else b := by
  have hs := h.order_swap ha hb
  cases d <;> cases ho : e.order a b <;> cases ho' : e.order b a <;>
    simp_all [extreme.choose, noLater]

theorem foldl_choose {c : κ} {cs : List κ} (hf : ∀ x ∈ c :: cs, fits τ x)
    (hn : ∀ x ∈ c :: cs, e.isNull x = false) :
    some (cs.foldl (extreme.choose e d) c) =
      (c :: cs).find? (e.isFirst d (c :: cs)) := by
  induction cs generalizing c with
  | nil =>
    have hc := hf c (by simp)
    have hr : e.noLater d c c := (h.noLater_total hc hc).elim id id
    simp [isFirst, hr]
  | cons b cs ih =>
    have hc := hf c (by simp)
    have hb := hf b (by simp)
    have hrest : ∀ x ∈ cs, fits τ x := fun x hx => hf x (by simp [hx])
    rw [List.foldl_cons, h.choose_eq hc hb (hn c (by simp))]
    split
    -- The next value is no better, so it is not the one that is found either.
    case isTrue hcb =>
      rw [ih (fun x hx => hf x (by grind)) (fun x hx => hn x (by grind))]
      have hall : ∀ x, fits τ x → e.isFirst d (c :: b :: cs) x = e.isFirst d (c :: cs) x := by
        intro x hx
        have := fun hxc => h.noLater_trans hx hc hb hxc hcb
        simp only [isFirst, List.all_cons]
        grind
      by_cases hp : e.isFirst d (c :: cs) c
      case pos => rw [List.find?_cons_of_pos hp, List.find?_cons_of_pos (hall c hc ▸ hp)]
      case neg =>
        have hnb : ¬e.isFirst d (c :: b :: cs) b := by
          intro hbs
          apply hp
          simp only [isFirst, List.all_cons, Bool.and_eq_true, List.all_eq_true] at hbs ⊢
          refine ⟨(h.noLater_total hc hc).elim id id, fun x hx => ?_⟩
          exact h.noLater_trans hc hb (hrest x hx) hcb (hbs.2.2 x hx)
        rw [List.find?_cons_of_neg hp, List.find?_cons_of_neg (hall c hc ▸ hp),
          List.find?_cons_of_neg hnb]
        exact List.find?_congr fun x hx => (hall x (hrest x hx)).symm
    case isFalse hcb =>
      have hbc := (h.noLater_total hc hb).resolve_left hcb
      rw [ih (fun x hx => hf x (by grind)) (fun x hx => hn x (by grind))]
      have hnc : ¬e.isFirst d (c :: b :: cs) c := by simp [isFirst, hcb]
      rw [List.find?_cons_of_neg hnc]
      refine List.find?_congr fun x hx => ?_
      have hx : fits τ x := hf x (by grind)
      have := fun hxb => h.noLater_trans hx hb hc hxb hbc
      simp only [isFirst, List.all_cons]
      grind

-- What a group of rows is sorted by is the least or the greatest of their values.
theorem extreme_eq_aggregate {cs : List κ} (hf : ∀ c ∈ cs, fits τ c) :
    e.extreme d cs = e.aggregate d cs := by
  have hf' : ∀ c ∈ cs.filter (!e.isNull ·), fits τ c := fun c hc => hf c (List.mem_filter.mp hc).1
  have hn : ∀ c ∈ cs.filter (!e.isNull ·), e.isNull c = false := by
    intro c hc
    simpa using (List.mem_filter.mp hc).2
  unfold extreme aggregate
  dsimp only
  cases hcs : cs.filter (!e.isNull ·) with
  | nil => rfl
  | cons c cs =>
    rw [hcs] at hf' hn
    have hc : extreme.choose e d (e.store .null) c = c := by
      simp [extreme.choose, h.isNull_null]
    rw [← foldl_choose h hf' hn, List.foldl_cons, hc]
    rfl

theorem extreme_fits {cs : List κ} (hf : ∀ c ∈ cs, fits τ c) : fits τ (e.extreme d cs) := by
  rw [extreme_eq_aggregate h hf, aggregate]
  cases hc : (cs.filter (!e.isNull ·)).find? (e.isFirst d (cs.filter (!e.isNull ·))) with
  | none => exact h.fits_null τ
  | some c => exact hf c (List.mem_filter.mp (List.mem_of_find?_eq_some hc)).1

end Sql.Engine

namespace Tables

open Sql

variable {κ : Type} {e : Engine κ} {fits : FieldType → κ → Prop} (h : e.Lawful fits)
  {order : List OrderTerm} {js : List (JoinedRow κ)}

include h

theorem transCmp_compareEntries
    (ho : ∀ o ∈ order, ∃ τ, ∀ j ∈ js, fits τ (j.get e o.column)) :
    Std.TransCmp (compareEntries e order js) := by
  induction order with
  | nil => exact inferInstanceAs (Std.TransCmp (compare : Int → Int → Ordering))
  | cons o os ih =>
    have ⟨τ, hτ⟩ := ho o (by simp)
    have hrest := ih fun o ho' => ho o (by simp [ho'])
    let value (id : Int) : κ :=
      e.extreme o.direction ((js.filter (·.root.id = id)).map (·.get e o.column))
    have hv (id : Int) : fits τ (value id) := by
      apply Engine.extreme_fits h
      simp only [List.forall_mem_map]
      exact fun j hj => hτ j (List.mem_filter.mp hj).1
    have hkey := h.transCmp_then hv o.direction (compareEntries e os js)
    cases o with
    | mk column direction => cases direction <;> exact hkey

omit h in
-- Entries that no key tells apart are told apart by their numbers.
theorem eq_of_compareEntries {a b : Int} (heq : compareEntries e order js a b = .eq) : a = b := by
  induction order with
  | nil => exact Std.LawfulEqOrd.eq_of_compare heq
  | cons o os ih =>
    rw [compareEntries, Ordering.then_eq_eq] at heq
    exact ih heq.2

end Tables

end MediaCatalog
