import MediaCatalog.Proofs.Search.Complement
import MediaCatalog.Proofs.Store.Fetch

namespace MediaCatalog

open Sql

variable {κ : Type}

-- The values of a record's own columns, as an engine holds them.
def Record.own (e : Engine κ) (r : Record) (c : Column) : κ :=
  e.store (r.root.value c.name)

-- Whether a record is found: a translation of it is asked for, and its own values pass.
def Record.isFound (e : Engine κ) (l : Language) (q : Predicate) (r : Record) : Bool :=
  !(r.restrict l).translations.isEmpty && q.holds e (r.own e)

-- A condition that some filter of a field of the entry itself states.
def Sql.Condition.IsOwn (s : Schema) (a : Condition) : Prop :=
  ∃ f ∈ s.rootFields, ∃ c : Filter.Criterion, c.condition f = a

-- An order by a field of the entry itself.
def Sql.OrderTerm.IsOwn (s : Schema) (o : OrderTerm) : Prop :=
  ∃ f ∈ s.rootFields, f.isSortable ∧ o.column = Column.ofField f

namespace Records

section

variable (e : Engine κ)

-- How two records compare by their own values, and then by their numbers.
def compareOwn : List OrderTerm → Int × Record → Int × Record → Ordering
  | [],      x, y => compare x.1 y.1
  | o :: os, x, y =>
    (e.orderIn o.direction (x.2.own e o.column) (y.2.own e o.column)).then (compareOwn os x y)

-- The entries of the records that are found, in order.
def listing (s : Schema) (l : Language) (q : Predicate) (order : List OrderTerm) (rs : Records) : List Entry :=
  ((rs.filter fun x => x.2.isFound e l q).mergeSort fun x y => (compareOwn e order x y).isLE).map fun x =>
    (x.2.restrict l).entry s x.1

end

end Records

section Aggregate

variable {e : Engine κ} {fits : FieldType → κ → Prop} (h : e.Lawful fits) {τ : FieldType} {d : Direction}

include h

-- The least of equal values is that value, and so is the greatest.
theorem Sql.Engine.aggregate_eq {v : κ} {vs : List κ} (hv : fits τ v) (hne : vs ≠ []) (hvs : ∀ w ∈ vs, w = v) :
    e.aggregate d vs = if e.isNull v then e.store .null else v := by
  rw [aggregate]
  cases hn : e.isNull v with
  | true =>
    have hnone : vs.filter (!e.isNull ·) = [] := by
      rw [List.filter_eq_nil_iff]
      intro w hw
      simp [hvs w hw, hn]
    rw [hnone]
    rfl
  | false =>
    have hall : vs.filter (!e.isNull ·) = vs := by
      rw [List.filter_eq_self]
      intro w hw
      simp [hvs w hw, hn]
    have hfirst : e.isFirst d vs v := by
      rw [isFirst, List.all_eq_true]
      intro w hw
      rw [hvs w hw]
      exact (h.noLater_total hv hv).elim id id
    rw [hall]
    cases vs with
    | nil => exact absurd rfl hne
    | cons w ws =>
      cases hvs w List.mem_cons_self
      rw [List.find?_cons_of_pos hfirst]
      rfl

end Aggregate

namespace Tables.Keeps

variable {e : Engine κ} {fits : FieldType → κ → Prop} {s : Schema} {t : Tables κ} {rs : Records} (h : e.Faithful fits)
  (hs : s.IsUsable) (ht : t.Keeps e rs) (hr : rs.Sound s) {l : Language} {q : Predicate} (hq : ∀ a ∈ q, a.IsOwn s)
  {x y : Int × Record}

section Rows

include hs hr

-- The rows of an entry have the entry's own values.
theorem get_own (hx : x ∈ rs) {j : JoinedRow κ} (hj : j.root = ⟨x.1, (Insert.root x.2).held e⟩) {f : Field}
    (hf : f ∈ s.rootFields) : j.get e (Column.ofField f) = x.2.own e (Column.ofField f) := by
  have ⟨hmem, ho⟩ := Schema.mem_rootFields.mp hf
  have hget : j.get e (Column.ofField f) = j.root.get e f.column := by simp [JoinedRow.get, Column.ofField, ho]
  rw [hget, hj, StoredRow.get_eq_columnOf (column_ne_id hs hmem), columnOf_root hs (hr.isOf x hx)]
  rfl

include hq

-- So all of them pass, or none.
theorem matching_own (hx : x ∈ rs) : matching e s.kind (l.predicate ++ q) t ⟨x.1, (Insert.root x.2).held e⟩ =
    if q.holds e (x.2.own e) then matching e s.kind l.predicate t ⟨x.1, (Insert.root x.2).held e⟩ else [] := by
  have hholds : ∀ j ∈ matching e s.kind l.predicate t ⟨x.1, (Insert.root x.2).held e⟩,
      q.holds e (j.get e) = q.holds e (x.2.own e) := by
    intro j hj
    have htruth : ∀ a ∈ q, a.truth e (j.get e) = a.truth e (x.2.own e) := by
      intro a ha
      obtain ⟨f, hf, c, rfl⟩ := hq a ha
      exact c.truth_congr (get_own hs hr hx (mem_matching.mp hj).1 hf)
    rw [Predicate.holds, Predicate.holds, Predicate.truth, Predicate.truth, List.map_congr_left htruth]
  rw [matching_append, List.filter_congr hholds]
  split <;> simp_all

end Rows

include h hs ht hr hq

theorem found_own : t.found e s.kind (l.predicate ++ q) =
    (rs.filter fun x => x.2.isFound e l q).map fun x => ⟨x.1, (Insert.root x.2).held e⟩ := by
  rw [found, ht.roots, List.filter_map]
  refine congrArg (List.map _) (List.filter_congr fun x hx => ?_)
  have := congrArg List.isEmpty (columns_matching h ht hr l hx)
  rw [List.isEmpty_map, List.isEmpty_map] at this
  rw [Function.comp_apply, matching_own hs hr hq hx, Record.isFound]
  split <;> simp_all

theorem entryOf_own (hx : x ∈ rs) (hp : q.holds e (x.2.own e)) :
    t.entryOf e s (l.predicate ++ q) ⟨x.1, (Insert.root x.2).held e⟩ = (x.2.restrict l).entry s x.1 := by
  rw [← entryOf_eq h hs ht hr l hx, entryOf, entryOf, matching_own hs hr hq hx, if_pos hp]

-- An entry is sorted by its own values.
theorem aggregate_own (hx : x ∈ rs) (hp : x.2.isFound e l q) {o : OrderTerm} (ho : o.IsOwn s) :
    e.aggregate o.direction ((matching e s.kind (l.predicate ++ q) t ⟨x.1, (Insert.root x.2).held e⟩).map
      (·.get e o.column)) = x.2.own e o.column := by
  obtain ⟨f, hf, hsort, hc⟩ := ho
  have hsuits := (hr.isOf x hx).root.suits f hf
  have hfound : ⟨x.1, (Insert.root x.2).held e⟩ ∈ t.found e s.kind (l.predicate ++ q) := by
    rw [found_own h hs ht hr hq]
    exact List.mem_map.mpr ⟨x, List.mem_filter.mpr ⟨hx, hp⟩, rfl⟩
  have hne := (mem_found.mp hfound).2
  have hvalues : ∀ w ∈ (matching e s.kind (l.predicate ++ q) t ⟨x.1, (Insert.root x.2).held e⟩).map
      (·.get e (Column.ofField f)), w = x.2.own e (Column.ofField f) := by
    intro w hw
    obtain ⟨j, hj, rfl⟩ := List.mem_map.mp hw
    exact get_own hs hr hx (mem_matching.mp hj).1 hf
  rw [hc, Engine.aggregate_eq h.toLawful (h.fits_store hsuits.isOf) (mt List.map_eq_nil_iff.mp hne) hvalues]
  -- Of the values that a field can be sorted by, null alone is held as null.
  cases hv : x.2.root.value f.column with
  | null => simp [Record.own, Column.ofField, hv]
  | scalar v => simp [Record.own, Column.ofField, hv, h.isNull_scalar]
  | list items =>
    have hlist : f.type.isList := by
      cases hτ : f.type <;> rw [hv, hτ] at hsuits <;> first | rfl | exact hsuits.elim
    simp [Field.isSortable, hlist] at hsort

theorem compareFound_own {order : List OrderTerm} (ho : ∀ o ∈ order, o.IsOwn s) (hx : x ∈ rs) (hy : y ∈ rs)
    (hpx : x.2.isFound e l q) (hpy : y.2.isFound e l q) :
    compareFound e s.kind (l.predicate ++ q) t order ⟨x.1, (Insert.root x.2).held e⟩
      ⟨y.1, (Insert.root y.2).held e⟩ = Records.compareOwn e order x y := by
  induction order with
  | nil => rfl
  | cons o os ih =>
    have ⟨hfirst, hrest⟩ := List.forall_mem_cons.mp ho
    have hkey {x : Int × Record} (hx : x ∈ rs) (hp : x.2.isFound e l q) :=
      aggregate_own h hs ht hr hq hx hp hfirst
    have hx := hkey hx hpx
    have hy := hkey hy hpy
    obtain ⟨column, direction⟩ := o
    cases direction <;> simp only [compareFound, Records.compareOwn, Engine.orderIn, ih hrest, hx, hy]

-- What is listed are the records that pass, in the order of their own values.
theorem listing_own {order : List OrderTerm} (ho : ∀ o ∈ order, o.IsOwn s) :
    t.listing e s (l.predicate ++ q) order = rs.listing e s l q order := by
  have hfound {x : Int × Record} (hx : x ∈ rs.filter fun x => x.2.isFound e l q) :
      x ∈ rs ∧ x.2.isFound e l q := List.mem_filter.mp hx
  have hsorted := List.map_mergeSort (l := rs.filter fun x => x.2.isFound e l q)
    (r := fun x y => (Records.compareOwn e order x y).isLE)
    (s := fun a b => (compareFound e s.kind (l.predicate ++ q) t order a b).isLE)
    (f := fun x => ⟨x.1, (Insert.root x.2).held e⟩) fun x hx y hy => by
      have ⟨hx, hpx⟩ := hfound hx
      have ⟨hy, hpy⟩ := hfound hy
      rw [compareFound_own h hs ht hr hq ho hx hy hpx hpy]
  rw [listing, ranked, found_own h hs ht hr hq, Records.listing, ← hsorted, List.map_map]
  refine List.map_congr_left fun x hx => ?_
  have ⟨hx, hp⟩ := hfound (List.mem_mergeSort.mp hx)
  exact entryOf_own h hs ht hr hq hx (Bool.and_eq_true_iff.mp hp).2

end Tables.Keeps

section Agreement

variable {κ' : Type} {e : Engine κ} {e' : Engine κ'} {held bound : Value → Prop}

-- Engines that compare some values with others in the same way.
def Sql.Engine.Agree (e : Engine κ) (e' : Engine κ') (held bound : Value → Prop) : Prop :=
  ∀ v w, held v → bound w → e.compare? (e.store v) (e.store w) = e'.compare? (e'.store v) (e'.store w)

theorem Sql.Engine.Agree.compareWith (h : e.Agree e' held bound) {r : Record} {c : Column} {v : Scalar}
    (hr : held (r.root.value c.name)) (hv : bound (.scalar v)) (relation : Filter.Relation) :
    Condition.compareWith e (r.own e) c relation v = Condition.compareWith e' (r.own e') c relation v := by
  rw [Condition.compareWith, Condition.compareWith, Record.own, Record.own, h _ _ hr hv]

namespace Records

variable {s : Schema} {l : Language} {q : Predicate} {rs : Records} {order : List OrderTerm}

-- Records that no value tells apart are told apart by their numbers.
theorem eq_of_compareOwn {x y : Int × Record} (h : compareOwn e order x y = .eq) : x.1 = y.1 := by
  induction order with
  | nil => exact Std.LawfulEqOrd.eq_of_compare h
  | cons o os ih =>
    rw [compareOwn, Ordering.then_eq_eq] at h
    exact ih h.2

theorem compareOwn_congr {x y : Int × Record} (h : ∀ o ∈ order,
    e.orderIn o.direction (x.2.own e o.column) (y.2.own e o.column) =
      e'.orderIn o.direction (x.2.own e' o.column) (y.2.own e' o.column)) :
    compareOwn e order x y = compareOwn e' order x y := by
  induction order with
  | nil => rfl
  | cons o os ih =>
    have ⟨hfirst, hrest⟩ := List.forall_mem_cons.mp h
    rw [compareOwn, compareOwn, hfirst, ih hrest]

theorem transCmp_compareOwn {fits : FieldType → κ → Prop} (h : e.Faithful fits) (hr : rs.Sound s)
    (ho : ∀ o ∈ order, o.IsOwn s) : Std.TransCmp fun x y : { x // x ∈ rs } => compareOwn e order x.1 y.1 := by
  induction order with
  | nil =>
    have : Std.TransCmp (compareOn fun x : { x // x ∈ rs } => x.1.1) := inferInstance
    exact this
  | cons o os ih =>
    have ⟨hfirst, hrest⟩ := List.forall_mem_cons.mp ho
    obtain ⟨f, hf, -, hc⟩ := hfirst
    have hfits (x : { x // x ∈ rs }) : fits f.type (x.1.2.own e o.column) := by
      rw [hc]
      exact h.fits_store ((hr.isOf x.1 x.2).root.suits f hf).isOf
    have := ih hrest
    exact h.toLawful.transCmp_then hfits o.direction fun x y => compareOwn e os x.1 y.1

variable (hq : ∀ a ∈ q, ∀ x ∈ rs, a.truth e (x.2.own e) = a.truth e' (x.2.own e'))

include hq

theorem found_congr : (rs.filter fun x => x.2.isFound e l q) = rs.filter fun x => x.2.isFound e' l q := by
  refine List.filter_congr fun x hx => ?_
  have htruth := List.map_congr_left fun a ha => hq a ha x hx
  rw [Record.isFound, Record.isFound, Predicate.holds, Predicate.holds, Predicate.truth, Predicate.truth, htruth]

-- Where conditions are true of the same records, engines list the same entries.
theorem listing_perm : (rs.listing e s l q order).Perm (rs.listing e' s l q order) := by
  rw [listing, listing, found_congr hq]
  apply List.Perm.map
  exact (List.mergeSort_perm ..).trans (List.mergeSort_perm ..).symm

-- The entries on whose order the engines agree come in this order.
theorem filter_listing_congr {fits : FieldType → κ → Prop} {fits' : FieldType → κ' → Prop} (h : e.Faithful fits)
    (h' : e'.Faithful fits') (hr : rs.Sound s) (ho : ∀ o ∈ order, o.IsOwn s) {p : Entry → Bool}
    (hp : ∀ x ∈ rs, ∀ y ∈ rs, p ((x.2.restrict l).entry s x.1) → p ((y.2.restrict l).entry s y.1) →
      compareOwn e order x y = compareOwn e' order x y) :
    (rs.listing e s l q order).filter p = (rs.listing e' s l q order).filter p := by
  have hsub : ∀ x ∈ rs.filter fun x => x.2.isFound e' l q, x ∈ rs := fun _ hx => (List.mem_filter.mp hx).1
  have hsound : Records.Sound s (rs.filter fun x => x.2.isFound e' l q) :=
    ⟨hr.ids.sublist (List.filter_sublist.map _), fun x hx => hr.isOf x (hsub x hx)⟩
  rw [listing, listing, found_congr hq, List.filter_map, List.filter_map]
  refine congrArg (List.map _) (filter_mergeSort_congr (transCmp_compareOwn h hsound ho)
    (transCmp_compareOwn h' hsound ho) (fun x hx y hy heq => ?same) fun x hx y hy => hp x (hsub x hx) y (hsub y hy))
  case same => exact List.inj_on_of_nodup_map hr.ids (hsub x hx) (hsub y hy) (eq_of_compareOwn heq)

end Records

end Agreement

end MediaCatalog
