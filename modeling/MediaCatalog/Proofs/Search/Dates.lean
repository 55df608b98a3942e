import MediaCatalog.Proofs.Date.Order
import MediaCatalog.Proofs.Filter.Shape
import MediaCatalog.Proofs.Search.Own
import MediaCatalog.Proofs.Search.Parameters
import MediaCatalog.Proofs.Store.Write

namespace MediaCatalog

open Sql MediaCatalog.Filter Calendar

-- What a date is compared with is compared in the same way as long as years are in step, and only then.
theorem Sql.Engine.compare_dates_eq_iff {d e : Date} :
    Engine.sqlite.compare? (Engine.sqlite.store (.date d)) (Engine.sqlite.store (.date e)) =
      Engine.postgres.compare? (Engine.postgres.store (.date d)) (Engine.postgres.store (.date e)) ↔
        InStep d.year e.year := by
  rw [← Date.compare_text_eq_iff]
  exact Option.some_inj

theorem Sql.Engine.agree_dates {held bound : Date → Prop} (h : ∀ d e, held d → bound e → InStep d.year e.year) :
    Engine.sqlite.Agree Engine.postgres (fun v => v = .null ∨ ∃ d, held d ∧ v = .date d)
      fun v => ∃ d, bound d ∧ v = .date d := by
  intro v w hv hw
  obtain ⟨e, he, rfl⟩ := hw
  cases hv with
  | inl hnull => rw [hnull]; rfl
  | inr hdate =>
    obtain ⟨d, hd, rfl⟩ := hdate
    exact compare_dates_eq_iff.mpr (h d e hd he)

theorem Sql.Engine.orderIn_dates {d e : Date} (h : InStep d.year e.year) (direction : Direction) :
    Engine.sqlite.orderIn direction (Engine.sqlite.store (.date d)) (Engine.sqlite.store (.date e)) =
      Engine.postgres.orderIn direction (Engine.postgres.store (.date d)) (Engine.postgres.store (.date e)) := by
  cases direction with
  | ascending => exact Date.compare_text_eq_iff.mpr h
  | descending => exact Date.compare_text_eq_iff.mpr h.symm

-- A relation that tells how dates are ordered.
def Filter.Relation.IsOrder (r : Relation) : Prop :=
  r ∈ [.less, .lessOrEqual, .greater, .greaterOrEqual]

theorem Filter.Relation.IsOrder.holds_eq_iff {r : Relation} (hr : r.IsOrder) {o o' : Ordering}
    (ho : o = .eq ↔ o' = .eq) : r.holds o = r.holds o' ↔ o = o' := by
  simp only [IsOrder, List.mem_cons, List.not_mem_nil, or_false] at hr
  rcases hr with rfl | rfl | rfl | rfl <;> cases o <;> cases o' <;> simp_all [holds]

-- The dates that records have.
def Records.HasDate (rs : Records) (s : Schema) (d : Date) : Prop :=
  ∃ x ∈ rs, ∃ f ∈ s.rootFields, x.2.root.value f.column = .date d

namespace Search

variable {s : Search} {p : Predicate} {sort : List SortKey} {order : List OrderTerm} {rs : Records}

-- A search that compares dates of the entries themselves and sorts by them.
structure IsByDates (s : Search) (sort : List SortKey) : Prop where
  filters : ∀ x ∈ s.filter.entries, (Operator.detect x.2).1.isScalar ∧
    ∃ f, s.schema.find? x.1 = some f ∧ f.owner = .root ∧ f.type = .date
  sort    : ∀ k ∈ sort, ∃ f, s.schema.find? k.field = some f ∧ f.owner = .root ∧ f.type = .date

-- The dates that are compared are in step: those of the records with those that are asked for, and with each other
-- if the records are sorted. PostgreSQL has all values of the records and all that are asked for.
structure KeepsStep (s : Search) (p : Predicate) (sort : List SortKey) (rs : Records) : Prop where
  filters : ∀ d e, rs.HasDate s.schema d → .date e ∈ p.values .sqlite → InStep d.year e.year
  sort    : sort ≠ [] → ∀ d e, rs.HasDate s.schema d → rs.HasDate s.schema e → InStep d.year e.year
  records : ∀ x ∈ rs, x.2.isTaken Engine.postgres
  values  : ∀ v ∈ p.values .sqlite, Engine.postgres.takes v

-- Whether an entry has a date in every field that is sorted by.
def isDated (sort : List SortKey) (item : Entry) : Bool :=
  sort.all fun k => (item.attributes.get? k.field).any (!·.isNull)

-- What is read of an operand is a date.
theorem readScalar_date {token : String} {v : Scalar} (h : readScalar .date token = .ok v) : ∃ d, v = .date d := by
  obtain ⟨d, -, rfl⟩ := Option.map_eq_some_iff.mp (Except.getDM_throw_eq_ok.mp h)
  exact ⟨d, rfl⟩

-- A filter by dates compares a date with one other, or with two.
theorem exists_of_isScalar {f : Field} {raw : String} {c : Criterion} (hd : (Operator.detect raw).1.isScalar)
    (hf : f.type = .date) (hc : Criterion.ofField f raw = .ok c) :
    (∃ r d, c = .ofScalar (.compares r (.date d))) ∨ ∃ d e, c = .ofScalar (.between (.date d) (.date e)) := by
  obtain ⟨test, htest, rfl⟩ := (Criterion.ofField_scalar (by simp [hf, FieldType.isList])).mp hc
  rw [hf] at htest
  generalize Operator.detect raw = read at hd htest
  obtain ⟨o, operand⟩ := read
  cases o
  case between =>
    obtain ⟨ts, -, h⟩ := Except.bind_eq_ok.mp htest
    split at h
    case h_1 =>
      simp only [Except.bind_eq_ok, Except.pure_eq_ok] at h
      obtain ⟨low, hlow, high, hhigh, rfl⟩ := h
      obtain ⟨d, rfl⟩ := readScalar_date hlow
      obtain ⟨e, rfl⟩ := readScalar_date hhigh
      exact .inr ⟨d, e, rfl⟩
    case h_2 => exact absurd h Except.throw_ne_ok
  case greater | greaterOrEqual | less | lessOrEqual =>
    obtain ⟨v, hv, rfl⟩ := Except.map_eq_ok.mp htest
    obtain ⟨d, rfl⟩ := readScalar_date hv
    exact .inl ⟨_, d, rfl⟩
  all_goals cases hd

section Agreement

variable (hd : s.IsByDates sort) (hr : rs.Sound s.schema)

include hd in
-- What is sorted by are fields for dates of the entries themselves.
theorem own_of_order (ho : sort.mapM (OrderTerm.ofKey s.schema) = .ok order) : ∀ o ∈ order, ∃ k ∈ sort,
    ∃ f ∈ s.schema.rootFields, f.name = k.field ∧ f.type = .date ∧ f.isSortable ∧ o.column = Column.ofField f := by
  intro o hmem
  have ⟨k, hk, hkey⟩ := List.exists_of_mapM_eq_ok ho o hmem
  obtain ⟨f, hf, hsort, rfl⟩ := ofKey_eq_ok.mp hkey
  obtain ⟨g, hg, hroot, htype⟩ := hd.sort k hk
  cases hf.symm.trans hg
  have ⟨hmem, hname⟩ := Schema.mem_of_find? hf
  exact ⟨k, hk, f, Schema.mem_rootFields.mpr ⟨hmem, hroot⟩, hname, htype, hsort, rfl⟩

include hr

-- A record has a date in a field for dates, or nothing.
theorem hasDate_of_date {x : Int × Record} (hx : x ∈ rs) {f : Field} (hf : f ∈ s.schema.rootFields)
    (htype : f.type = .date) :
    x.2.root.value f.column = .null ∨ ∃ d, rs.HasDate s.schema d ∧ x.2.root.value f.column = .date d := by
  have hsuits := (hr.isOf x hx).root.suits f hf
  rw [htype] at hsuits
  cases hv : x.2.root.value f.column with
  | null => exact .inl rfl
  | scalar v =>
    rw [hv] at hsuits
    cases v with
    | date d => exact .inr ⟨d, ⟨x, hx, f, hf, hv⟩, rfl⟩
    | text | int => exact hsuits.elim
  | list =>
    rw [hv] at hsuits
    exact hsuits.elim

variable {filters : Predicate}
  (hf : s.filter.entries.mapM (fun (name, raw) => condition s.schema name raw) = .ok filters)
  (hmem : ∀ a ∈ filters, a ∈ p) (hstep : s.KeepsStep p sort rs)

include hd hf hmem hstep

-- The filters are true of the same records with either engine.
theorem agree_of_filter : ∀ a ∈ filters, a.IsOwn s.schema ∧
    ∀ x ∈ rs, a.truth Engine.sqlite (x.2.own Engine.sqlite) = a.truth Engine.postgres (x.2.own Engine.postgres) := by
  intro a ha
  have hagree := Engine.agree_dates hstep.filters
  obtain ⟨entry, hentry, hcondition⟩ := List.exists_of_mapM_eq_ok hf a ha
  obtain ⟨f, c, hfind, hc, rfl⟩ := condition_eq_ok.mp hcondition
  obtain ⟨hoperator, g, hg, hroot, htype⟩ := hd.filters entry hentry
  cases hfind.symm.trans hg
  have hown := Schema.mem_rootFields.mpr ⟨(Schema.mem_of_find? hfind).1, hroot⟩
  have hbound {d : Date} (hvalue : .date d ∈ ((c.condition f).phrase .sqlite).values) : .date d ∈ p.values .sqlite := by
    rw [values_eq_flatMap]
    exact List.mem_flatMap.mpr ⟨_, hmem _ ha, hvalue⟩
  refine ⟨⟨f, hown, c, rfl⟩, fun x hx => ?_⟩
  have hcompare {d : Date} (hd : .date d ∈ ((c.condition f).phrase .sqlite).values) (r : Relation) :=
    hagree.compareWith (c := Column.ofField f) (v := .date d) (hasDate_of_date hr hx hown htype)
      ⟨d, hbound hd, rfl⟩ r
  obtain ⟨r, d, rfl⟩ | ⟨d, e, rfl⟩ := exists_of_isScalar hoperator htype hc
  case inl => exact hcompare (d := d) List.mem_cons_self r
  case inr =>
    have hlow := hcompare (d := d) List.mem_cons_self .greaterOrEqual
    have hhigh := hcompare (d := e) (List.mem_cons_of_mem _ List.mem_cons_self) .lessOrEqual
    simp only [Criterion.condition, ScalarTest.condition, Condition.truth, hlow, hhigh]

end Agreement

section Order

variable (hs : s.schema.IsUsable) (hd : s.IsByDates sort) (ho : sort.mapM (OrderTerm.ofKey s.schema) = .ok order)
  (hr : rs.Sound s.schema)

include hs hd ho hr

-- A record whose entry shows dates in all fields that are sorted by has them in all columns that are sorted by.
theorem hasDate_of_isDated {x : Int × Record} (hx : x ∈ rs)
    (hdated : isDated sort ((x.2.restrict s.language).entry s.schema x.1)) :
    ∀ o ∈ order, ∃ d, rs.HasDate s.schema d ∧ x.2.root.value o.column.name = .date d := by
  intro o hmem
  obtain ⟨k, hk, f, hf, hname, htype, -, hc⟩ := own_of_order hd ho o hmem
  have hshown := List.all_eq_true.mp hdated k hk
  rw [← hname, Record.entry, Field.get?_shown hs.nodup_root.1 hf, Option.any_some] at hshown
  rw [hc]
  refine (hasDate_of_date hr hx hf htype).resolve_left fun hnull => ?_
  have hroot : (x.2.restrict s.language).root.value f.column = .null := hnull
  rw [hroot] at hshown
  cases hshown

-- Where dates are in step, the records of two entries that have all of them compare alike.
theorem compareOwn_of_isDated (hstep : s.KeepsStep p sort rs) {x y : Int × Record} (hx : x ∈ rs) (hy : y ∈ rs)
    (hdx : isDated sort ((x.2.restrict s.language).entry s.schema x.1))
    (hdy : isDated sort ((y.2.restrict s.language).entry s.schema y.1)) :
    Records.compareOwn Engine.sqlite order x y = Records.compareOwn Engine.postgres order x y := by
  apply Records.compareOwn_congr
  intro o hmem
  obtain ⟨k, hk, -⟩ := own_of_order hd ho o hmem
  obtain ⟨d, hdate, hvalue⟩ := hasDate_of_isDated hs hd ho hr hx hdx o hmem
  obtain ⟨e, hdate', hvalue'⟩ := hasDate_of_isDated hs hd ho hr hy hdy o hmem
  rw [Record.own, Record.own, Record.own, Record.own, hvalue, hvalue']
  exact Engine.orderIn_dates (hstep.sort (List.ne_nil_of_mem hk) d e hdate hdate') o.direction

end Order

-- Where dates are in step, a search by dates finds the same entries with either engine, and those that have all dates
-- that they are sorted by come in the same order.
theorem listing_of_keepsStep (hs : s.schema.IsUsable) (hd : s.IsByDates sort) (hp : s.predicate none = .ok p)
    (ho : sort.mapM (OrderTerm.ofKey s.schema) = .ok order) (hr : rs.Sound s.schema) (hstep : s.KeepsStep p sort rs)
    {t : Tables Engine.Cell} {t' : Tables Value} (ht : t.Keeps Engine.sqlite rs) (ht' : t'.Keeps Engine.postgres rs) :
    (t.listing Engine.sqlite s.schema p order).Perm (t'.listing Engine.postgres s.schema p order) ∧
      (t.listing Engine.sqlite s.schema p order).filter (isDated sort) =
        (t'.listing Engine.postgres s.schema p order).filter (isDated sort) := by
  obtain ⟨filters, hf, rfl⟩ := predicate_eq_ok.mp hp
  have hfilter := agree_of_filter hd hr hf (by simp +contextual) hstep
  have hq : ∀ a ∈ filters, a.IsOwn s.schema := fun a ha => (hfilter a ha).1
  have horder : ∀ o ∈ order, o.IsOwn s.schema := by
    intro o hmem
    obtain ⟨-, -, f, hmem, -, -, hsort, hc⟩ := own_of_order hd ho o hmem
    exact ⟨f, hmem, hsort, hc⟩
  rw [Option.map_none, Option.toList_none, List.append_nil,
    ht.listing_own Engine.sqlite_faithful hs hr hq horder, ht'.listing_own Engine.postgres_faithful hs hr hq horder]
  have htruth : ∀ a ∈ filters, _ := fun a ha => (hfilter a ha).2
  refine ⟨Records.listing_perm htruth, Records.filter_listing_congr htruth Engine.sqlite_faithful
    Engine.postgres_faithful hr horder fun x hx y hy hdx hdy => ?_⟩
  exact compareOwn_of_isDated hs hd ho hr hstep hx hy hdx hdy

end Search

end MediaCatalog
