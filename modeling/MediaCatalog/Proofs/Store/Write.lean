import MediaCatalog.Proofs.Store.Content
import MediaCatalog.Store

namespace MediaCatalog

open Sql

variable {κ : Type} {e : Engine κ} {t : Tables κ}

namespace Tables

-- Tables in which every translation belongs to an entry.
def IsOwned (e : Engine κ) (k : Kind) (t : Tables κ) : Prop :=
  ∀ u ∈ t.translations, ∃ r ∈ t.roots, u.get e k.foreignKey = e.store (.int r.id)

-- The tables after the root row of a record and the first of its translations have been added.
def keep (e : Engine κ) (t : Tables κ) (r : Record) (us : List LocalRecord) : Tables κ :=
  us.foldl (fun t' u => t'.insert e (.translation r.kind (t.nextId .root) u)) (t.insert e (.root r))

section Numbers

theorem lt_nextId {o : Owner} {r : StoredRow κ} (hr : r ∈ t.rows o) : r.id < t.nextId o := by
  have hle : ∀ (ids : List Int) (m : Int), m ≤ ids.foldl max m ∧ ∀ i ∈ ids, i ≤ ids.foldl max m := by
    intro ids
    induction ids with
    | nil => simp
    | cons j js ih =>
      intro m
      have ⟨hm, hjs⟩ := ih (max m j)
      simp only [List.foldl_cons, List.forall_mem_cons]
      exact ⟨by omega, by omega, hjs⟩
  exact Int.lt_add_one_of_le ((hle _ 0).2 r.id (List.mem_map_of_mem hr))

-- Numbers that have been given out from one on go on with the next one.
theorem nextId_of_range {n : Nat} (h : t.roots.map (·.id) = (List.range n).map fun i : Nat => (i : Int) + 1) :
    t.nextId .root = n + 1 := by
  have hmax (n : Nat) : ((List.range n).map fun i : Nat => (i : Int) + 1).foldl max 0 = n := by
    induction n with
    | zero => rfl
    | succ n ih =>
      rw [List.range_succ, List.map_append, List.foldl_append, ih, List.map_singleton, List.foldl_cons,
        List.foldl_nil]
      omega
  rw [nextId]
  exact congrArg (· + 1) ((congrArg (List.foldl max 0) h).trans (hmax n))

end Numbers

section Keep

variable {r : Record}

theorem keep_concat (us : List LocalRecord) (u : LocalRecord) :
    t.keep e r (us ++ [u]) = (t.keep e r us).insert e (.translation r.kind (t.nextId .root) u) := by
  rw [keep, keep, List.foldl_append]
  rfl

theorem roots_keep (us : List LocalRecord) :
    (t.keep e r us).roots = t.roots ++ [⟨t.nextId .root, (Insert.root r).held e⟩] := by
  induction us using List.reverseRecOn with
  | nil => rfl
  | append_singleton us u ih =>
    rw [keep_concat]
    exact ih

theorem translations_keep (us : List LocalRecord) :
    ∃ rows, (t.keep e r us).translations = t.translations ++ rows ∧
      rows.map (·.columns) = us.map fun u => (Insert.translation r.kind (t.nextId .root) u).held e := by
  induction us using List.reverseRecOn with
  | nil => exact ⟨[], (List.append_nil _).symm, rfl⟩
  | append_singleton us u ih =>
    have ⟨rows, ht, hc⟩ := ih
    let row : StoredRow κ := ⟨(t.keep e r us).nextId .translation,
      (Insert.translation r.kind (t.nextId .root) u).held e⟩
    refine ⟨rows ++ [row], ?_, ?_⟩
    · rw [keep_concat, ← List.append_assoc, ← ht]
      rfl
    · rw [List.map_append, List.map_append, hc]
      rfl

-- The new entry is found under its number, whatever else is there.
theorem exists_mem_selected {fits : FieldType → κ → Prop} (h : e.Lawful fits) (hr : r.translations ≠ []) :
    ∃ j ∈ (t.keep e r r.translations).selected e r.kind [Search.among [t.nextId .root]],
      j.root.id = t.nextId .root := by
  have ⟨u, us, hu⟩ := List.exists_cons_of_ne_nil hr
  have ⟨rows, htranslations, hcolumns⟩ := translations_keep (e := e) (t := t) (r := r) r.translations
  have hheld : (Insert.translation r.kind (t.nextId .root) u).held e ∈ rows.map (·.columns) := by
    rw [hcolumns, hu]
    exact List.mem_cons_self
  obtain ⟨v, hv, hv'⟩ := List.mem_map.mp hheld
  let root : StoredRow κ := ⟨t.nextId .root, (Insert.root r).held e⟩
  have hroot : root ∈ (t.keep e r r.translations).roots := by
    rw [roots_keep]
    exact List.mem_append_right _ List.mem_cons_self
  have hkey : v.get e r.kind.foreignKey = e.store (.int (t.nextId .root)) := by
    rw [StoredRow.get_eq_columnOf (foreignKey_ne r.kind).1, hv', columnOf_key]
  have hcompare : e.compare? (v.get e r.kind.foreignKey) (e.store (.int root.id)) = some .eq := by
    rw [hkey, h.compare_int, Std.ReflOrd.compare_self]
  have hmatching : ⟨root, v⟩ ∈ matching e r.kind [] (t.keep e r r.translations) root :=
    mem_matching.mpr ⟨rfl, by rw [htranslations]; exact List.mem_append_right _ hv, hcompare, rfl⟩
  refine ⟨⟨root, v⟩, ?_, rfl⟩
  rw [← List.nil_append [Search.among _], Search.selected_among h, List.mem_filter]
  exact ⟨mem_selected.mpr ⟨root, hroot, hmatching⟩, by simp [root]⟩

-- Tables that are made of records take one more.
theorem Keeps.keep {rs : Records} (ht : t.Keeps e rs) (r : Record) :
    (t.keep e r r.translations).Keeps e (rs ++ [(t.nextId .root, r)]) where
  roots := by rw [roots_keep, ht.roots, List.map_append]; rfl
  translations := by
    have ⟨rows, heq, hc⟩ := translations_keep (e := e) (t := t) (r := r) r.translations
    rw [heq, List.map_append, ht.translations, hc, List.flatMap_append, List.flatMap_singleton]

end Keep

section Constraints

variable {fits : FieldType → κ → Prop} (h : e.Faithful fits) {k : Kind} {r : Record}
  (hr : r.IsOf (Schema.registered k))

theorem broken?_eq_none {i : Insert} : t.broken? e i = none ↔
    ∀ c ∈ Constraint.all (Schema.registered i.kind) i.owner,
      c.admits e t i.owner ⟨t.nextId i.owner, i.held e⟩ = true := by
  simp [broken?]

include h

theorem admits_byteRange {o : Owner} {row : StoredRow κ} {column : String} {v : Value}
    (hv : v.Suits .byte) (hrow : row.get e column = e.store v) :
    Constraint.admits e t o row (.byteRange column) = true := by
  rcases v with _ | (_ | n | _) | _
  case null => simp [Constraint.admits, hrow, h.isNull_null]
  case scalar.int =>
    have ⟨hlow, hhigh⟩ : -128 ≤ n ∧ n ≤ 127 := hv
    have hge : (compare n (-128)).isGE := Int.isGE_compare.mpr hlow
    have hle : (compare n 127).isLE := Int.isLE_compare.mpr hhigh
    simp [Constraint.admits, hrow, h.compare_int, hge, hle]
  all_goals exact hv.elim

theorem isSame_int {m n : Int} :
    Constraint.admits.isSame e (e.store (.int m)) (e.store (.int n)) = (m == n) := by
  rw [Constraint.admits.isSame, h.compare_int, Bool.eq_iff_iff]
  simp

theorem isSame_text {s t : String} :
    Constraint.admits.isSame e (e.store (.text s)) (e.store (.text t)) = (s == t) := by
  rw [Constraint.admits.isSame, Bool.eq_iff_iff, beq_iff_eq, beq_iff_eq, h.compare_text]

variable (hr : r.IsOf (Schema.registered k))

include hr

omit h hr in
-- What is demanded of a translation.
theorem forall_constraint_translation {p : Constraint → Prop} :
    (∀ c ∈ Constraint.all (Schema.registered k) .translation, p c) ↔
      (p (.notNull k.foreignKey) ∧ p (.notNull "language")) ∧
      ((∀ f ∈ (Schema.registered k).translationFields, f.name = Translation.nameField →
          p (.notNull f.column)) ∧
        ∀ f ∈ (Schema.registered k).translationFields, f.type = .byte → p (.byteRange f.column)) ∧
      p (.unique [k.foreignKey, "language"]) ∧ p (.reference k.foreignKey) := by
  have hrequired : ∀ f ∈ (Schema.registered k).translationFields,
      Definition.column.isRequired .sqlite f = decide (f.name = Translation.nameField) := by
    intro f hf
    simp [Definition.column.isRequired, (Schema.mem_translationFields.mp hf).2]
  have hkind : (Schema.registered k).kind = k := Schema.kind_registered k
  simp only [Constraint.all, Constraint.all.ofFields, hkind, List.filter_congr hrequired,
    List.forall_mem_append, List.forall_mem_cons, List.forall_mem_map, List.mem_filter,
    decide_eq_true_eq, and_imp, List.not_mem_nil, false_imp_iff, implies_true, and_true]
  tauto

-- The root row of a record breaks no constraint.
theorem broken?_root : t.broken? e (.root r) = none := by
  have hs := Schema.isUsable_registered k
  have hk : r.kind = k := hr.kind.trans (Schema.kind_registered k)
  rw [broken?_eq_none]
  simp only [Insert.root, hk, Constraint.all, Constraint.all.ofFields, List.forall_mem_append,
    List.forall_mem_map, List.mem_filter, decide_eq_true_eq]
  refine ⟨?_, ?_⟩
  · rintro f ⟨hf, hq⟩
    have ho := (Schema.mem_rootFields.mp hf).2
    simp [Definition.column.isRequired, ho] at hq
  · rintro f ⟨hf, hb⟩
    refine admits_byteRange h (v := r.root.value f.column) (hb ▸ hr.root.suits f hf) ?_
    rw [StoredRow.get_eq_columnOf (column_ne_id hs (Schema.mem_rootFields.mp hf).1)]
    exact columnOf_root hs hr

-- Neither does the row of a translation, when those before it have been added.
theorem broken?_translation (ht : t.IsOwned e k) {us : List LocalRecord} {u : LocalRecord}
    (hu : us ++ [u] <+: r.translations) :
    (t.keep e r us).broken? e (.translation r.kind (t.nextId .root) u) = none := by
  have hs := Schema.isUsable_registered k
  obtain rfl : r.kind = k := hr.kind.trans (Schema.kind_registered k)
  have hmem : u ∈ r.translations := hu.subset (by simp)
  have hne := foreignKey_ne r.kind
  let row : StoredRow κ := ⟨(t.keep e r us).nextId .translation,
    (Insert.translation r.kind (t.nextId .root) u).held e⟩
  have hkey : row.get e r.kind.foreignKey = e.store (.int (t.nextId .root)) := by
    rw [StoredRow.get_eq_columnOf hne.1, columnOf_key]
  have hlanguage : row.get e "language" = e.store (.text u.language) := by
    rw [StoredRow.get_eq_columnOf (by decide), columnOf_language]
  have hcolumn {f : Field} (hf : f ∈ (Schema.registered r.kind).translationFields) :
      row.get e f.column = e.store (u.columns.value f.column) := by
    rw [StoredRow.get_eq_columnOf (column_ne_id hs (Schema.mem_translationFields.mp hf).1)]
    exact columnOf_translation hs hr hmem hf
  rw [broken?_eq_none]
  refine forall_constraint_translation.mpr
    ⟨⟨?key, ?language⟩, ⟨fun f hf hn => ?named, fun f hf hb => ?byte⟩, ?unique, ?reference⟩
  case key => exact (congrArg (!e.isNull ·) hkey).trans (by rw [h.isNull_scalar]; rfl)
  case language => exact (congrArg (!e.isNull ·) hlanguage).trans (by rw [h.isNull_scalar]; rfl)
  case named =>
    have ⟨name, hv, _⟩ := hr.named u hmem f hf hn
    exact (congrArg (!e.isNull ·) (hcolumn hf)).trans (by rw [hv, h.isNull_scalar]; rfl)
  case byte => exact admits_byteRange h (hb ▸ (hr.columns u hmem).suits f hf) (hcolumn hf)
  case reference =>
    have hroot : (⟨t.nextId .root, (Insert.root r).held e⟩ : StoredRow κ) ∈ (t.keep e r us).roots := by
      rw [roots_keep]
      simp
    refine List.any_eq_true.mpr ⟨_, hroot, ?_⟩
    exact (congrArg (Constraint.admits.isSame e · _) hkey).trans (by rw [isSame_int h, beq_self_eq_true])
  case unique =>
    have ⟨added, heq, hc⟩ := translations_keep (e := e) (t := t) (r := r) us
    refine (Bool.not_eq_true' _).mpr (List.any_eq_false.mpr fun v hv => ?_)
    have hv : v ∈ (t.keep e r us).translations := hv
    rw [heq, List.mem_append] at hv
    rw [List.all_cons, List.all_cons, List.all_nil, Bool.and_true, Bool.and_eq_true, not_and]
    rcases hv with hv | hv
    -- The row belongs to an entry that was there before.
    · have ⟨o, ho, hv⟩ := ht v hv
      have hlt : o.id < t.nextId .root := lt_nextId (o := .root) ho
      intro hsame
      have hsame := (congrArg₂ (Constraint.admits.isSame e) hv hkey).symm.trans hsame
      rw [isSame_int h, beq_iff_eq] at hsame
      omega
    -- The row is another translation of the same record.
    · have hcs := List.mem_map_of_mem (f := (·.columns)) hv
      rw [hc] at hcs
      obtain ⟨u', hu', hcs⟩ := List.mem_map.mp hcs
      have hv : v.get e "language" = e.store (.text u'.language) := by
        rw [StoredRow.get_eq_columnOf (by decide), ← hcs, columnOf_language]
      intro _ hsame
      have hsame := (congrArg₂ (Constraint.admits.isSame e) hv hlanguage).symm.trans hsame
      rw [isSame_text h, beq_iff_eq] at hsame
      have hdistinct := hr.languages.sublist (hu.sublist.map _)
      rw [List.map_append, List.nodup_append] at hdistinct
      exact hdistinct.2.2 _ (List.mem_map_of_mem hu') (Text.lower u.language) (by simp) (by rw [hsame])

end Constraints

end Tables

-- Whether an engine has all values of a translation.
def LocalRecord.isTaken (e : Engine κ) (u : LocalRecord) : Bool :=
  e.takes (.text u.language) && u.columns.all fun c => e.takes c.2

-- Whether an engine has all values of a record.
def Record.isTaken (e : Engine κ) (r : Record) : Bool :=
  (r.root.all fun c => e.takes c.2) && r.translations.all (·.isTaken e)

theorem LocalRecord.isTaken_eq {u : LocalRecord} :
    u.isTaken e ↔ e.takes (.text u.language) ∧ ∀ c ∈ u.columns, e.takes c.2 := by
  simp [isTaken]

theorem Record.isTaken_eq {r : Record} :
    r.isTaken e ↔ (∀ c ∈ r.root, e.takes c.2) ∧ ∀ u ∈ r.translations, u.isTaken e := by
  simp [isTaken]

-- The order of translations makes no difference.
theorem Record.isTaken_sorted {r : Record} : r.sorted.isTaken e ↔ r.isTaken e := by
  simp [isTaken_eq, sorted]

namespace Tables

section Hindrance

variable {fits : FieldType → κ → Prop} (h : e.Faithful fits) {k : Kind} {r : Record}

include h

-- What is left out of an insertion can be bound anyway.
theorem forall_takes_given (cs : Columns) :
    (∀ c ∈ cs.given, e.takes c.2) ↔ ∀ c ∈ cs, e.takes c.2 := by
  constructor
  · intro hcs c hc
    by_cases hv : c.2 = .null
    case pos => exact hv ▸ h.takes_null
    case neg => exact hcs c (List.mem_filter.mpr ⟨hc, by simpa using hv⟩)
  · exact fun hcs c hc => hcs c (List.mem_of_mem_filter hc)

theorem takes_root : (∀ v ∈ (Insert.root r).values, e.takes v) ↔ ∀ c ∈ r.root, e.takes c.2 := by
  rw [Insert.values, List.forall_mem_map]
  exact forall_takes_given h r.root

theorem takes_translation {id : Int} {u : LocalRecord} :
    (∀ v ∈ (Insert.translation k id u).values, e.takes v) ↔ u.isTaken e := by
  rw [Insert.values, List.forall_mem_map, Insert.translation, List.forall_mem_append, forall_takes_given h,
    LocalRecord.isTaken_eq]
  simp [h.takes_int]

-- Nothing can be stored that an engine does not have.
theorem isTaken_of_hindrance?_root (hr : t.hindrance? e (.root r) = none) : ∀ c ∈ r.root, e.takes c.2 := by
  rw [hindrance?, Option.or_eq_none_iff, Option.map_eq_none_iff, Engine.excess?_eq_none] at hr
  exact (takes_root h).mp hr.1.2

theorem isTaken_of_hindrance?_translation {id : Int} {u : LocalRecord}
    (hu : t.hindrance? e (.translation k id u) = none) : u.isTaken e := by
  rw [hindrance?, Option.or_eq_none_iff, Option.map_eq_none_iff, Engine.excess?_eq_none] at hu
  exact (takes_translation h).mp hu.1.2

variable (hr : r.IsOf (Schema.registered k)) (htaken : r.isTaken e)

include hr

omit h in
theorem length_columnNames_le (o : Owner) : ((Schema.registered k).columnNames o).length ≤ 16 := by
  cases k <;> cases o <;> decide

include htaken

-- A record whose values an engine has can be stored, first its root row and then one translation after the other.
theorem hindrance?_root : t.hindrance? e (.root r) = none := by
  have hlength : (Insert.root r).values.length ≤ e.limits.values := by
    have hle := (names_root hr).length_le
    rw [List.length_map] at hle
    rw [Insert.values, List.length_map]
    exact Nat.le_trans (Nat.le_trans hle (length_columnNames_le hr .root)) h.values
  rw [hindrance?, broken?_root h hr, Engine.excess?_eq_none.mpr ⟨hlength, ?_⟩]
  · rfl
  · exact (takes_root h).mpr (Record.isTaken_eq.mp htaken).1

theorem hindrance?_translation (ht : t.IsOwned e k) {us : List LocalRecord} {u : LocalRecord}
    (hu : us ++ [u] <+: r.translations) :
    (t.keep e r us).hindrance? e (.translation r.kind (t.nextId .root) u) = none := by
  have hmem : u ∈ r.translations := hu.subset (by simp)
  have hlength : (Insert.translation r.kind (t.nextId .root) u).values.length ≤ e.limits.values := by
    have hle := (names_translation hr (t.nextId .root) hmem).length_le
    rw [List.length_map] at hle
    rw [Insert.values, List.length_map]
    exact Nat.le_trans (Nat.le_trans hle (length_columnNames_le hr .translation)) h.values
  rw [hindrance?, broken?_translation h hr ht hu, Engine.excess?_eq_none.mpr ⟨hlength, ?_⟩]
  · rfl
  · exact (takes_translation h).mpr ((Record.isTaken_eq.mp htaken).2 u hmem)

end Hindrance

end Tables

end MediaCatalog
