import MediaCatalog.Proofs.Schema
import MediaCatalog.Proofs.Store.Order

namespace MediaCatalog

open Sql

variable {κ : Type}

-- Whether numbers are those of the entries that rows belong to, each once.
def IsDistinct (ids : List Int) (js : List (JoinedRow κ)) : Prop :=
  ids.Nodup ∧ ∀ i, i ∈ ids ↔ ∃ j ∈ js, j.root.id = i

section

variable (e : Engine κ) (t : Tables κ)

namespace Sql

-- COUNT (DISTINCT r.id)
def Count.Answers (c : Count) (n : Int64) : Prop :=
  ∃ ids, IsDistinct ids (t.selected e c.kind c.condition) ∧ n = .ofNat ids.length

-- GROUP BY r.id leaves one row of each entry. ORDER BY puts these in order, of which OFFSET and LIMIT cut out
-- a part.
def Window.Answers (w : Window) (answer : List Int) : Prop :=
  ∃ ids, IsDistinct ids (t.selected e w.kind w.condition) ∧
    ids.Pairwise (fun a b =>
      (Tables.compareEntries e w.order (t.selected e w.kind w.condition) a b).isLE) ∧
    answer = (ids.drop w.offset.toNatClampNeg).take w.limit.toNatClampNeg

-- The columns of a row that is shown, each with its value under its name.
def Projection.outputs (p : Projection) (j : JoinedRow κ) : List (String × κ) :=
  p.columns.map fun c => (c.name, j.get e c)

end Sql

-- Whether no other column that is shown has the name of a column.
def Sql.Projection.Tells (p : Projection) (c : Column) : Prop :=
  ∀ a ∈ p.columns, a.name = c.name → a = c

-- A row that is read from named values.
def Row.ofOutputs (s : Schema) (outputs : List (String × κ)) : Row :=
  let value (column : String) := (outputs.lookup column).getD (e.store .null)
  let shown (fields : List Field) : Dictionary Json :=
    .ofList (fields.map fun f => (f.name, e.load f.type (value f.column)))
  { id := ((e.load .integer (value "id")).int?).getD 0
    attributes := shown s.rootFields
    language := ((e.load .text (value "language")).str?).getD ""
    translation := shown s.translationFields }

namespace JoinedRow

-- ORDER BY r.id ASC, t.language ASC
def compareShown (a b : JoinedRow κ) : Ordering :=
  (compare a.root.id b.root.id).then (e.order (a.get e Column.language) (b.get e Column.language))

end JoinedRow

def Sql.Projection.Answers (p : Projection) (rows : List Row) : Prop :=
  ∃ js : List (JoinedRow κ), js.Perm (t.selected e p.schema.kind p.condition) ∧
    js.Pairwise (fun a b => (JoinedRow.compareShown e a b).isLE) ∧
      rows = js.map fun j => .ofOutputs e p.schema (p.outputs e j)

end

section Reading

variable {e : Engine κ} {fits : FieldType → κ → Prop} (h : e.Lawful fits) {p : Projection}

-- A value is found under its name if no other value has that name.
theorem lookup_map_name {cs : List Column} (v : Column → κ) {c : Column} (hc : c ∈ cs)
    (hn : ∀ a ∈ cs, a.name = c.name → a = c) :
    (cs.map fun c => (c.name, v c)).lookup c.name = some (v c) := by
  induction cs with
  | nil => cases hc
  | cons a as ih =>
    by_cases ha : a.name = c.name
    case pos =>
      obtain rfl := hn a List.mem_cons_self ha
      simp
    case neg =>
      have hc : c ∈ as := (List.mem_cons.mp hc).resolve_left fun heq => ha (by rw [heq])
      have ih := ih hc fun a h => hn a (List.mem_cons_of_mem _ h)
      simp [List.lookup_cons, beq_eq_false_iff_ne.mpr (Ne.symm ha), ih]

theorem fields_perm (s : Schema) : (s.rootFields ++ s.translationFields).Perm s.fields := by
  have ht : s.translationFields = s.fields.filter fun f => !decide (f.owner = .root) := by
    apply List.filter_congr
    intro f _
    cases f.owner <;> rfl
  rw [ht]
  exact List.filter_append_perm ..

-- The columns of a projection have different names if and only if those of the schema have.
theorem nodup_columns (hs : p.schema.IsSound) :
    (p.columns.map (·.name)).Nodup ↔ (p.schema.fields.map (·.column)).Nodup := by
  have hnames : (p.columns.map (·.name)).Perm ("id" :: "language" :: p.schema.fields.map (·.column)) := by
    have hfields := (fields_perm p.schema).map (·.column)
    simp only [Projection.columns, List.map_append, List.map_cons, List.map_map,
      Function.comp_def, Column.id, Column.language, Column.ofField] at hfields ⊢
    exact (List.perm_middle.trans (hfields.cons _)).cons _ |>.trans (.swap ..) |>.trans (.swap ..)
  have hid : "id" ∉ p.schema.fields.map (·.column) := fun hm =>
    have ⟨_, hf, heq⟩ := List.mem_map.mp hm
    (hs.column_ne hf).1 heq
  have hlanguage : "language" ∉ p.schema.fields.map (·.column) := fun hm =>
    have ⟨_, hf, heq⟩ := List.mem_map.mp hm
    (hs.column_ne hf).2 heq
  rw [hnames.nodup_iff]
  simp only [List.nodup_cons, List.mem_cons, not_or]
  exact ⟨fun h => h.2.2, fun hc => ⟨⟨by decide, hid⟩, hlanguage, hc⟩⟩

theorem tells_of_nodup (hs : p.schema.IsSound) (hc : (p.schema.fields.map (·.column)).Nodup) :
    ∀ c ∈ p.columns, p.Tells c :=
  fun _ hc' _ ha => List.inj_on_of_nodup_map ((nodup_columns hs).mpr hc) ha hc'

theorem mem_columns {c : Column} : c ∈ p.columns ↔
    c = Column.id ∨ c = Column.language ∨ ∃ f ∈ p.schema.fields, c = Column.ofField f := by
  have hfields (f : Field) : f ∈ p.schema.fields ↔ f ∈ p.schema.rootFields ∨ f ∈ p.schema.translationFields := by
    rw [← (fields_perm p.schema).mem_iff, List.mem_append]
  simp only [Projection.columns, List.mem_cons, List.mem_append, List.mem_map, hfields]
  grind

include h

-- Reading a row by the names of its columns gives every field its own value.
theorem ofOutputs_eq (ht : ∀ c ∈ p.columns, p.Tells c) (j : JoinedRow κ) :
    Row.ofOutputs e p.schema (p.outputs e j) = j.row e p.schema := by
  have hlookup {c : Column} (hc : c ∈ p.columns) : (p.outputs e j).lookup c.name = some (j.get e c) :=
    lookup_map_name (j.get e) hc (ht c hc)
  have hid : (p.outputs e j).lookup "id" = some (j.get e Column.id) := hlookup (mem_columns.mpr (.inl rfl))
  have hl : (p.outputs e j).lookup "language" = some (j.get e Column.language) :=
    hlookup (mem_columns.mpr (.inr (.inl rfl)))
  have hload : e.load .integer (j.get e Column.id) = .int j.root.id := h.load_int j.root.id
  have hfield {f : Field} (hf : f ∈ p.schema.fields) :
      (p.outputs e j).lookup f.column = some (j.get e (Column.ofField f)) :=
    hlookup (mem_columns.mpr (.inr (.inr ⟨f, hf, rfl⟩)))
  have hroot : ∀ f ∈ p.schema.rootFields,
      (p.outputs e j).lookup f.column = some (j.root.get e f.column) := by
    intro f hf
    obtain ⟨hf, ho⟩ := Schema.mem_rootFields.mp hf
    rw [hfield hf, JoinedRow.get, Column.ofField, ho]
  have htranslation : ∀ f ∈ p.schema.translationFields,
      (p.outputs e j).lookup f.column = some (j.translation.get e f.column) := by
    intro f hf
    obtain ⟨hf, ho⟩ := Schema.mem_translationFields.mp hf
    rw [hfield hf, JoinedRow.get, Column.ofField, ho]
  have hshown {fields : List Field} {r : StoredRow κ}
      (hr : ∀ f ∈ fields, (p.outputs e j).lookup f.column = some (r.get e f.column)) :
      (fields.map fun f =>
        (f.name, e.load f.type (((p.outputs e j).lookup f.column).getD (e.store .null)))) =
      fields.map fun f => (f.name, e.load f.type (r.get e f.column)) :=
    List.map_congr_left fun f hf => by rw [hr f hf, Option.getD_some]
  simp only [Row.ofOutputs, hshown hroot, hshown htranslation, hid, hl, Option.getD_some, hload]
  rfl

end Reading

section Tables

variable {e : Engine κ} {fits : FieldType → κ → Prop} (h : e.Lawful fits) {t : Tables κ}

theorem nodup_eraseDups (ids : List Int) : ids.eraseDups.Nodup :=
  match ids with
  | []      => by simp
  | i :: is => by
    rw [List.eraseDups_cons, List.nodup_cons]
    exact ⟨by simp, nodup_eraseDups (is.filter fun j => !j == i)⟩
termination_by ids.length
decreasing_by simpa using Nat.lt_succ_of_le (List.length_filter_le ..)

theorem eraseDups_of_nodup {ids : List Int} (hn : ids.Nodup) : ids.eraseDups = ids := by
  induction ids with
  | nil => rfl
  | cons i is ih =>
    have ⟨hfresh, hn⟩ := List.nodup_cons.mp hn
    have hf : is.filter (fun j => !j == i) = is := by
      rw [List.filter_eq_self]
      intro j hj
      have : j ≠ i := fun heq => hfresh (heq ▸ hj)
      simpa using this
    rw [List.eraseDups_cons, hf, ih hn]

theorem isDistinct_ids (js : List (JoinedRow κ)) : IsDistinct (Tables.ids js) js :=
  ⟨nodup_eraseDups _, fun i => by simp [Tables.ids]⟩

theorem IsDistinct.of_perm {ids ids' : List Int} {js : List (JoinedRow κ)} (hd : IsDistinct ids js)
    (hp : ids'.Perm ids) : IsDistinct ids' js :=
  ⟨hp.nodup_iff.mpr hd.1, fun i => by rw [hp.mem_iff, hd.2]⟩

theorem IsDistinct.perm {ids ids' : List Int} {js : List (JoinedRow κ)} (hd : IsDistinct ids js)
    (hd' : IsDistinct ids' js) : ids.Perm ids' :=
  (List.perm_ext_iff_of_nodup hd.1 hd'.1).mpr fun i => by rw [hd.2, hd'.2]

-- The tables in memory answer as a database may.
theorem Tables.count_answers (c : Count) : c.Answers e t (.ofNat (t.count e c)) :=
  ⟨_, isDistinct_ids _, rfl⟩

include h

theorem Tables.window_answers (w : Window)
    (ho : ∀ o ∈ w.order, ∃ τ, ∀ j ∈ t.selected e w.kind w.condition, fits τ (j.get e o.column)) :
    w.Answers e t (t.window e w) := by
  have := transCmp_compareEntries h ho
  refine ⟨_, (isDistinct_ids _).of_perm (List.mergeSort_perm ..), pairwise_mergeSort_cmp _, rfl⟩

theorem Tables.projection_answers {p : Projection} (hs : p.schema.IsSound)
    (hc : (p.schema.fields.map (·.column)).Nodup)
    (hl : ∀ j ∈ t.selected e p.schema.kind p.condition, fits .text (j.get e Column.language)) :
    p.Answers e t (t.projection e p) := by
  refine ⟨_, List.mergeSort_perm .., pairwise_mergeSort_mem (JoinedRow.compareShown e) ?_,
    List.map_congr_left fun j _ => (ofOutputs_eq h (tells_of_nodup hs hc) j).symm⟩
  have hlanguage : Std.TransCmp fun a b : { x // x ∈ t.selected e p.schema.kind p.condition } =>
      e.order (a.1.get e Column.language) (b.1.get e Column.language) :=
    h.transCmp fun a => hl a.1 a.2
  exact inferInstanceAs (Std.TransCmp <|
    compareLex (compareOn fun a : { x // x ∈ t.selected e p.schema.kind p.condition } => a.1.root.id)
      fun a b => e.order (a.1.get e Column.language) (b.1.get e Column.language))

end Tables

end MediaCatalog
