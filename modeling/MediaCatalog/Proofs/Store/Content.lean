import MediaCatalog.Proofs.Entry.Record
import MediaCatalog.Proofs.Search.Page
import MediaCatalog.Proofs.Sql.Dialect

namespace MediaCatalog

open Sql

-- Records in the order of their insertion, each with its number.
abbrev Records := List (Int × Record)

variable {κ : Type}

-- The tables that hold the rows of records and no others.
structure Tables.Keeps (e : Engine κ) (t : Tables κ) (rs : Records) : Prop where
  roots        : t.roots = rs.map fun x => ⟨x.1, (Insert.root x.2).held e⟩
  translations : t.translations.map (·.columns) = rs.flatMap fun x =>
    x.2.translations.map fun u => (Insert.translation x.2.kind x.1 u).held e

namespace Records

-- Records that an entry can be made of, with different numbers.
structure Sound (s : Schema) (rs : Records) : Prop where
  ids  : (rs.map (·.1)).Nodup
  isOf : ∀ x ∈ rs, x.2.IsOf s

end Records

section Columns

variable {e : Engine κ} {cs : List (String × κ)} {column : String}

-- What is held for a column; a column that was not given holds nothing.
def columnOf (e : Engine κ) (cs : List (String × κ)) (column : String) : κ :=
  (cs.lookup column).getD (e.store .null)

theorem StoredRow.get_eq_columnOf {r : StoredRow κ} (h : column ≠ "id") :
    r.get e column = columnOf e r.columns column := by
  rw [get, if_neg h, columnOf]

theorem columnOf_cons_self (v : κ) : columnOf e ((column, v) :: cs) column = v := by
  simp [columnOf]

theorem columnOf_cons_of_ne {c : String} (v : κ) (h : column ≠ c) :
    columnOf e ((c, v) :: cs) column = columnOf e cs column := by
  simp [columnOf, List.lookup_cons, beq_eq_false_iff_ne.mpr h]

theorem lookup_eq_none (h : column ∉ cs.map (·.1)) : cs.lookup column = none := by
  rw [List.lookup_eq_none_iff]
  exact fun c hc => bne_iff_ne.mpr fun heq => h (heq ▸ List.mem_map_of_mem hc)

theorem columnOf_eq_null (h : column ∉ cs.map (·.1)) : columnOf e cs column = e.store .null := by
  rw [columnOf, lookup_eq_none h, Option.getD_none]

-- A column whose value was left out because it is null reads as null.
theorem columnOf_given {cs : Columns} (hn : (cs.map (·.1)).Nodup) :
    columnOf e (cs.given.map fun (c, v) => (c, e.store v)) column = e.store (cs.value column) := by
  induction cs with
  | nil => rfl
  | cons c cs ih =>
    obtain ⟨c, v⟩ := c
    have ⟨hfresh, hn⟩ := List.nodup_cons.mp hn
    have ih := ih hn
    by_cases hc : column = c
    case pos =>
      subst hc
      rw [Columns.value_cons_self]
      cases v with
      | null =>
        refine columnOf_eq_null fun hm => hfresh ?_
        rw [List.map_map] at hm
        obtain ⟨⟨c, v⟩, hx, heq⟩ := List.mem_map.mp hm
        have hx : (c, v) ∈ Columns.given cs := hx
        have hx := (List.mem_filter.mp hx).1
        exact List.mem_map.mpr ⟨(c, v), hx, heq⟩
      | scalar | list => exact columnOf_cons_self _
    case neg =>
      rw [Columns.value_cons_of_ne v cs hc, ← ih]
      cases v with
      | null => rfl
      | scalar | list => exact columnOf_cons_of_ne _ hc

-- Of columns one behind the other, those count that have the column.
theorem columnOf_append_left {ds : List (String × κ)} (h : column ∉ ds.map (·.1)) :
    columnOf e (cs ++ ds) column = columnOf e cs column := by
  rw [columnOf, List.lookup_append, lookup_eq_none h, Option.or_none, columnOf]

theorem columnOf_append_right {ds : List (String × κ)} (h : column ∉ cs.map (·.1)) :
    columnOf e (cs ++ ds) column = columnOf e ds column := by
  rw [columnOf, List.lookup_append, lookup_eq_none h, Option.none_or, columnOf]

theorem foreignKey_ne (k : Kind) : k.foreignKey ≠ "id" ∧ k.foreignKey ≠ "language" := by
  cases k <;> decide

theorem columnOf_key (k : Kind) (id : Int) (u : LocalRecord) :
    columnOf e ((Insert.translation k id u).held e) k.foreignKey = e.store (.int id) :=
  columnOf_cons_self _

theorem columnOf_language (k : Kind) (id : Int) (u : LocalRecord) :
    columnOf e ((Insert.translation k id u).held e) "language" = e.store (.text u.language) :=
  (columnOf_cons_of_ne _ (foreignKey_ne k).2.symm).trans (columnOf_cons_self _)

theorem Columns.Suit.keys {cs : Columns} {fs : List Field} (hc : cs.Suit fs) :
    cs.map (·.1) = fs.map (·.column) := by
  conv_lhs => rw [hc.eq]
  rw [List.map_map]
  rfl

theorem Columns.Suit.nodup_keys {cs : Columns} {fs : List Field} (hc : cs.Suit fs)
    (hn : (fs.map (·.column)).Nodup) : (cs.map (·.1)).Nodup := by
  rwa [hc.keys]

section Held

variable {s : Schema} (hs : s.IsUsable) {f : Field} {r : Record} (hr : r.IsOf s)

include hs

theorem column_ne_id (hf : f ∈ s.fields) : f.column ≠ "id" :=
  (hs.sound.column_ne hf).1

include hr

-- The root row of a record holds the values of the record.
theorem columnOf_root :
    columnOf e ((Insert.root r).held e) f.column = e.store (r.root.value f.column) :=
  columnOf_given (hr.root.nodup_keys hs.nodup_root.2)

-- So does the row of a translation.
theorem columnOf_translation {id : Int} {u : LocalRecord}
    (hu : u ∈ r.translations) (hf : f ∈ s.translationFields) :
    columnOf e ((Insert.translation r.kind id u).held e) f.column = e.store (u.columns.value f.column) := by
  have hmem := (Schema.mem_translationFields.mp hf).1
  have hkey : f.column ≠ r.kind.foreignKey := by
    intro heq
    exact hs.key (List.mem_map.mpr ⟨f, hmem, heq.trans (by rw [hr.kind])⟩)
  have hlanguage := (hs.sound.column_ne hmem).2
  exact (columnOf_cons_of_ne _ hkey).trans <| (columnOf_cons_of_ne _ hlanguage).trans <|
    columnOf_given ((hr.columns u hu).nodup_keys hs.nodup_translation.2)

end Held

end Columns

-- The columns that the rows of a table can have, apart from their numbers.
def Schema.columnNames (s : Schema) : Owner → List String
  | .root        => s.rootFields.map (·.column)
  | .translation => s.kind.foreignKey :: "language" :: s.translationFields.map (·.column)

theorem Sql.Insert.names_held (e : Engine κ) (i : Insert) : (i.held e).map (·.1) = i.columns.map (·.1) := by
  rw [held, List.map_map]
  rfl

-- The columns of the translations differ where those of their fields do and none of these is the foreign key.
theorem nodup_columnNames_translation {s : Schema} (hs : s.IsSound) : (s.columnNames .translation).Nodup ↔
    (s.translationFields.map (·.column)).Nodup ∧ ∀ f ∈ s.translationFields, f.column ≠ s.kind.foreignKey := by
  have hlanguage : "language" ∉ s.translationFields.map (·.column) := fun hm =>
    have ⟨_, hf, heq⟩ := List.mem_map.mp hm
    (hs.column_ne (Schema.mem_translationFields.mp hf).1).2 heq
  have hkey := (foreignKey_ne s.kind).2
  simp only [Schema.columnNames, List.nodup_cons, List.mem_cons, List.mem_map]
  grind

section Names

variable {s : Schema} {r : Record} (hs : s.IsUsable) (hr : r.IsOf s)

-- A column that is left out is one column less.
theorem map_given_sublist (cs : Columns) : (cs.given.map (·.1)).Sublist (cs.map (·.1)) :=
  List.filter_sublist.map _

section

include hr

theorem names_root : ((Insert.root r).columns.map (·.1)).Sublist (s.columnNames .root) := by
  rw [Schema.columnNames, ← hr.root.keys]
  exact map_given_sublist _

theorem names_translation (id : Int) {u : LocalRecord} (hu : u ∈ r.translations) :
    ((Insert.translation r.kind id u).columns.map (·.1)).Sublist (s.columnNames .translation) := by
  rw [Schema.columnNames, ← hr.kind, ← (hr.columns u hu).keys]
  exact ((map_given_sublist u.columns).cons_cons "language").cons_cons _

end

include hs

theorem nodup_columnNames (o : Owner) : (s.columnNames o).Nodup := by
  cases o with
  | root => exact hs.nodup_root.2
  | translation =>
    refine (nodup_columnNames_translation hs.sound).mpr ⟨hs.nodup_translation.2, fun f hf heq => ?_⟩
    exact hs.key (heq ▸ List.mem_map_of_mem (Schema.mem_translationFields.mp hf).1)

-- No column is in both tables.
theorem column_not_mem {f : Field} (hf : f ∈ s.fields) {o : Owner} (ho : o ≠ f.owner) :
    f.column ∉ s.columnNames o := by
  have hother {g : Field} (hg : g ∈ s.fields) (hne : g.owner ≠ f.owner) : g.column ≠ f.column := by
    intro heq
    have : g = f := List.inj_on_of_nodup_map hs.columns hg hf heq
    exact hne (this ▸ rfl)
  cases o with
  | root =>
    intro hm
    obtain ⟨g, hg, heq⟩ := List.mem_map.mp hm
    have ⟨hg, hroot⟩ := Schema.mem_rootFields.mp hg
    exact hother hg (hroot ▸ ho) heq
  | translation =>
    rw [Schema.columnNames, List.mem_cons, List.mem_cons, not_or, not_or]
    refine ⟨fun heq => hs.key (heq ▸ List.mem_map_of_mem hf), fun heq => ?_, fun hm => ?_⟩
    · exact (hs.sound.column_ne hf).2 heq
    · obtain ⟨g, hg, heq⟩ := List.mem_map.mp hm
      have ⟨hg, htranslation⟩ := Schema.mem_translationFields.mp hg
      exact hother hg (htranslation ▸ ho) heq

end Names

namespace Tables.Keeps

variable {e : Engine κ} {fits : FieldType → κ → Prop} {s : Schema} {t : Tables κ} {rs : Records}
  (h : e.Faithful fits) (hs : s.IsUsable) (ht : t.Keeps e rs) (hr : rs.Sound s)

section Rows

include ht

theorem mem_roots {r : StoredRow κ} : r ∈ t.roots ↔ ∃ x ∈ rs, r = ⟨x.1, (Insert.root x.2).held e⟩ := by
  rw [ht.roots, List.mem_map]
  simp only [eq_comm]

-- A row of a translation is that of a translation of a record.
theorem exists_of_mem {u : StoredRow κ} (hu : u ∈ t.translations) :
    ∃ x ∈ rs, ∃ v ∈ x.2.translations, u.columns = (Insert.translation x.2.kind x.1 v).held e := by
  have := List.mem_map_of_mem (f := (·.columns)) hu
  rw [ht.translations] at this
  obtain ⟨x, hx, hm⟩ := List.mem_flatMap.mp this
  obtain ⟨v, hv, heq⟩ := List.mem_map.mp hm
  exact ⟨x, hx, v, hv, heq.symm⟩

theorem map_id_roots : t.roots.map (·.id) = rs.map (·.1) := by
  rw [ht.roots, List.map_map]
  rfl

end Rows

section Languages

include h ht hr

-- The translations of one record are in different languages, whatever the letter case.
theorem pairwise_language : t.translations.Pairwise fun u v =>
    u.get e s.kind.foreignKey = v.get e s.kind.foreignKey → ∀ a b,
      u.get e "language" = e.store (.text a) → v.get e "language" = e.store (.text b) →
        Text.lower a ≠ Text.lower b := by
  let Apart (cs ds : List (String × κ)) : Prop :=
    columnOf e cs s.kind.foreignKey = columnOf e ds s.kind.foreignKey → ∀ a b,
      columnOf e cs "language" = e.store (.text a) → columnOf e ds "language" = e.store (.text b) →
        Text.lower a ≠ Text.lower b
  have hkey {x : Int × Record} (hx : x ∈ rs) : x.2.kind.foreignKey = s.kind.foreignKey := by
    rw [(hr.isOf x hx).kind]
  have hpairwise : (t.translations.map (·.columns)).Pairwise Apart := by
    rw [ht.translations, List.pairwise_flatMap]
    refine ⟨fun x hx => ?_, ?_⟩
    · refine List.pairwise_map.mpr ((List.pairwise_map.mp (hr.isOf x hx).languages).imp ?_)
      intro u v hne _ a b ha hb
      rw [columnOf_language, h.store_text_inj] at ha hb
      rwa [← ha, ← hb]
    · refine (List.pairwise_map.mp hr.ids).imp_of_mem ?_
      rintro x y hx hy hne _ ha _ hb
      obtain ⟨u, _, rfl⟩ := List.mem_map.mp ha
      obtain ⟨v, _, rfl⟩ := List.mem_map.mp hb
      intro heq
      rw [← hkey hx, columnOf_key, hkey hx, ← hkey hy, columnOf_key, h.store_int_inj] at heq
      exact absurd heq hne
  refine (List.pairwise_map.mp hpairwise).imp fun huv => ?_
  simp only [StoredRow.get_eq_columnOf (foreignKey_ne s.kind).1,
    StoredRow.get_eq_columnOf (show "language" ≠ "id" by decide)]
  exact huv

end Languages

include h hs ht hr

-- Tables that are made of records keep what the schema promises.
theorem isSound : t.IsSound e fits s := by
  have hkey {x : Int × Record} (hx : x ∈ rs) : x.2.kind.foreignKey = s.kind.foreignKey := by
    rw [(hr.isOf x hx).kind]
  have hlanguage : ∀ u ∈ t.translations, ∃ language, u.get e "language" = e.store (.text language) := by
    intro u hu
    have ⟨x, hx, v, _, hcs⟩ := ht.exists_of_mem hu
    exact ⟨v.language, by rw [StoredRow.get_eq_columnOf (by decide), hcs, columnOf_language]⟩
  refine ⟨?roots, ?owned, hlanguage, ?single, ?fits⟩
  case roots => exact ht.map_id_roots ▸ hr.ids
  case owned =>
    intro u hu
    have ⟨x, hx, v, _, hcs⟩ := ht.exists_of_mem hu
    refine ⟨_, ht.mem_roots.mpr ⟨x, hx, rfl⟩, ?_⟩
    rw [StoredRow.get_eq_columnOf (foreignKey_ne s.kind).1, hcs, ← hkey hx, columnOf_key]
  case single =>
    refine (pairwise_language h ht hr).imp_of_mem fun hu _ huv heq hl => ?_
    have ⟨language, hlanguage⟩ := hlanguage _ hu
    exact huv heq language language hlanguage (hl ▸ hlanguage) rfl
  case fits =>
    intro f hf r hm
    rw [StoredRow.get_eq_columnOf (column_ne_id hs hf)]
    cases ho : f.owner with
    | root =>
      have hmem := Schema.mem_rootFields.mpr ⟨hf, ho⟩
      rw [ho] at hm
      obtain ⟨x, hx, rfl⟩ := ht.mem_roots.mp hm
      rw [columnOf_root hs (hr.isOf x hx)]
      exact h.fits_store ((hr.isOf x hx).root.suits f hmem).isOf
    | translation =>
      have hmem := Schema.mem_translationFields.mpr ⟨hf, ho⟩
      rw [ho] at hm
      have ⟨x, hx, v, hv, hcs⟩ := ht.exists_of_mem hm
      rw [hcs, columnOf_translation hs (hr.isOf x hx) hv hmem]
      exact h.fits_store (((hr.isOf x hx).columns v hv).suits f hmem).isOf

end Tables.Keeps

end MediaCatalog
