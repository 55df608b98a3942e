import MediaCatalog.Proofs.Entry.Acceptance
import MediaCatalog.Proofs.Search.Statement
import MediaCatalog.Proofs.Sql.Dialect
import MediaCatalog.Proofs.Sql.Insert
import MediaCatalog.Proofs.Store.Answer
import MediaCatalog.Proofs.Store.Content

namespace MediaCatalog

open Sql

-- A value of a type other than null.
def FieldType.sample : FieldType → Json
  | text     => .str ""
  | integer  => .int 0
  | byte     => .int 0
  | date     => .str "1970-01-01"
  | textList => .arr []

theorem FieldType.admits_sample (τ : FieldType) : τ.Admits τ.sample := by
  cases τ with
  | text => exact .text ""
  | integer => exact .integer (by decide)
  | byte => exact .byte (by decide)
  | date => exact .date (by decide +kernel)
  | textList => exact .textList (List.forall_mem_nil _)

theorem FieldType.Admits.ne_null {τ : FieldType} {j : Json} (h : τ.Admits j) : j ≠ .null := by
  cases h <;> simp

namespace Field

-- What attributes give to a field, or a value of its type where that is nothing.
def fill (attributes : Dictionary Json) (f : Field) : Json :=
  match attributes.get? f.name with
  | none | some .null => f.type.sample
  | some j            => j

def filled (fs : List Field) (attributes : Dictionary Json) : Dictionary Json :=
  .ofList (fs.map fun f => (f.name, f.fill attributes))

section Filled

variable {fs : List Field} {attributes : Dictionary Json} {cs : Columns}

theorem names_of_columns (h : columns fs attributes = .ok cs) : cs.map (·.1) = fs.map (·.column) :=
  (List.Forall₂.map_eq ((columns_eq_ok_iff_isGiven.mp h).imp fun _ _ hc => hc.column.symm)).symm

-- A column that is given nothing is left out.
theorem names_given_sublist (h : columns fs attributes = .ok cs) :
    (cs.given.map (·.1)).Sublist (fs.map (·.column)) :=
  names_of_columns h ▸ map_given_sublist cs

theorem admits_fill {f : Field}
    (h : ∀ j, attributes.get? f.name = some j → j = .null ∨ f.type.Admits j) : f.type.Admits (f.fill attributes) := by
  unfold fill
  split
  case h_1 => exact f.type.admits_sample
  case h_2 => exact f.type.admits_sample
  case h_3 j hj hget => exact (h j hget).resolve_left hj

theorem mem_keys_filled {name : String} : name ∈ (filled fs attributes).keys ↔ ∃ f ∈ fs, f.name = name :=
  mem_keys_named _

variable (hn : (fs.map (·.name)).Nodup)

include hn

theorem get?_filled {f : Field} (hf : f ∈ fs) : (filled fs attributes).get? f.name = some (f.fill attributes) :=
  get?_named _ hn hf

variable (h : ∃ cs, columns fs attributes = .ok cs)

include h

theorem exists_columns_filled : ∃ cs, columns fs (filled fs attributes) = .ok cs := by
  refine exists_columns.mpr fun f hf j hj => ?_
  rw [get?_filled hn hf] at hj
  exact .inr (Option.some.inj hj ▸ admits_fill (exists_columns.mp h f hf))

-- No column of the fields is left out.
theorem names_given_filled (hc : columns fs (filled fs attributes) = .ok cs) :
    cs.given.map (·.1) = fs.map (·.column) := by
  have hgiven := columns_eq_ok_iff_isGiven.mp hc
  have hall : cs.given = cs := by
    rw [Columns.given, List.filter_eq_self]
    intro c hmem
    obtain ⟨f, hf, hfc⟩ := hgiven.exists_of_mem c hmem
    have hne : f.fill attributes ≠ .null := (admits_fill (exists_columns.mp h f hf)).ne_null
    simpa [hfc.null, get?_filled hn hf] using hne
  rw [hall, names_of_columns hc]

end Filled

end Field

-- A draft that gives something to every field.
def Draft.filled (s : Schema) (d : Draft) : Draft where
  attributes := Field.filled s.rootFields d.attributes
  translations := d.translations.map fun t => ⟨t.language, Field.filled s.translationFields t.fields⟩

-- The rows that are inserted for entries of a schema.
inductive Schema.Stores (s : Schema) : Insert → Prop
  | root {d : Draft} {r : Record} (h : d.prepare s = .ok r) : Stores s (.root r)
  | translation {d : Draft} {r : Record} {u : LocalRecord} (h : d.prepare s = .ok r) (hu : u ∈ r.translations)
    (id : Int) : Stores s (.translation r.kind id u)

section

variable {s : Schema} {d : Draft} {r : Record}

theorem Translation.IsValid.filled (hs : s.IsSound) {seen : List String} {t : Translation} (h : t.IsValid s seen) :
    Translation.IsValid s seen ⟨t.language, Field.filled s.translationFields t.fields⟩ := by
  refine ⟨h.tag, h.language, fun name hname => Field.mem_keys_filled.mp hname, ?_⟩
  obtain ⟨name, hname, hblank⟩ := isNamed_iff.mp h.named
  obtain ⟨f, hf, hfname⟩ := h.fields nameField (Dictionary.mem_keys.mpr (by simp [hname]))
  have hfill : f.fill t.fields = .str name := by
    rw [Field.fill, hfname, hname]
  exact isNamed_iff.mpr ⟨name, by rw [← hfname, Field.get?_filled hs.nodup_names.2 hf, hfill], hblank⟩

theorem Draft.exists_prepare_filled (hs : s.IsSound) (h : d.prepare s = .ok r) :
    ∃ r, (d.filled s).prepare s = .ok r := by
  obtain ⟨hv, hroot, hts⟩ := exists_prepare.mp ⟨r, h⟩
  refine exists_prepare.mpr ⟨⟨fun name hname => Field.mem_keys_filled.mp hname, ?_, ?_, ?_⟩, ?_, ?_⟩
  · exact mt List.map_eq_nil_iff.mp hv.translated
  · exact List.forall_mem_map.mpr fun t ht => (hv.translations t ht).filled hs
  · rw [filled, List.map_map]
    exact hv.languages
  · exact Field.exists_columns_filled hs.nodup_names.1 hroot
  · exact List.forall_mem_map.mpr fun t ht => Field.exists_columns_filled hs.nodup_names.2 (hts t ht)

-- The columns of a row are those of its table without the ones that are left out.
theorem Schema.Stores.names_sublist {i : Insert} (h : s.Stores i) :
    (i.columns.map (·.1)).Sublist (s.columnNames i.owner) := by
  cases h with
  | @root d r h =>
    obtain ⟨_, _, hroot, _⟩ := Draft.prepare_eq_ok.mp h
    exact Field.names_given_sublist hroot
  | @translation d r u h hu id =>
    obtain ⟨_, hk, _, hts⟩ := Draft.prepare_eq_ok.mp h
    obtain ⟨t, _, _, hcs⟩ := hts.exists_of_mem u hu
    rw [Insert.translation, hk]
    exact ((Field.names_given_sublist hcs).cons_cons "language").cons_cons s.kind.foreignKey

-- Where a draft can be prepared at all, there is a row of each table in which nothing is left out.
theorem Schema.IsSound.exists_stores (hs : s.IsSound) (h : d.prepare s = .ok r) (o : Owner) :
    ∃ i, s.Stores i ∧ i.owner = o ∧ i.columns.map (·.1) = s.columnNames o := by
  obtain ⟨_, hroot, hcolumns⟩ := Draft.exists_prepare.mp ⟨r, h⟩
  obtain ⟨r', h'⟩ := Draft.exists_prepare_filled hs h
  obtain ⟨hv, hk, hroot', hts⟩ := Draft.prepare_eq_ok.mp h'
  cases o with
  | root => exact ⟨_, .root h', rfl, Field.names_given_filled hs.nodup_names.1 hroot hroot'⟩
  | translation =>
    have hne : r'.translations ≠ [] := fun hnil => hv.translated (List.forall₂_nil_right_iff.mp (hnil ▸ hts))
    obtain ⟨u, hu⟩ := List.exists_mem_of_ne_nil _ hne
    obtain ⟨_, hfilled, _, hcs⟩ := hts.exists_of_mem u hu
    obtain ⟨t, ht, rfl⟩ := List.mem_map.mp hfilled
    have hnames := Field.names_given_filled hs.nodup_names.2 (hcolumns t ht) hcs
    refine ⟨_, .translation h' hu 1, rfl, ?_⟩
    rw [Insert.translation, hk, List.map_append, hnames]
    rfl

section Projections

variable {p : Projection} {c : Column}

theorem name_of_root (hc : c ∈ p.columns) (ho : c.owner = .root) :
    c.name = "id" ∨ ∃ f ∈ p.schema.rootFields, f.column = c.name := by
  rcases mem_columns.mp hc with rfl | rfl | ⟨f, hf, rfl⟩
  · exact .inl rfl
  · cases ho
  · exact .inr ⟨f, Schema.mem_rootFields.mpr ⟨hf, ho⟩, rfl⟩

theorem name_of_translation (hc : c ∈ p.columns) (ho : c.owner = .translation) :
    c.name = "language" ∨ ∃ f ∈ p.schema.translationFields, f.column = c.name := by
  rcases mem_columns.mp hc with rfl | rfl | ⟨f, hf, rfl⟩
  · cases ho
  · exact .inl rfl
  · exact .inr ⟨f, Schema.mem_translationFields.mpr ⟨hf, ho⟩, rfl⟩

-- Columns that are shown are told by their names unless both tables have a column of one name.
theorem tells_iff (hs : p.schema.IsSound) : (∀ c ∈ p.columns, p.Tells c) ↔
    ∀ f ∈ p.schema.rootFields, ∀ g ∈ p.schema.translationFields, f.column ≠ g.column := by
  constructor
  · intro h f hf g hg heq
    obtain ⟨hf, hroot⟩ := Schema.mem_rootFields.mp hf
    obtain ⟨hg, htranslation⟩ := Schema.mem_translationFields.mp hg
    have hshown {f : Field} (hf : f ∈ p.schema.fields) : Column.ofField f ∈ p.columns :=
      mem_columns.mpr (.inr (.inr ⟨f, hf, rfl⟩))
    have hsame : g.owner = f.owner := congrArg Column.owner (h _ (hshown hf) _ (hshown hg) heq.symm)
    rw [hroot, htranslation] at hsame
    cases hsame
  · intro h
    have hapart {a b : Column} (ha : a ∈ p.columns) (hb : b ∈ p.columns) (hroot : a.owner = .root)
        (htranslation : b.owner = .translation) : a.name ≠ b.name := by
      rcases name_of_root ha hroot with hid | ⟨f, hf, hname⟩ <;>
        rcases name_of_translation hb htranslation with hlanguage | ⟨g, hg, hname'⟩
      · rw [hid, hlanguage]
        decide
      · rw [hid, ← hname']
        exact (hs.column_ne (Schema.mem_translationFields.mp hg).1).1.symm
      · rw [← hname, hlanguage]
        exact (hs.column_ne (Schema.mem_rootFields.mp hf).1).2
      · rw [← hname, ← hname']
        exact h f hf g hg
    intro c hc a ha heq
    have howner : a.owner = c.owner := by
      cases hao : a.owner <;> cases hco : c.owner
      · rfl
      · exact absurd heq (hapart ha hc hao hco)
      · exact absurd heq.symm (hapart hc ha hco hao)
      · rfl
    cases a
    cases c
    cases howner
    cases heq
    rfl

end Projections

-- As far as there are rows at all, they are inserted into different columns if those of their table are different.
theorem nodup_stores_iff (hs : s.IsSound) (h : d.prepare s = .ok r) (o : Owner) :
    (∀ i, s.Stores i → i.owner = o → (i.columns.map (·.1)).Nodup) ↔ (s.columnNames o).Nodup := by
  constructor
  · intro hstores
    obtain ⟨i, hi, ho, hnames⟩ := hs.exists_stores h o
    exact hnames ▸ hstores i hi ho
  · rintro hn i hi rfl
    exact hn.sublist hi.names_sublist

-- The names of the columns that are shown are all different if and only if no two fields have the same column. Every
-- one of them is read as what it is if and only if no field of the entries has the column of a field of the
-- translations. Nothing is inserted into a column twice if and only if no two fields of one table have the same
-- column and no field of the translations has that of the foreign key, unless no draft at all can be prepared.
theorem Schema.columns_apart_iff (hs : s.validate = .ok ()) :
    (∀ (q : Search) (ids : List Int) (p : Projection), q.schema = s → q.projection ids = .ok p →
      ((p.columns.map (·.name)).Nodup ↔ (s.fields.map (·.column)).Nodup) ∧
      ((∀ c ∈ p.columns, p.Tells c) ↔ ∀ f ∈ s.rootFields, ∀ g ∈ s.translationFields, f.column ≠ g.column) ∧
      ((∀ c ∈ p.columns, p.Tells c) → ∀ (d : Dialect) (j : JoinedRow d.Held),
        Row.ofOutputs d.engine s (p.outputs d.engine j) = j.row d.engine s)) ∧
    ((∃ d r, Draft.prepare s d = .ok r) →
      ((∀ i, s.Stores i → i.owner = .root → (i.columns.map (·.1)).Nodup) ↔ (s.rootFields.map (·.column)).Nodup) ∧
      ((∀ i, s.Stores i → i.owner = .translation → (i.columns.map (·.1)).Nodup) ↔
        (s.translationFields.map (·.column)).Nodup ∧ ∀ f ∈ s.translationFields, f.column ≠ s.kind.foreignKey)) := by
  have hs := validate_eq_ok.mp hs
  constructor
  · rintro q ids p rfl hp
    obtain ⟨_, _, rfl⟩ := Search.projection_eq_ok.mp hp
    exact ⟨nodup_columns hs, tells_iff hs, fun ht d j => ofOutputs_eq d.faithful_engine.toLawful ht j⟩
  · rintro ⟨d, r, h⟩
    exact ⟨nodup_stores_iff hs h .root, (nodup_stores_iff hs h .translation).trans (nodup_columnNames_translation hs)⟩

-- The columns of films are all different.
theorem Schema.columns_apart_iff_movie :
    let p : Projection := ⟨.movie, [.isIn Column.id [.int 1]]⟩
    Schema.movie.validate = .ok () ∧ (Search.mk .movie ∅ .any).projection [1] = .ok p ∧
    (p.columns.map (·.name)).Nodup ∧
    (∀ (d : Dialect) (j : JoinedRow d.Held),
      Row.ofOutputs d.engine .movie (p.outputs d.engine j) = j.row d.engine .movie) ∧
    ∀ i, Schema.movie.Stores i → (i.columns.map (·.1)).Nodup := by
  intro p
  let film : Draft := ⟨∅, [⟨"en", .ofList [("name", .str "Up")]⟩]⟩
  have hs : Schema.movie.validate = .ok () := by decide
  obtain ⟨r, hr⟩ := Option.isSome_iff_exists.mp (show (film.prepare .movie).toOption.isSome by decide +kernel)
  obtain ⟨hprojection, hinsertion⟩ := Schema.columns_apart_iff hs
  obtain ⟨hnames, htells, hread⟩ := hprojection ⟨.movie, ∅, .any⟩ [1] p rfl rfl
  obtain ⟨hroot, htranslation⟩ := hinsertion ⟨film, r, Except.toOption_eq_some.mp hr⟩
  refine ⟨hs, rfl, hnames.mpr (by decide), hread (htells.mpr (by decide)), fun i hi => ?_⟩
  cases ho : i.owner with
  | root => exact hroot.mpr (by decide) i hi ho
  | translation => exact htranslation.mpr (by decide) i hi ho

-- A title and a translated title in columns of one name, and a field in the column of the foreign key.
theorem Schema.columns_clash :
    let titled : Schema := ⟨.movie, [⟨"name", .text, .translation, "title"⟩, ⟨"title", .text, .root, "title"⟩]⟩
    let keyed : Schema :=
      ⟨.movie, [⟨"name", .text, .translation, "name"⟩, ⟨"number", .integer, .translation, "movie_id"⟩]⟩
    titled.validate = .ok () ∧
    ((Search.mk titled ∅ .any).projection [1]).toOption.map (·.columns.map (·.name)) =
      some ["id", "title", "language", "title"] ∧
    keyed.validate = .ok () ∧
    ∃ i, keyed.Stores i ∧ i.columns.map (·.1) = ["movie_id", "language", "name", "movie_id"] := by
  intro titled keyed
  let film : Draft := ⟨∅, [⟨"en", .ofList [("name", .str "Up"), ("number", .int 7)]⟩]⟩
  let u : LocalRecord := ⟨"en", [("name", .text "Up"), ("movie_id", .int 7)]⟩
  have hfilm : (film.prepare keyed).toOption = some ⟨.movie, [], [u]⟩ := by decide +kernel
  have hstores := Schema.Stores.translation (Except.toOption_eq_some.mp hfilm) List.mem_cons_self 1
  exact ⟨by decide, by decide, by decide, _, hstores, rfl⟩

end

end MediaCatalog
