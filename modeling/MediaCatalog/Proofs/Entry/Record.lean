import MediaCatalog.Proofs.Entry.Value
import MediaCatalog.Proofs.Schema
import MediaCatalog.Proofs.Store.Order

namespace MediaCatalog

-- A schema whose entries can be told apart from what tables and JSON need for themselves.
structure Schema.IsUsable (s : Schema) : Prop where
  sound   : s.IsSound
  columns : (s.fields.map (·.column)).Nodup
  key     : s.kind.foreignKey ∉ s.fields.map (·.column)
  members : ∀ f ∈ s.fields, f.name ∉ ["id", "language", "translations"]
  named   : ∃ f ∈ s.translationFields, f.name = Translation.nameField ∧ f.type = .text

theorem Schema.isUsable_registered (k : Kind) : (registered k).IsUsable where
  sound := validate_eq_ok.mp (by cases k <;> rfl)
  columns := by cases k <;> decide
  key := by cases k <;> decide
  members := by cases k <;> decide
  named := by cases k <;> decide

theorem Schema.kind_registered (k : Kind) : (registered k).kind = k := by
  cases k <;> rfl

section Columns

-- The value of a column; a column that is not there holds nothing.
def Columns.value (cs : Columns) (column : String) : Value :=
  (cs.lookup column).getD .null

-- Columns that have a value for each of some fields, and nothing else.
structure Columns.Suit (cs : Columns) (fs : List Field) : Prop where
  eq    : cs = fs.map fun f => (f.column, cs.value f.column)
  suits : ∀ f ∈ fs, (cs.value f.column).Suits f.type

theorem Columns.value_cons_self (column : String) (v : Value) (cs : Columns) :
    value ((column, v) :: cs) column = v := by
  simp [value]

theorem Columns.value_cons_of_ne {column column' : String} (v : Value) (cs : Columns)
    (h : column' ≠ column) : value ((column, v) :: cs) column' = value cs column' := by
  simp [value, List.lookup_cons, beq_eq_false_iff_ne.mpr h]

namespace Field

-- What is shown of columns under the names of the fields.
def shown (fs : List Field) (cs : Columns) : Dictionary Json :=
  .ofList (fs.map fun f => (f.name, (cs.value f.column).json))

-- Every attribute in the form in which it is shown.
def canonical (fs : List Field) (attributes : Dictionary Json) : Dictionary Json :=
  .ofList (fs.map fun f => (f.name, f.type.canonical ((attributes.get? f.name).getD .null)))

variable {fs : List Field} {attributes : Dictionary Json} {cs : Columns}

-- Where columns have different names, the value of a field is found under the name of its column.
theorem forall₂_iff_value (hn : (fs.map (·.column)).Nodup) {r : Field → Value → Prop} :
    List.Forall₂ (fun f c => c.1 = f.column ∧ r f c.2) fs cs ↔
      (cs = fs.map fun f => (f.column, cs.value f.column)) ∧ ∀ f ∈ fs, r f (cs.value f.column) := by
  constructor
  · intro h
    induction h with
    | nil => simp
    | @cons f c fs cs hc _ ih =>
      obtain ⟨column, v⟩ := c
      obtain ⟨rfl, hv⟩ := hc
      have ⟨hfresh, hn⟩ := List.nodup_cons.mp hn
      have ⟨heq, hr⟩ := ih hn
      have hself := Columns.value_cons_self f.column v cs
      have hother : ∀ g ∈ fs, Columns.value ((f.column, v) :: cs) g.column = Columns.value cs g.column :=
        fun g hg => Columns.value_cons_of_ne v cs fun h => hfresh (List.mem_map.mpr ⟨g, hg, h⟩)
      refine ⟨?_, ?_⟩
      · rw [List.map_cons, hself, List.map_congr_left fun g hg => by rw [hother g hg], ← heq]
      · rintro g hg
        cases hg with
        | head => rw [hself]; exact hv
        | tail _ hg => rw [hother g hg]; exact hr g hg
  · rintro ⟨heq, hr⟩
    rw [heq, List.forall₂_map_right_iff, List.forall₂_same]
    exact fun f hf => ⟨rfl, hr f hf⟩

theorem columns_eq_ok (hn : (fs.map (·.column)).Nodup) : columns fs attributes = .ok cs ↔
    (cs = fs.map fun f => (f.column, cs.value f.column)) ∧
      ∀ f ∈ fs, f.type.Takes ((attributes.get? f.name).getD .null) (cs.value f.column) := by
  rw [columns, List.mapM_eq_ok, ← forall₂_iff_value hn]
  simp only [Except.bind_eq_ok, value_eq_ok, Except.pure_eq_ok]
  constructor <;> refine fun h => h.imp fun f c => ?_
  · rintro ⟨v, hv, rfl⟩
    exact ⟨rfl, hv⟩
  · rintro ⟨hc, hv⟩
    exact ⟨c.2, hv, by rw [← hc]⟩

theorem suit_of_columns (hn : (fs.map (·.column)).Nodup) (h : columns fs attributes = .ok cs) :
    cs.Suit fs :=
  have ⟨heq, ht⟩ := (columns_eq_ok hn).mp h
  ⟨heq, fun f hf => (ht f hf).suits⟩

-- Every column is shown as it was given.
theorem shown_eq_canonical (hn : (fs.map (·.column)).Nodup) (h : columns fs attributes = .ok cs) :
    shown fs cs = canonical fs attributes := by
  rw [shown, canonical]
  congr 1
  refine List.map_congr_left fun f hf => ?_
  rw [(((columns_eq_ok hn).mp h).2 f hf).json_eq]

section Named

variable {α : Type} (value : Field → α)

-- What is listed for fields is found under their names, as far as these differ, and nothing else is there.
theorem get?_named (hnames : (fs.map (·.name)).Nodup) {f : Field} (hf : f ∈ fs) :
    (Dictionary.ofList (fs.map fun f => (f.name, value f))).get? f.name = some (value f) := by
  refine Dictionary.get?_ofList ?_ (List.mem_map.mpr ⟨f, hf, rfl⟩)
  simpa [Function.comp_def] using hnames

theorem mem_keys_named {name : String} :
    name ∈ (Dictionary.ofList (fs.map fun f => (f.name, value f))).keys ↔ ∃ f ∈ fs, f.name = name := by
  simp [Dictionary.mem_keys_ofList]

end Named

theorem get?_shown (hnames : (fs.map (·.name)).Nodup) {f : Field} (hf : f ∈ fs) :
    (shown fs cs).get? f.name = some (cs.value f.column).json :=
  get?_named _ hnames hf

theorem mem_keys_shown {name : String} : name ∈ (shown fs cs).keys ↔ ∃ f ∈ fs, f.name = name :=
  mem_keys_named _

-- What is shown of columns gives the same columns again.
theorem columns_shown (hnames : (fs.map (·.name)).Nodup) (hn : (fs.map (·.column)).Nodup)
    (h : cs.Suit fs) : columns fs (shown fs cs) = .ok cs := by
  refine (columns_eq_ok hn).mpr ⟨h.eq, fun f hf => ?_⟩
  rw [get?_shown hnames hf]
  exact FieldType.takes_json (h.suits f hf)

end Field

end Columns

section Drafts

variable {s : Schema} {d : Draft} {r : Record} {id : Int}

theorem Field.unknown?_eq_none {fs : List Field} {attributes : Dictionary Json} :
    unknown? fs attributes = none ↔ ∀ name ∈ attributes.keys, ∃ f ∈ fs, f.name = name := by
  simp [unknown?]

-- A translation that can be taken when translations in some languages are there already.
structure Translation.IsValid (s : Schema) (seen : List String) (t : Translation) : Prop where
  tag      : LanguageTag.isValid t.language
  language : Text.lower t.language ∉ seen
  fields   : ∀ name ∈ t.fields.keys, ∃ f ∈ s.translationFields, f.name = name
  named    : t.isNamed

theorem Translation.check_eq_ok {seen : List String} {t : Translation} :
    t.check s seen = .ok () ↔ t.IsValid s seen := by
  rw [check]
  cases ht : LanguageTag.isValid t.language
  case false =>
    have h : ¬t.IsValid s seen := fun h => by simpa [ht] using h.tag
    simpa [ht] using h
  by_cases hl : Text.lower t.language ∈ seen
  case pos =>
    have h : ¬t.IsValid s seen := fun h => h.language hl
    simpa [ht, hl] using h
  cases hf : Field.unknown? s.translationFields t.fields with
  | some name =>
    have h : ¬t.IsValid s seen := fun h => by
      have := Field.unknown?_eq_none.mpr h.fields
      simp [hf] at this
    simpa [ht, hl, hf] using h
  | none =>
    have hfields := Field.unknown?_eq_none.mp hf
    cases hn : t.isNamed
    case false =>
      have h : ¬t.IsValid s seen := fun h => by simpa [hn] using h.named
      simpa [ht, hl, hf, hn] using h
    case true => simpa [ht, hl, hf, hn] using ⟨ht, hl, hfields, hn⟩

theorem Translation.checkAll_eq_ok {seen : List String} {ts : List Translation} :
    checkAll s seen ts = .ok () ↔
      (∀ t ∈ ts, t.IsValid s seen) ∧ (ts.map fun t => Text.lower t.language).Nodup := by
  induction ts generalizing seen with
  | nil => simp [checkAll]
  | cons t ts ih =>
    have hcheck : checkAll s seen (t :: ts) = .ok () ↔
        t.check s seen = .ok () ∧ checkAll s (Text.lower t.language :: seen) ts = .ok () := by
      rw [checkAll, Except.bind_eq_ok]
      exact ⟨fun ⟨_, h⟩ => h, fun h => ⟨(), h⟩⟩
    rw [hcheck, check_eq_ok, ih, List.forall_mem_cons, List.map_cons, List.nodup_cons]
    simp only [List.mem_map, not_exists, not_and]
    constructor
    · rintro ⟨ht, hts, hn⟩
      exact ⟨⟨ht, fun u hu => { hts u hu with language := fun h => (hts u hu).language (by simp [h]) }⟩,
        fun u hu heq => (hts u hu).language (by simp [heq]), hn⟩
    · rintro ⟨⟨ht, hts⟩, hfresh, hn⟩
      refine ⟨ht, fun u hu => { hts u hu with language := ?_ }, hn⟩
      rw [List.mem_cons, not_or]
      exact ⟨hfresh u hu, (hts u hu).language⟩

namespace Draft

-- A draft that has the parts of an entry, and no others.
structure IsValid (s : Schema) (d : Draft) : Prop where
  attributes   : ∀ name ∈ d.attributes.keys, ∃ f ∈ s.rootFields, f.name = name
  translated   : d.translations ≠ []
  translations : ∀ t ∈ d.translations, t.IsValid s []
  languages    : (d.translations.map fun t => Text.lower t.language).Nodup

theorem validate_eq_ok : d.validate s = .ok () ↔ d.IsValid s := by
  rw [validate]
  cases ha : Field.unknown? s.rootFields d.attributes with
  | some name =>
    have h : ¬d.IsValid s := fun h => by
      have := Field.unknown?_eq_none.mpr h.attributes
      simp [ha] at this
    simpa [ha] using h
  | none =>
    have hattributes := Field.unknown?_eq_none.mp ha
    by_cases ht : d.translations = []
    case pos =>
      have h : ¬d.IsValid s := fun h => h.translated ht
      simpa [ha, ht] using h
    case neg =>
      simp only [List.isEmpty_iff, ht, if_false]
      refine Translation.checkAll_eq_ok.trans ⟨fun h => ⟨hattributes, ht, h.1, h.2⟩, fun h => ?_⟩
      exact ⟨h.translations, h.languages⟩

theorem prepare_eq_ok : d.prepare s = .ok r ↔ d.IsValid s ∧ r.kind = s.kind ∧
    Field.columns s.rootFields d.attributes = .ok r.root ∧
      List.Forall₂ (fun (t : Translation) u => u.language = t.language ∧
        Field.columns s.translationFields t.fields = .ok u.columns) d.translations r.translations := by
  rw [prepare]
  simp only [Except.bind_eq_ok, Except.pure_eq_ok, List.mapM_eq_ok]
  constructor
  · rintro ⟨_, hv, root, hroot, ts, hts, rfl⟩
    refine ⟨validate_eq_ok.mp hv, rfl, hroot, hts.imp ?_⟩
    rintro t _ ⟨cs, hcs, rfl⟩
    exact ⟨rfl, hcs⟩
  · rintro ⟨hv, hk, hroot, hts⟩
    refine ⟨(), validate_eq_ok.mpr hv, r.root, hroot, r.translations, hts.imp ?_, ?_⟩
    · rintro t u ⟨hl, hcs⟩
      exact ⟨u.columns, hcs, by rw [← hl]⟩
    · rw [← hk]

end Draft

section Usable

variable (hs : s.IsUsable)

include hs

-- Within a table, fields are told apart by their names and by their columns.
theorem Schema.IsUsable.nodup_root :
    (s.rootFields.map (·.name)).Nodup ∧ (s.rootFields.map (·.column)).Nodup :=
  ⟨hs.sound.names.sublist (List.filter_sublist.map _), hs.columns.sublist (List.filter_sublist.map _)⟩

theorem Schema.IsUsable.nodup_translation :
    (s.translationFields.map (·.name)).Nodup ∧ (s.translationFields.map (·.column)).Nodup :=
  ⟨hs.sound.names.sublist (List.filter_sublist.map _), hs.columns.sublist (List.filter_sublist.map _)⟩

-- The field that every translation needs holds a text.
theorem Schema.IsUsable.type_name {f : Field} (hf : f ∈ s.translationFields)
    (hn : f.name = Translation.nameField) : f.type = .text := by
  have ⟨g, hg, hname, ht⟩ := hs.named
  rw [List.inj_on_of_nodup_map hs.nodup_translation.1 hf hg (hn.trans hname.symm), ht]

end Usable

theorem Translation.isNamed_iff {t : Translation} :
    t.isNamed ↔ ∃ name, t.fields.get? nameField = some (.str name) ∧ Text.isAllBlank name = false := by
  rw [isNamed]
  split
  case h_1 name h =>
    obtain ⟨j, hj, hstr⟩ := Option.bind_eq_some_iff.mp h
    cases Json.str?_eq_some.mp hstr
    simp [hj]
  case h_2 h =>
    simp only [Bool.false_eq_true, false_iff, not_exists, not_and]
    intro name hj
    simp [hj, Json.str?] at h

namespace Record

-- A record that a draft can become.
structure IsOf (s : Schema) (r : Record) : Prop where
  kind       : r.kind = s.kind
  root       : r.root.Suit s.rootFields
  translated : r.translations ≠ []
  tags       : ∀ u ∈ r.translations, LanguageTag.isValid u.language
  languages  : (r.translations.map fun u => Text.lower u.language).Nodup
  columns    : ∀ u ∈ r.translations, u.columns.Suit s.translationFields
  named      : ∀ u ∈ r.translations, ∀ f ∈ s.translationFields, f.name = Translation.nameField →
    ∃ name, u.columns.value f.column = .text name ∧ Text.isAllBlank name = false

-- The record with its translations in the order of their languages.
def sorted (r : Record) : Record :=
  { r with translations := r.translations.mergeSort fun u v => (compare u.language v.language).isLE }

-- All that is shown of a record under a number.
def entry (s : Schema) (id : Int) (r : Record) : Entry where
  id := id
  attributes := Field.shown s.rootFields r.root
  translations := r.sorted.translations.map fun u =>
    ⟨u.language, Field.shown s.translationFields u.columns⟩

end Record

namespace Draft

-- The entry that a draft becomes under a number.
def published (s : Schema) (id : Int) (d : Draft) : Entry where
  id := id
  attributes := Field.canonical s.rootFields d.attributes
  translations :=
    (d.translations.mergeSort fun t u => (compare t.language u.language).isLE).map fun t =>
      ⟨t.language, Field.canonical s.translationFields t.fields⟩

section Prepared

variable (hs : s.IsUsable) (h : d.prepare s = .ok r)

include hs h

theorem isOf_of_prepare : r.IsOf s := by
  have ⟨hv, hk, hroot, hts⟩ := prepare_eq_ok.mp h
  have hcolumns := hs.nodup_translation.2
  have hmem : ∀ u ∈ r.translations, ∃ t ∈ d.translations, u.language = t.language ∧
      Field.columns s.translationFields t.fields = .ok u.columns := hts.exists_of_mem
  have hlanguages : d.translations.map (fun t => Text.lower t.language) =
      r.translations.map fun u => Text.lower u.language :=
    List.Forall₂.map_eq (hts.imp fun _ _ htu => by rw [htu.1])
  exact {
    kind := hk
    root := Field.suit_of_columns hs.nodup_root.2 hroot
    translated := fun hnil => hv.translated (List.forall₂_nil_right_iff.mp (hnil ▸ hts))
    tags := fun u hu => by
      have ⟨t, ht, hl, _⟩ := hmem u hu
      exact hl ▸ (hv.translations t ht).tag
    languages := hlanguages ▸ hv.languages
    columns := fun u hu => by
      have ⟨_, _, _, hcs⟩ := hmem u hu
      exact Field.suit_of_columns hcolumns hcs
    named := fun u hu f hf hn => by
      have ⟨t, ht, _, hcs⟩ := hmem u hu
      have ⟨name, hget, hblank⟩ := Translation.isNamed_iff.mp (hv.translations t ht).named
      have htakes := ((Field.columns_eq_ok hcolumns).mp hcs).2 f hf
      rw [hn, hget, hs.type_name hf hn, Option.getD_some] at htakes
      generalize u.columns.value f.column = v at htakes
      cases htakes
      exact ⟨name, rfl, hblank⟩ }

-- What is shown of a record is what the draft said.
theorem entry_eq_published : r.entry s id = d.published s id := by
  have ⟨_, _, hroot, hts⟩ := prepare_eq_ok.mp h
  have hshown : d.translations.map (fun t =>
        Translation.mk t.language (Field.canonical s.translationFields t.fields)) =
      r.translations.map fun u => ⟨u.language, Field.shown s.translationFields u.columns⟩ :=
    List.Forall₂.map_eq (hts.imp fun t u htu => by
      rw [htu.1, Field.shown_eq_canonical hs.nodup_translation.2 htu.2])
  rw [Record.entry, published, Field.shown_eq_canonical hs.nodup_root.2 hroot, Record.sorted]
  congr 1
  let noLater (t u : Translation) : Bool := (compare t.language u.language).isLE
  exact (List.map_mergeSort (s := noLater) fun _ _ _ _ => rfl).trans
    (hshown ▸ (List.map_mergeSort (s := noLater) fun _ _ _ _ => rfl).symm)

end Prepared

end Draft

-- The draft that a client makes of what it has read.
def Entry.draft (e : Entry) : Draft :=
  ⟨e.attributes, e.translations⟩

-- What is shown of a record can be sent in again and becomes the same columns.
theorem Record.IsOf.prepare_entry (hs : s.IsUsable) (h : r.IsOf s) :
    (r.entry s id).draft.prepare s = .ok r.sorted := by
  have hperm : r.sorted.translations.Perm r.translations := List.mergeSort_perm ..
  have hmem : ∀ u ∈ r.sorted.translations, u ∈ r.translations := fun u hu => hperm.mem_iff.mp hu
  have hnames := hs.nodup_translation.1
  refine Draft.prepare_eq_ok.mpr ⟨?valid, h.kind, ?root, ?translations⟩
  case valid =>
    refine ⟨fun name hname => Field.mem_keys_shown.mp hname, ?_, ?_, ?_⟩
    · rw [Entry.draft, entry, Ne, List.map_eq_nil_iff]
      exact mt (fun hnil => List.nil_perm.mp (hnil ▸ hperm)) h.translated
    · simp only [Entry.draft, entry, List.forall_mem_map]
      intro u hu
      refine ⟨h.tags u (hmem u hu), List.not_mem_nil, fun name hname => Field.mem_keys_shown.mp hname, ?_⟩
      have ⟨f, hf, hname, _⟩ := hs.named
      have ⟨name, hvalue, hblank⟩ := h.named u (hmem u hu) f hf hname
      refine Translation.isNamed_iff.mpr ⟨name, ?_, hblank⟩
      rw [← hname, Field.get?_shown hnames hf, hvalue]
      rfl
    · rw [Entry.draft, entry, List.map_map]
      exact (hperm.map _).nodup_iff.mpr h.languages
  case root => exact Field.columns_shown hs.nodup_root.1 hs.nodup_root.2 h.root
  case translations =>
    rw [Entry.draft, entry, List.forall₂_map_left_iff, List.forall₂_same]
    intro u hu
    exact ⟨rfl, Field.columns_shown hnames hs.nodup_translation.2 (h.columns u (hmem u hu))⟩

end Drafts

end MediaCatalog
