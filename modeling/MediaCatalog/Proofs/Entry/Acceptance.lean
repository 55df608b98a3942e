import MediaCatalog.Creation
import MediaCatalog.Proofs.Entry.Record
import MediaCatalog.Proofs.Language
import MediaCatalog.Proofs.Text.LowerCase
import Mathlib.Data.Set.List

namespace MediaCatalog

-- What may be given to a field of a type besides null.
inductive FieldType.Admits : FieldType → Json → Prop
  | text (s : String) : Admits .text (.str s)
  | integer {n : Int} (h : Int64.minValue.toInt ≤ n ∧ n ≤ Int64.maxValue.toInt) : Admits .integer (.int n)
  | byte {n : Int} (h : -128 ≤ n ∧ n ≤ 127) : Admits .byte (.int n)
  | date {s : String} (h : (Date.read? s).isSome) : Admits .date (.str s)
  | textList {items : List Json} (h : ∀ j ∈ items, ∃ s, j = .str s) : Admits .textList (.arr items)

namespace FieldType

variable {τ : FieldType} {j : Json} {v : Value}

theorem exists_takes : (∃ v, τ.Takes j v) ↔ j = .null ∨ τ.Admits j := by
  constructor
  · rintro ⟨v, h⟩
    cases h with
    | null => exact .inl rfl
    | text s => exact .inr (.text s)
    | integer h => exact .inr (.integer h)
    | byte h => exact .inr (.byte h)
    | date h => exact .inr (.date (Option.isSome_of_eq_some h))
    | textList l =>
      refine .inr (.textList fun j hj => ?_)
      obtain ⟨s, _, rfl⟩ := List.mem_map.mp hj
      exact ⟨s, rfl⟩
  · rintro (rfl | h)
    · exact ⟨_, .null τ⟩
    · cases h with
      | text s => exact ⟨_, .text s⟩
      | integer h => exact ⟨_, .integer h⟩
      | byte h => exact ⟨_, .byte h⟩
      | date h =>
        obtain ⟨_, hd⟩ := Option.isSome_iff_exists.mp h
        exact ⟨_, .date hd⟩
      | @textList items h =>
        have hitems : items ∈ Set.range (List.map Json.str) := by
          rw [Set.range_list_map]
          exact fun j hj => (h j hj).imp fun _ hs => hs.symm
        obtain ⟨l, rfl⟩ := hitems
        exact ⟨_, .textList l⟩

theorem Takes.eq_null_iff (h : τ.Takes j v) : v = .null ↔ j = .null := by
  cases h <;> simp [Json.strs]

end FieldType

namespace Field

-- An attribute that has the name of one of some fields and is null or of the field's type.
def Accepts (fs : List Field) (a : String × Json) : Prop :=
  ∃ f ∈ fs, f.name = a.1 ∧ (a.2 = .null ∨ f.type.Admits a.2)

-- A column that holds what attributes give to a field.
structure IsGiven (attributes : Dictionary Json) (f : Field) (c : String × Value) : Prop where
  column : c.1 = f.column
  null   : c.2 = .null ↔ attributes.get? f.name = none ∨ attributes.get? f.name = some .null
  value  : ∀ j, attributes.get? f.name = some j → f.type.Takes j c.2

variable {fs : List Field} {attributes : Dictionary Json} {cs : Columns}

theorem isGiven_iff {f : Field} {c : String × Value} : IsGiven attributes f c ↔
    c.1 = f.column ∧ f.type.Takes ((attributes.get? f.name).getD .null) c.2 := by
  constructor
  · rintro ⟨hc, hnull, hvalue⟩
    refine ⟨hc, ?_⟩
    cases hj : attributes.get? f.name with
    | none => exact hnull.mpr (.inl hj) ▸ .null f.type
    | some j => exact hvalue j hj
  · rintro ⟨hc, ht⟩
    refine ⟨hc, ht.eq_null_iff.trans ?_, fun j hj => by rwa [hj] at ht⟩
    cases attributes.get? f.name <;> simp

-- The columns of fields hold what attributes give to them, in the order of the fields.
theorem columns_eq_ok_iff_isGiven : columns fs attributes = .ok cs ↔ List.Forall₂ (IsGiven attributes) fs cs := by
  rw [columns, List.mapM_eq_ok]
  simp only [Except.bind_eq_ok, value_eq_ok, Except.pure_eq_ok]
  constructor <;> refine fun h => h.imp fun f c => ?_
  · rintro ⟨v, hv, rfl⟩
    exact isGiven_iff.mpr ⟨rfl, hv⟩
  · intro hc
    obtain ⟨hcolumn, hv⟩ := isGiven_iff.mp hc
    exact ⟨c.2, hv, by rw [← hcolumn]⟩

theorem exists_columns : (∃ cs, columns fs attributes = .ok cs) ↔
    ∀ f ∈ fs, ∀ j, attributes.get? f.name = some j → j = .null ∨ f.type.Admits j := by
  rw [columns, List.exists_mapM_iff]
  simp only [Except.bind_eq_ok, value_eq_ok, Except.pure_eq_ok]
  refine forall₂_congr fun f _ => ?_
  cases attributes.get? f.name with
  | none =>
    have hnull : ∃ v, f.type.Takes .null v := ⟨_, .null f.type⟩
    simpa using hnull
  | some j =>
    simp only [Option.getD_some, Option.some.injEq, forall_eq', ← FieldType.exists_takes]
    constructor
    · rintro ⟨_, v, hv, _⟩
      exact ⟨v, hv⟩
    · rintro ⟨v, hv⟩
      exact ⟨_, v, hv, rfl⟩

-- Attributes are known and can be given to fields if every one of them is accepted, as a name stands for one field.
theorem exists_columns_iff_accepts (attributes : Dictionary Json) (hn : (fs.map (·.name)).Nodup) :
    (∀ name ∈ attributes.keys, ∃ f ∈ fs, f.name = name) ∧ (∃ cs, columns fs attributes = .ok cs) ↔
      ∀ a ∈ attributes.entries, Accepts fs a := by
  rw [exists_columns]
  constructor
  · rintro ⟨hknown, hvalues⟩ ⟨name, j⟩ ha
    obtain ⟨f, hf, rfl⟩ := hknown name (List.mem_map_of_mem ha)
    exact ⟨f, hf, rfl, hvalues f hf j (Dictionary.get?_eq_some.mpr ha)⟩
  · intro h
    refine ⟨List.forall_mem_map.mpr fun a ha => (h a ha).imp fun f hf => ⟨hf.1, hf.2.1⟩, fun f hf j hj => ?_⟩
    obtain ⟨g, hg, hname, hvalue⟩ := h _ (Dictionary.get?_eq_some.mp hj)
    exact List.inj_on_of_nodup_map hn hg hf hname ▸ hvalue

end Field

-- Languages of tags differ regardless of case if their lower cases differ.
theorem LanguageTag.lower_of_isValid {tag : String} (h : isValid tag) : Text.lower tag = Text.asciiLower tag :=
  Text.lower_of_isAscii fun c hc => by
    rcases isTagChar_iff.mp (isTagChar_of_isValid h hc) with h | rfl
    · omega
    · decide

-- A translation in order: its language is a tag, its attributes are accepted, and it has a name that is not blank.
structure Translation.IsAcceptable (s : Schema) (t : Translation) : Prop where
  tag        : LanguageTag.isValid t.language
  attributes : ∀ a ∈ t.fields.entries, Field.Accepts s.translationFields a
  named      : ∃ name, t.fields.get? nameField = some (.str name) ∧ ∃ c ∈ name.toList, Text.isBlank c = false

-- A draft in order: it has a translation, and no two of its translations are in the same language.
structure Draft.IsAcceptable (s : Schema) (d : Draft) : Prop where
  attributes   : ∀ a ∈ d.attributes.entries, Field.Accepts s.rootFields a
  translated   : d.translations ≠ []
  translations : ∀ t ∈ d.translations, t.IsAcceptable s
  languages    : d.translations.Pairwise fun t u => Text.asciiLower t.language ≠ Text.asciiLower u.language

-- A record that has everything that a draft gives, in the order of the schema and of the draft.
structure Record.Holds (s : Schema) (d : Draft) (r : Record) : Prop where
  kind         : r.kind = s.kind
  root         : List.Forall₂ (Field.IsGiven d.attributes) s.rootFields r.root
  translations : List.Forall₂ (fun (t : Translation) u => u.language = t.language ∧
    List.Forall₂ (Field.IsGiven t.fields) s.translationFields u.columns) d.translations r.translations

section

variable {s : Schema} {d : Draft} {r : Record}

theorem Schema.IsSound.nodup_names (hs : s.IsSound) :
    (s.rootFields.map (·.name)).Nodup ∧ (s.translationFields.map (·.name)).Nodup :=
  ⟨hs.names.sublist (List.filter_sublist.map _), hs.names.sublist (List.filter_sublist.map _)⟩

theorem Translation.isAcceptable_iff (hs : s.IsSound) {t : Translation} :
    t.IsAcceptable s ↔ t.IsValid s [] ∧ ∃ cs, Field.columns s.translationFields t.fields = .ok cs := by
  have hattributes := Field.exists_columns_iff_accepts t.fields hs.nodup_names.2
  have hnamed : t.isNamed ↔ ∃ name, t.fields.get? nameField = some (.str name) ∧
      ∃ c ∈ name.toList, Text.isBlank c = false := by
    simp only [isNamed_iff, Text.isAllBlank, List.all_eq_false, Bool.not_eq_true]
  constructor
  · intro h
    obtain ⟨hknown, hcolumns⟩ := hattributes.mpr h.attributes
    exact ⟨⟨h.tag, List.not_mem_nil, hknown, hnamed.mpr h.named⟩, hcolumns⟩
  · rintro ⟨h, hcolumns⟩
    exact ⟨h.tag, hattributes.mp ⟨h.fields, hcolumns⟩, hnamed.mp h.named⟩

namespace Draft

theorem prepare_eq_ok_iff_holds : d.prepare s = .ok r ↔ d.IsValid s ∧ r.Holds s d := by
  simp only [prepare_eq_ok, Field.columns_eq_ok_iff_isGiven]
  exact and_congr_right fun _ => ⟨fun h => ⟨h.1, h.2.1, h.2.2⟩, fun h => ⟨h.kind, h.root, h.translations⟩⟩

theorem exists_prepare : (∃ r, d.prepare s = .ok r) ↔ d.IsValid s ∧
    (∃ cs, Field.columns s.rootFields d.attributes = .ok cs) ∧
      ∀ t ∈ d.translations, ∃ cs, Field.columns s.translationFields t.fields = .ok cs := by
  constructor
  · rintro ⟨r, hr⟩
    obtain ⟨hv, -, hroot, hts⟩ := prepare_eq_ok.mp hr
    have hcolumns : ∀ t ∈ d.translations, ∃ u ∈ r.translations, u.language = t.language ∧
        Field.columns s.translationFields t.fields = .ok u.columns := hts.flip.exists_of_mem
    exact ⟨hv, ⟨_, hroot⟩, fun t ht => have ⟨u, _, _, hu⟩ := hcolumns t ht; ⟨_, hu⟩⟩
  · rintro ⟨hv, ⟨root, hroot⟩, hts⟩
    have hts : ∃ us, d.translations.mapM (fun t => do
        return (⟨t.language, ← Field.columns s.translationFields t.fields⟩ : LocalRecord)) = .ok us := by
      refine List.exists_mapM_iff.mpr fun t ht => ?_
      obtain ⟨cs, hcs⟩ := hts t ht
      exact ⟨⟨t.language, cs⟩, Except.bind_eq_ok.mpr ⟨cs, hcs, rfl⟩⟩
    obtain ⟨us, hus⟩ := hts
    refine ⟨⟨s.kind, root, us⟩, ?_⟩
    rw [prepare, validate_eq_ok.mpr hv, hroot, hus]
    rfl

-- Only tags are compared by their lower cases.
theorem isAcceptable_iff (hs : s.IsSound) : d.IsAcceptable s ↔ d.IsValid s ∧
    (∃ cs, Field.columns s.rootFields d.attributes = .ok cs) ∧
      ∀ t ∈ d.translations, ∃ cs, Field.columns s.translationFields t.fields = .ok cs := by
  have hattributes := Field.exists_columns_iff_accepts d.attributes hs.nodup_names.1
  have hlanguages (htags : ∀ t ∈ d.translations, LanguageTag.isValid t.language) :
      (d.translations.map fun t => Text.lower t.language).Nodup ↔
        d.translations.Pairwise fun t u => Text.asciiLower t.language ≠ Text.asciiLower u.language := by
    rw [List.Nodup, List.pairwise_map]
    refine List.Pairwise.iff_of_mem fun ht hu => ?_
    rw [LanguageTag.lower_of_isValid (htags _ ht), LanguageTag.lower_of_isValid (htags _ hu)]
  constructor
  · intro h
    obtain ⟨hknown, hcolumns⟩ := hattributes.mpr h.attributes
    have hts := fun t ht => (Translation.isAcceptable_iff hs).mp (h.translations t ht)
    refine ⟨⟨hknown, h.translated, fun t ht => (hts t ht).1, ?_⟩, hcolumns, fun t ht => (hts t ht).2⟩
    exact (hlanguages fun t ht => (hts t ht).1.tag).mpr h.languages
  · rintro ⟨hv, hcolumns, hts⟩
    refine ⟨hattributes.mp ⟨hv.attributes, hcolumns⟩, hv.translated, fun t ht => ?_, ?_⟩
    · exact (Translation.isAcceptable_iff hs).mpr ⟨hv.translations t ht, hts t ht⟩
    · exact (hlanguages fun t ht => (hv.translations t ht).tag).mp hv.languages

-- A draft in order becomes a record that has all that it gives, and the record is handed on. Any other draft is turned
-- down as a bad request, and nothing is done, whoever would have been handed the record.
theorem prepared_iff_isAcceptable (hs : s.validate = .ok ()) (d : Draft) :
    (d.IsAcceptable s → ∃ r, d.prepare s = .ok r ∧ r.Holds s d ∧
      ∀ {σ : Type} (insert : Record → Run σ Int), d.create insert s = insert r) ∧
    (¬d.IsAcceptable s → ∃ refusal, d.prepare s = .error refusal ∧ refusal.fault = .badRequest refusal.message ∧
      ∀ {σ : Type} (insert : Record → Run σ Int) (x : σ),
        (ExceptT.run (d.create insert s)).run x = (.error refusal.fault, x)) := by
  have hiff : d.IsAcceptable s ↔ ∃ r, d.prepare s = .ok r :=
    (isAcceptable_iff (Schema.validate_eq_ok.mp hs)).trans exists_prepare.symm
  constructor
  · intro h
    obtain ⟨r, hr⟩ := hiff.mp h
    refine ⟨r, hr, (prepare_eq_ok_iff_holds.mp hr).2, fun insert => ?_⟩
    rw [create, hr]
    rfl
  · intro h
    cases hp : d.prepare s with
    | ok r => exact absurd (hiff.mpr ⟨r, hp⟩) h
    | error refusal =>
      refine ⟨refusal, rfl, rfl, fun insert x => ?_⟩
      rw [create, hp]
      rfl

-- A film in two languages, and one that is for too old an age.
theorem prepared_iff_isAcceptable_film :
    let ts : List Translation := [⟨"en-US", .ofList [("name", .str "Arrival")]⟩,
      ⟨"es", .ofList [("name", .str "La llegada"), ("synopsis", .null)]⟩]
    let film : Draft := ⟨.ofList [("release_date", .str "2016-11-11"), ("budget", .null)], ts⟩
    let other : Draft := ⟨.ofList [("age_rating", .int 128)], ts⟩
    Schema.movie.validate = .ok () ∧
    (∃ r, film.prepare .movie = .ok r ∧ r.Holds .movie film ∧
      r.root = [("duration", .null), ("release_date", .date ⟨2016, 11, 11, by decide⟩), ("age_rating", .null),
        ("genres", .null), ("budget", .null)]) ∧
    ¬other.IsAcceptable .movie := by
  intro ts film other
  have hs : Schema.movie.validate = .ok () := by decide
  refine ⟨hs, ?film, fun h => ?other⟩
  case film =>
    have hroot : (film.prepare .movie).toOption.map (·.root) = some [("duration", .null),
        ("release_date", .date ⟨2016, 11, 11, by decide⟩), ("age_rating", .null), ("genres", .null),
        ("budget", .null)] := by
      decide +kernel
    have hfilm : film.IsAcceptable .movie := by
      by_contra h
      obtain ⟨_, hr, _⟩ := (prepared_iff_isAcceptable hs film).2 h
      rw [hr] at hroot
      cases hroot
    obtain ⟨r, hr, hholds, _⟩ := (prepared_iff_isAcceptable hs film).1 hfilm
    rw [hr] at hroot
    exact ⟨r, hr, hholds, Option.some.inj hroot⟩
  case other =>
    obtain ⟨r, hr, _⟩ := (prepared_iff_isAcceptable hs other).1 h
    have hnone : (other.prepare .movie).toOption = none := by decide +kernel
    rw [hr] at hnone
    cases hnone

end Draft

end

end MediaCatalog
