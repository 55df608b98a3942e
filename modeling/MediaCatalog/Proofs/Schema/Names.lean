import MediaCatalog.Proofs.Entry.Record
import MediaCatalog.Proofs.Language
import MediaCatalog.Proofs.Query.Parameters
import MediaCatalog.Proofs.Query.SortKey
import MediaCatalog.Proofs.Query.Spelling
import MediaCatalog.Proofs.Search.Assembly
import MediaCatalog.Proofs.Sql.Condition
import MediaCatalog.Proofs.Sql.Dialect

namespace MediaCatalog

open Sql

namespace Query

-- A name that is known as it is in a parameter, whatever the value, and not kept for anything else.
structure IsField (name : String) : Prop where
  named    : name ≠ ""
  free     : name ∉ reserved
  lower    : Text.lower name = name
  unmarked : ∀ c ∈ (name.toList.dropWhile Text.isWord).head?, isMark c = false

variable {name value : String}

-- A mark behind the first word of a name takes all that follows the word to the value. Where there is no value of its
-- own, nothing keeps it from doing so.
theorem normalize_eq_self_iff : (∀ value, normalize name value = (name, value)) ↔
    Text.lower name = name ∧ ∀ c ∈ (name.toList.dropWhile Text.isWord).head?, isMark c = false := by
  constructor
  · intro h
    refine ⟨lower_of_normalize (h ""), fun c hc => ?_⟩
    by_contra hmark
    obtain ⟨tail, htail⟩ := List.head?_eq_some_iff.mp hc
    obtain ⟨word, hword, hname⟩ : ∃ word : String, (∀ c ∈ word.toList, Text.isWord c) ∧
        name = word ++ .ofList (c :: tail) := by
      refine ⟨.ofList (name.toList.takeWhile Text.isWord), fun d hd => ?_, ?_⟩
      · rw [String.toList_ofList] at hd
        exact List.mem_takeWhile_imp hd
      · rw [← htail, ← String.ofList_append, List.takeWhile_append_dropWhile, String.ofList_toList]
    have hmoved := h ""
    rw [hname, normalize_marked_nil hword (Bool.of_not_eq_false hmark)] at hmoved
    simpa using congrArg Prod.snd hmoved
  · rintro ⟨hlower, hunmarked⟩ value
    rw [normalize]
    generalize name.toList.dropWhile Text.isWord = tail at hunmarked
    cases tail with
    | nil => simp [hlower]
    | cons c tail => simp [hunmarked c rfl, hlower]

theorem exists_ofPairs_singleton :
    (∃ q, ofPairs [(name, value)] = .ok q ∧ q.filter.get? name = some value) ↔
      name ≠ "" ∧ name ∉ reserved ∧ normalize name value = (name, value) := by
  have hadd : ofPairs [(name, value)] = empty.add name value := by simp [ofPairs]
  simp only [hadd, add_eq_ok]
  generalize normalize name value = p
  obtain ⟨field, raw⟩ := p
  constructor
  · rintro ⟨_, ⟨hn, -, rfl⟩, hget⟩
    rw [take] at hget
    split at hget
    case isTrue => cases hget
    case isFalse hr =>
      rw [Dictionary.get?_insert] at hget
      split at hget
      case isTrue hname =>
        cases hname
        cases hget
        exact ⟨hn, hr, rfl⟩
      case isFalse => cases hget
  · rintro ⟨hn, hr, hp⟩
    cases hp
    refine ⟨_, ⟨hn, fun _ => rfl, rfl⟩, ?_⟩
    rw [take, if_neg hr, Dictionary.get?_insert, if_pos rfl]

theorem isField_iff : IsField name ↔
    ∀ value, ∃ q, ofPairs [(name, value)] = .ok q ∧ q.filter.get? name = some value := by
  simp only [exists_ofPairs_singleton]
  constructor
  · rintro ⟨hn, hr, hlower, hunmarked⟩ value
    exact ⟨hn, hr, normalize_eq_self_iff.mpr ⟨hlower, hunmarked⟩ value⟩
  · intro h
    obtain ⟨hn, hr, -⟩ := h ""
    obtain ⟨hlower, hunmarked⟩ := normalize_eq_self_iff.mp fun value => (h value).2.2
    exact ⟨hn, hr, hlower, hunmarked⟩

end Query

section Identifiers

variable {name : String} (h : Schema.isIdentifier name)

include h

theorem toNat_of_isIdentifier : ∀ c ∈ name.toList,
    (97 ≤ c.toNat ∧ c.toNat ≤ 122) ∨ (48 ≤ c.toNat ∧ c.toNat ≤ 57) ∨ c.toNat = 95 := by
  intro c hc
  rcases (Schema.chars_of_isIdentifier h).2 c hc with hc | hc | rfl
  · exact .inl ((Bool.and_eq_true_iff.mp hc).imp of_decide_eq_true of_decide_eq_true)
  · exact .inr (.inl ((Bool.and_eq_true_iff.mp hc).imp of_decide_eq_true of_decide_eq_true))
  · exact .inr (.inr rfl)

theorem lower_of_isIdentifier : Text.lower name = name := by
  have hchars := toNat_of_isIdentifier h
  have hascii : Text.IsAscii name := fun c hc => by
    have := hchars c hc
    omega
  have hkept : name.toList.map Char.toLower = name.toList.map id := by
    refine List.map_congr_left fun c hc => LanguageTag.toLower_eq_self (decide_eq_false fun hupper => ?_)
    have hupper : 65 ≤ c.toNat ∧ c.toNat ≤ 90 := hupper
    have := hchars c hc
    omega
  rw [Text.lower_of_isAscii hascii, Text.asciiLower, hkept, List.map_id, String.ofList_toList]

-- An identifier can be sorted by, and it can be filtered by unless it is reserved.
theorem isWhole_of_isIdentifier : SortKey.IsWhole name := by
  have hchars := toNat_of_isIdentifier h
  have hne : name ≠ "" := fun hn => (Schema.chars_of_isIdentifier h).1 (by rw [hn]; rfl)
  have htrim : Text.trim name = name := Text.trim_eq_self fun c hc => by
    have := hchars c hc
    simp only [Text.isBlank, Bool.or_eq_false_iff, Bool.and_eq_false_iff, beq_eq_false_iff_ne,
      decide_eq_false_iff_not]
    omega
  refine ⟨hne, fun hc => ?_, htrim.symm ▸ lower_of_isIdentifier h⟩
  have hcomma : ','.toNat = 44 := rfl
  have := hchars _ hc
  omega

theorem isField_of_isIdentifier : Query.IsField name ↔ name ∉ Query.reserved := by
  refine ⟨Query.IsField.free, fun hr => ?_⟩
  have hword : name.toList.dropWhile Text.isWord = [] :=
    List.dropWhile_eq_nil_iff.mpr (List.all_eq_true.mp (isWord_of_isIdentifier h).2)
  exact ⟨(isWhole_of_isIdentifier h).named, hr, lower_of_isIdentifier h, by simp [hword]⟩

end Identifiers

-- Whether no key of an object is there twice.
def Json.HasDistinctKeys : Json → Prop
  | obj members => (members.map (·.1)).Nodup
  | _           => True

theorem Entry.hasDistinctKeys_iff (x : Entry) : x.json.HasDistinctKeys ↔
    "id" ∉ x.attributes.keys ∧ "translations" ∉ x.attributes.keys := by
  have hkeys := x.attributes.nodup_keys
  rw [Dictionary.keys] at hkeys ⊢
  simp only [json, Json.HasDistinctKeys, List.map_cons, List.map_append, List.map_nil]
  grind

theorem Translation.hasDistinctKeys_iff (t : Translation) :
    t.json.HasDistinctKeys ↔ "language" ∉ t.fields.keys := by
  rw [json, Json.HasDistinctKeys, List.map_cons, List.nodup_cons]
  exact and_iff_left t.fields.nodup_keys

theorem StoredRow.mem_keys_shown {κ : Type} {e : Engine κ} {r : StoredRow κ} {fs : List Field} {name : String} :
    name ∈ (r.shown e fs).keys ↔ ∃ f ∈ fs, f.name = name :=
  Field.mem_keys_named _

section Schema

variable {s : Schema}

-- The keys of an entry are told apart unless a field has the name of one that every entry has.
theorem Row.hasDistinctKeys_assemble {κ : Type} {e : Engine κ} {ids : List Int} {js : List (JoinedRow κ)} {x : Entry}
    (hx : x ∈ assemble ids (js.map (JoinedRow.row e s))) :
    (x.json.HasDistinctKeys ↔ ∀ f ∈ s.rootFields, f.name ≠ "id" ∧ f.name ≠ "translations") ∧
    ∀ t ∈ x.translations, t.json.HasDistinctKeys ↔ ∀ f ∈ s.translationFields, f.name ≠ "language" := by
  have hmade := areMadeOf_assemble ids (js.map (JoinedRow.row e s))
  constructor
  · obtain ⟨r, hr, hattributes⟩ := Option.map_eq_some_iff.mp (hmade.attributes x hx)
    obtain ⟨j, -, rfl⟩ := List.mem_map.mp (List.mem_of_find?_eq_some hr)
    rw [Entry.hasDistinctKeys_iff, ← hattributes, JoinedRow.row, StoredRow.mem_keys_shown, StoredRow.mem_keys_shown]
    grind
  · intro t ht
    rw [hmade.translations x hx] at ht
    obtain ⟨r, hr, rfl⟩ := List.mem_map.mp ht
    obtain ⟨j, -, rfl⟩ := List.mem_map.mp (List.mem_filter.mp hr).1
    rw [Translation.hasDistinctKeys_iff, JoinedRow.row, StoredRow.mem_keys_shown]
    grind

theorem Schema.IsSound.resolve_iff (hs : s.IsSound) {f : Field} (hf : f ∈ s.fields) {name : String} :
    s.resolve name = .ok f ↔ name = f.name := by
  rw [resolve_eq_ok]
  constructor
  · exact fun h => (mem_of_find? h).2.symm
  · rintro rfl
    exact hs.find?_name hf

-- Every field is found by its name, but it can be filtered by only if the name is left as it is in a parameter and is
-- not reserved, and sorted by only if it is left as it is in a sort parameter. The keys of an entry differ unless a
-- field has the name of one that every entry or every translation has. Of names that are identifiers only those
-- that are reserved cannot be filtered by.
theorem Schema.names_usable_iff (hs : s.validate = .ok ()) :
    (∀ f ∈ s.fields, s.resolve f.name = .ok f ∧
      ((∀ value, ∃ q, Query.ofPairs [(f.name, value)] = .ok q ∧ q.filter.get? f.name = some value) ↔
        Query.IsField f.name) ∧
      ((∃ k, SortKey.read f.name = .ok k ∧ s.resolve k.field = .ok f) ↔ SortKey.IsWhole f.name)) ∧
    (∀ (d : Dialect) (ids : List Int) (js : List (JoinedRow d.Held)),
      ∀ x ∈ Row.assemble ids (js.map (JoinedRow.row d.engine s)),
        (x.json.HasDistinctKeys ↔ ∀ f ∈ s.rootFields, f.name ≠ "id" ∧ f.name ≠ "translations") ∧
        ∀ t ∈ x.translations, t.json.HasDistinctKeys ↔ ∀ f ∈ s.translationFields, f.name ≠ "language") ∧
    ∀ f ∈ s.fields, isIdentifier f.name →
      SortKey.IsWhole f.name ∧ (Query.IsField f.name ↔ f.name ∉ Query.reserved) := by
  have hs := validate_eq_ok.mp hs
  refine ⟨fun f hf => ⟨(hs.resolve_iff hf).mpr rfl, Query.isField_iff.symm, ?_⟩, ?_, ?_⟩
  · simp only [SortKey.read_eq_ok, hs.resolve_iff hf, SortKey.exists_asks_iff]
  · exact fun d ids js x hx => Row.hasDistinctKeys_assemble hx
  · exact fun f _ h => ⟨isWhole_of_isIdentifier h, isField_of_isIdentifier h⟩

-- All fields of films can be asked for.
theorem Schema.names_usable_iff_movie : Schema.movie.validate = .ok () ∧
    (∀ f ∈ Schema.movie.fields, Schema.movie.resolve f.name = .ok f ∧
      (∀ value, ∃ q, Query.ofPairs [(f.name, value)] = .ok q ∧ q.filter.get? f.name = some value) ∧
      ∃ k, SortKey.read f.name = .ok k ∧ Schema.movie.resolve k.field = .ok f) ∧
    ∀ (d : Dialect) (ids : List Int) (js : List (JoinedRow d.Held)),
      ∀ x ∈ Row.assemble ids (js.map (JoinedRow.row d.engine .movie)),
        x.json.HasDistinctKeys ∧ ∀ t ∈ x.translations, t.json.HasDistinctKeys := by
  have hs : Schema.movie.validate = .ok () := by decide
  have hplain : ∀ f ∈ Schema.movie.fields, isIdentifier f.name ∧ f.name ∉ Query.reserved := by decide
  obtain ⟨hfields, hkeys, hidentifiers⟩ := Schema.names_usable_iff hs
  refine ⟨hs, fun f hf => ?_, fun d ids js x hx => ?_⟩
  · obtain ⟨hresolve, hfilter, hsort⟩ := hfields f hf
    obtain ⟨hwhole, hfield⟩ := hidentifiers f hf (hplain f hf).1
    exact ⟨hresolve, hfilter.mpr (hfield.mpr (hplain f hf).2), hsort.mpr hwhole⟩
  · obtain ⟨hentry, htranslations⟩ := hkeys d ids js x hx
    exact ⟨hentry.mpr (by decide), fun t ht => (htranslations t ht).mpr (by decide)⟩

-- A field that cannot be told from the number of the page, one that loses its capital, and one that takes the key of
-- the translations.
theorem Schema.names_unusable :
    let s : Schema := ⟨.movie, [field .root "page" .integer, ⟨"Year", .integer, .root, "year"⟩,
      field .root "translations" .text]⟩
    let j : JoinedRow Value := ⟨⟨1, []⟩, ⟨1, []⟩⟩
    s.validate = .ok () ∧
    (Query.ofPairs [("page", "5")]).toOption.map (fun q => (q.filter.entries, q.page)) = some ([], some "5") ∧
    (Query.ofPairs [("Year", "1999")]).toOption.map (·.filter.entries) = some [("year", "1999")] ∧
    (SortKey.read "Year").toOption.map (·.field) = some "year" ∧ s.find? "year" = none ∧
    ∃ x ∈ Row.assemble [1] [j.row .postgres s], ¬x.json.HasDistinctKeys := by
  intro s j
  have hx : (Row.assemble [1] [j.row .postgres s]).head?.isSome := by decide +kernel
  obtain ⟨x, hx⟩ := Option.isSome_iff_exists.mp hx
  have hmem : x ∈ Row.assemble [1] ([j].map (JoinedRow.row .postgres s)) := List.mem_of_head? hx
  refine ⟨by decide, by decide +kernel, by decide +kernel, by decide +kernel, by decide, x, hmem, fun hdistinct => ?_⟩
  obtain ⟨hkeys, -⟩ := Row.hasDistinctKeys_assemble hmem
  exact (hkeys.mp hdistinct (field .root "translations" .text) (by decide)).2 rfl

end Schema

end MediaCatalog
