import MediaCatalog.Proofs.Filter.Own
import MediaCatalog.Proofs.Service.Invariant
import MediaCatalog.Proofs.Service.Listing

namespace MediaCatalog

open Sql MediaCatalog.Filter

-- What an entry shows of a field, in one of its translations if the field belongs to these.
def Entry.valueOf? (e : Entry) (t : Translation) (f : Field) : Option Json :=
  match f.owner with
  | .root        => e.attributes.get? f.name
  | .translation => t.fields.get? f.name

section Shown

variable {s : Schema} {r : Record} {u : LocalRecord} {f : Field} (hs : s.IsUsable) (hf : f ∈ s.fields)

include hs hf

-- An entry shows the values of its record.
theorem Record.valueOf?_entry (r : Record) (u : LocalRecord) (id : Int) :
    (r.entry s id).valueOf? ⟨u.language, Field.shown s.translationFields u.columns⟩ f =
      some (r.valueOf u f).json := by
  rw [Entry.valueOf?, Record.valueOf]
  cases ho : f.owner with
  | root => exact Field.get?_shown hs.nodup_root.1 (Schema.mem_rootFields.mpr ⟨hf, ho⟩)
  | translation => exact Field.get?_shown hs.nodup_translation.1 (Schema.mem_translationFields.mpr ⟨hf, ho⟩)

omit hs in
theorem Record.IsOf.suits_valueOf (hr : r.IsOf s) (hu : u ∈ r.translations) : (r.valueOf u f).Suits f.type := by
  rw [Record.valueOf]
  cases ho : f.owner with
  | root => exact hr.root.suits f (Schema.mem_rootFields.mpr ⟨hf, ho⟩)
  | translation => exact (hr.columns u hu).suits f (Schema.mem_translationFields.mpr ⟨hf, ho⟩)

omit hs hf in
-- An engine that has all values of a record has what the record holds for a field.
theorem Record.takes_valueOf {κ : Type} {e : Engine κ} {fits : FieldType → κ → Prop} (h : e.Faithful fits)
    (hr : r.isTaken e) (hu : u ∈ r.translations) (f : Field) : e.takes (r.valueOf u f) := by
  have hvalue {cs : Columns} (hcs : ∀ c ∈ cs, e.takes c.2) : e.takes (cs.value f.column) := by
    rw [Columns.value]
    cases hc : cs.lookup f.column with
    | none => exact h.takes_null
    | some v =>
      obtain ⟨before, after, rfl, -⟩ := List.lookup_eq_some_iff.mp hc
      exact hcs (f.column, v) (by simp)
  obtain ⟨hroot, htranslations⟩ := Record.isTaken_eq.mp hr
  rw [Record.valueOf]
  cases f.owner with
  | root => exact hvalue hroot
  | translation => exact hvalue (LocalRecord.isTaken_eq.mp (htranslations u hu)).2

end Shown

namespace Service

open Http

-- An entry whose creation is answered by 201 is found by each text that it shows, whatever is done before and
-- after. A text that no mark opens is read as a filter by equality; in the language of the translation that shows the
-- text, each of its pages is answered whose size leaves room for the two values, and one of them has the entry with
-- this translation.
theorem lists_by_value (dialect : Dialect) (settings : Settings) (before after : List Request) {r : Request}
    {k : Kind} {d : Draft} (hr : Creates r k d) {sort : List SortKey} {order : List OrderTerm}
    (ho : sort.mapM (OrderTerm.ofKey (Schema.registered k)) = .ok order)
    (hl : ∀ n ∈ dialect.engine.limits.order, sort.length < n) :
    let c := Database.catalog dialect.engine
    let serve := respond c settings
    let s := Schema.registered k
    let x := ((before.mapM serve).run .empty).2
    let id := (x.store.get k).nextId .root
    let out := (serve r).run x
    let y := ((after.mapM serve).run out.2).2
    let entry := d.published s id
    out.1.status = 201 →
      (c.findEntry k .any id).outcome y = .ok (some entry) ∧
      ∀ f ∈ s.fields, ∀ t ∈ entry.translations, ∀ value ∈ entry.valueOf? t f, ∀ text ∈ value.texts,
        (∀ char ∈ text.toList.head?, Query.isMark char = false) →
        let filter := Dictionary.ofList [(f.name, text)]
        let l := Language.tag t.language
        Operator.detect text = (.equal, text) ∧ (∃ a, Criterion.ofField f text = .ok a) ∧
        ∀ size : UInt32, 2 + max 2 size.toNat ≤ dialect.engine.limits.values →
          (∀ number, ∃ page, (c.findPage k filter l ⟨number, size, sort⟩).outcome y = .ok page) ∧
          (0 < size.toNat → (y.store.get k).roots.length ≤ 2 ^ 32 * size.toNat →
            c.Lists y k filter l sort size { entry with translations := [t] }) := by
  have h := dialect.faithful_engine
  have hs := Schema.isUsable_registered k
  have hkind : (Schema.registered k).kind = k := Schema.kind_registered k
  dsimp only
  intro hstatus
  obtain ⟨record, c, hrecord, htaken, -, hy, hmem⟩ := exists_has_of_created h settings before after hr hstatus
  generalize ((after.mapM (respond (Database.catalog dialect.engine) settings)).run _).2 = y at hy ⊢
  generalize Tables.nextId _ _ = id at hmem ⊢
  have hof := Draft.isOf_of_prepare hs hrecord
  rw [← Draft.entry_eq_published hs hrecord]
  refine ⟨?fetched, fun f hf t ht value hvalue text htext hmark => ?found⟩
  case fetched =>
    have hfetch := hy.outcome_findEntry h k (l := .any) (fun v hv => by cases hv) id
    have hfound := (hy.keeps k).find?_found h hs (hy.sound k) .any id
    have hrestrict := Records.fetch?_of_mem (l := .any) (hy.sound k) hmem
      (by rw [Record.restrict_any]; exact hof.translated)
    rw [hkind] at hfound
    rw [hfetch, hfound, hrestrict, Record.restrict_any]
  case found =>
    obtain ⟨u, hu, rfl⟩ := List.mem_map.mp ht
    have hu : u ∈ record.translations := List.mem_mergeSort.mp hu
    rw [Record.valueOf?_entry hs hf, Option.mem_def, Option.some.injEq] at hvalue
    subst hvalue
    have hdetect := Operator.detect_of_not_mark hmark
    obtain ⟨a, ha, ⟨w, hoperands, hw⟩, hheight, hrefused, htruth⟩ :=
      Criterion.exists_equal dialect (hof.suits_valueOf hf hu) htext hdetect
    have hlanguage : dialect.engine.takes (.text u.language) :=
      (LocalRecord.isTaken_eq.mp ((Record.isTaken_eq.mp htaken).2 u hu)).1
    have htakes : ∀ v ∈ (Language.tag u.language).values ++ ((a.condition f).phrase .sqlite).values,
        dialect.engine.takes v := by
      rw [Criterion.values_condition, hoperands]
      simpa [Language.values] using ⟨hlanguage, hw (Record.takes_valueOf h htaken hu f)⟩
    have hsearch : y.CanSearch dialect.engine k (.ofList [(f.name, text)]) (.tag u.language)
        ((Language.tag u.language).predicate ++ [a.condition f]) :=
      Database.canSearch_of_condition (Search.condition_eq_ok.mpr ⟨f, a, hs.sound.find?_name hf, ha, rfl⟩) htakes
        hrefused (by decide) hheight fun n hn => Nat.le_trans (by decide) (h.depth n hn)
    have hvalues := Search.values_criterion .sqlite (.tag u.language) f a
    refine ⟨hdetect, ⟨a, ha⟩, fun size hroom => ?_⟩
    have hroom : (((Language.tag u.language).predicate ++ [a.condition f] : Predicate).values .sqlite).length +
        max 2 size.toNat ≤ dialect.engine.limits.values := by
      rwa [hvalues, hoperands]
    refine ⟨fun number => ⟨_, hy.outcome_findPage h hsearch ⟨number, size, sort⟩ ho hl hroom⟩,
      fun hsize hnumber => ?_⟩
    have hfound := (hy.keeps k).found_of_value h hs (hy.sound k) hmem hu hf (htruth ·)
    rw [hkind, hof.entry_restrict_tag hu] at hfound
    exact (hy.lists_iff h hsearch ho hl hsize hroom hnumber _).mpr hfound

-- A movie that is found by its name.
theorem lists_by_value_up :
    let c := Database.catalog Dialect.sqlite.engine
    let y := ((respond c Settings.standard (newMovie "Up")).run .empty).2
    ∃ item t, (c.findEntry .movie .any 1).outcome y = .ok (some item) ∧ t ∈ item.translations ∧
      c.Lists y .movie (.ofList [("name", "Up")]) (.tag "en") [] 20 { item with translations := [t] } := by
  dsimp only
  let u : LocalRecord := ⟨"en", [("name", .text "Up"), ("synopsis", .null)]⟩
  let record : Record := ⟨.movie, [("duration", .null), ("release_date", .null), ("age_rating", .int 7),
    ("genres", .null), ("budget", .null)], [u]⟩
  have hadd : addition? (newMovie "Up") = some record := by decide +kernel
  obtain ⟨k, d, hr, hd⟩ := addition?_eq_some.mp hadd
  obtain rfl : k = .movie := (Schema.kind_registered k).symm.trans (Draft.prepare_eq_ok.mp hd).2.1.symm
  have hs := Schema.isUsable_registered .movie
  have ho : ([] : List SortKey).mapM (OrderTerm.ofKey (Schema.registered .movie)) = .ok [] := rfl
  have hfound := lists_by_value .sqlite Settings.standard [] [] hr ho (by decide)
  have hid : ((Database.empty : Database Dialect.sqlite.Held).store.get .movie).nextId .root = 1 := rfl
  simp only [run_mapM_nil, hid, ← Draft.entry_eq_published hs hd] at hfound
  obtain ⟨hfetch, hvalues⟩ := hfound (by decide +kernel)
  have ht : (⟨"en", Field.shown (Schema.registered .movie).translationFields u.columns⟩ : Translation) ∈
      (record.entry (Schema.registered .movie) 1).translations := by
    rw [Record.entry, Record.sorted, List.mergeSort_singleton]
    exact List.mem_singleton_self _
  have hname : Schema.field .translation "name" .text ∈ (Schema.registered .movie).fields := by decide
  have hvalue := Record.valueOf?_entry hs hname record u 1
  have hmark : ∀ char ∈ "Up".toList.head?, Query.isMark char = false := by
    rintro _ ⟨⟩
    rfl
  obtain ⟨-, -, hlists⟩ := hvalues _ hname _ ht _ hvalue "Up" (List.mem_singleton_self _) hmark
  exact ⟨_, _, hfetch, ht, (hlists 20 (by decide)).2 (by decide) (by decide +kernel)⟩

end Service

end MediaCatalog
