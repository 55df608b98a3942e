import MediaCatalog.Proofs.Entry.Text
import MediaCatalog.Proofs.Language
import MediaCatalog.Proofs.Postgres
import MediaCatalog.Proofs.Service.Invariant

namespace MediaCatalog

open Sql

-- The entry that a draft becomes, with one of its translations alone.
def Draft.publishedIn (s : Schema) (id : Int) (d : Draft) (t : Translation) : Entry :=
  { d.published s id with translations := [⟨t.language, Field.canonical s.translationFields t.fields⟩] }

section Restriction

variable {s : Schema} {r : Record}

variable {d : Draft} (hs : s.IsUsable) (h : d.prepare s = .ok r)

include hs h

-- In the language of a translation, this translation is shown and no other.
theorem Draft.entry_restrict (id : Int) {t : Translation} (ht : t ∈ d.translations) :
    (r.restrict (.tag t.language)).translations ≠ [] ∧
      (r.restrict (.tag t.language)).entry s id = d.publishedIn s id t := by
  have ⟨_, _, _, hts⟩ := prepare_eq_ok.mp h
  have hof := isOf_of_prepare hs h
  have ⟨u, hu, hl, hcs⟩ : ∃ u ∈ r.translations, u.language = t.language ∧
      Field.columns s.translationFields t.fields = .ok u.columns := hts.flip.exists_of_mem t ht
  rw [← hl]
  refine ⟨by simp [hof.restrict_tag hu], ?_⟩
  rw [hof.entry_restrict_tag hu, Draft.entry_eq_published hs h, publishedIn, hl,
    Field.shown_eq_canonical hs.nodup_translation.2 hcs]

end Restriction

namespace Service

open Http

-- A request for the entry of a number in a language that the query names.
structure Fetches (r : Request) (k : Kind) (id : Int) (language : String) : Prop where
  method   : r.method = "GET"
  route    : ∃ segment number kind text, Route.ofPath? r.path = some (.entry segment number) ∧
    Escape.segment? segment = some kind ∧ Escape.segment? number = some text ∧
      Kind.read kind = .ok k ∧ Text.readInt64? text = some id
  language : (r.parameters.find? fun p => Text.asciiLower p.1 = "language").map (·.2) = some language

-- A request for the creation of an entry that a client makes of a draft which is not too long.
structure Sends (r : Request) (k : Kind) (d : Draft) : Prop where
  method    : r.method = "POST"
  route     : ∃ segment kind, Route.ofPath? r.path = some (.entries segment) ∧
    Escape.segment? segment = some kind ∧ Kind.read kind = .ok k
  mediaType : ∃ t, r.header? "content-type" = some t ∧ Request.isReadable t ∧ MediaType.isNearlyJson t ∧
    MediaType.isJson t
  body      : r.body = d.json.text
  size      : d.json.text.utf8ByteSize ≤ bodyLimit

variable {r : Request} {k : Kind} {d : Draft}

theorem Sends.creates (h : Sends r k d) (hd : d.IsShown) : Creates r k d where
  method := h.method
  route := h.route
  draft := by
    obtain ⟨t, ht, hreadable, hnearly, hjson⟩ := h.mediaType
    rw [draft, ht, h.body, Draft.read_json hd]
    simp only [hreadable, hnearly, hjson, Nat.not_lt.mpr h.size]
    rfl

-- What is answered when an entry has been looked for.
def found {σ : Type} (k : Kind) (l : Language) (id : String) : Option Entry → Run σ Response
  | some e => pure (.json 200 [("content-language", l.text)] e.json)
  | none   => throw (.notFound (k.name ++ " " ++ id ++ " not found"))

theorem run_respond_of_fetches {σ : Type} {c : Catalog σ} (settings : Settings) {id : Int} {language : String}
    {l : Language} {e : Entry} {x y : σ} (h : Fetches r k id language) (hl : Language.read language = .ok l)
    (hf : (ExceptT.run (c.findEntry k l id)).run x = (.ok (some e), y)) :
    (respond c settings r).run x = (.json 200 [("content-language", l.text)] e.json, y) := by
  obtain ⟨segment, number, kind, text, hroute, hsegment, hnumber, hkind, hid⟩ := h.route
  have hmethod : (Route.entry segment number).methods.contains r.method = true := by
    simp [h.method, Route.methods]
  have hhead : r.method ≠ "HEAD" := by simp [h.method]
  have hlanguage : Service.language settings r (some language) = .ok l := by
    rw [Service.language, Language.choose, hl]
    rfl
  have hfetch : fetch c settings kind text r = c.findEntry k l id >>= found k l text := by
    unfold fetch
    simp only [hkind, hid, Query.firstLanguage, h.language, hlanguage]
    exact congrArg (c.findEntry k l id >>= ·) (funext fun o => by cases o <;> rfl)
  have hhandle : handle c settings r (.entry segment number) = fetch c settings kind text r := by
    simp only [handle, hsegment, hnumber]
  rw [run_respond c settings hroute hmethod, hhandle, hfetch, ExceptT.run_bind_of_ok hf]
  exact congrArg (·, y) (if_neg hhead)

end Service

namespace Database

variable {κ : Type} {e : Engine κ} {fits : FieldType → κ → Prop} (h : e.Faithful fits) {c : Contents}
  {x : Database κ} (hx : x.Has e c)

include h hx

-- Every record can be read under its number in each language that it has.
theorem Has.findEntry {k : Kind} {id : Int} {record : Record} (hr : (id, record) ∈ c k) {l : Language}
    (hlanguage : ∀ v ∈ l.values, e.takes v) (hl : (record.restrict l).translations ≠ []) :
    ∃ y, (ExceptT.run ((catalog e).findEntry k l id)).run x =
      (.ok (some ((record.restrict l).entry (Schema.registered k) id)), y) := by
  have htries := (Keeper.tries_findEntry (keeper_lawful e) h True x.store k l id).run x hx.rests
  rw [catalog_keeper] at htries
  generalize (ExceptT.run ((catalog e).findEntry k l id)).run x = out at htries ⊢
  obtain ⟨a | o, y⟩ := out
  case error => exact absurd ⟨trivial, hlanguage⟩ htries.1
  case ok =>
    have ho : o = _ := htries.1
    rw [Keeper.fetched_eq h (hx.keeps k) (hx.sound k),
      Records.fetch?_of_mem (hx.sound k) hr hl] at ho
    exact ⟨y, by rw [ho]⟩

section Respond

open Http Service

-- A request for a record is answered with what it shows in the language that is asked for.
theorem Has.respond_fetch (settings : Settings) {k : Kind} {id : Int} {record : Record} (hr : (id, record) ∈ c k)
    {language : String} {l : Language} (hlanguage : Language.read language = .ok l)
    (htakes : ∀ v ∈ l.values, e.takes v) (hl : (record.restrict l).translations ≠ []) {r : Request}
    (hfetch : Fetches r k id language) :
    ((respond (catalog e) settings r).run x).1 = .json 200 [("content-language", l.text)]
      ((record.restrict l).entry (Schema.registered k) id).json := by
  have ⟨y, hy⟩ := hx.findEntry h hr htakes hl
  rw [run_respond_of_fetches settings hfetch hlanguage hy]

end Respond

end Database

namespace Service

open Http

-- An entry whose creation is answered by 201 is answered as its draft says, and so is every later request for it, in
-- all languages or in one of its own. What it shows can be sent in again; it becomes the same record, with its
-- translations in order. A server of its own that returns what was bound shows the same.
theorem respond_reads_back (dialect : Dialect) (settings : Settings) (before after : List Request) {r : Request}
    {k : Kind} {d : Draft} (hr : Creates r k d) :
    let e := dialect.engine
    let serve := respond (Database.catalog e) settings
    let s := Schema.registered k
    let x := ((before.mapM serve).run .empty).2
    let id := (x.store.get k).nextId .root
    let out := (serve r).run x
    let y := ((after.mapM serve).run out.2).2
    out.1.status = 201 →
      out.1 = .json 201 [("location", "/api/v1/" ++ k.path ++ "/" ++ Text.decimal id)] (d.published s id).json ∧
      (∀ get, Fetches get k id "*" →
        ((serve get).run y).1 = .json 200 [("content-language", "*")] (d.published s id).json) ∧
      (∀ t ∈ d.translations, ∀ get, Fetches get k id t.language →
        ((serve get).run y).1 = .json 200 [("content-language", t.language)] (d.publishedIn s id t).json) ∧
      ∃ record, d.prepare s = .ok record ∧
        (∀ again, Sends again k (d.published s id).draft →
          addition? again = some record.sorted ∧ ((serve again).run y).1.status = 201) ∧
        (∀ number, Postgres.Gives ((Postgres.catalog (Postgres.holding number record .any).server).create k d)
          (d.published s number)) ∧
        ∀ number, ∀ t ∈ d.translations,
          Postgres.Gives ((Postgres.catalog (Postgres.holding number record (.tag t.language)).server).findEntry k
            (.tag t.language) number) (some (d.publishedIn s number t)) := by
  have h := dialect.faithful_engine
  have hs := Schema.isUsable_registered k
  dsimp only
  intro hstatus
  obtain ⟨record, c, hrecord, htaken, hcreated, hy, hmem⟩ :=
    exists_has_of_created h settings before after hr hstatus
  generalize (respond (Database.catalog dialect.engine) settings r).run _ = out at hcreated hy ⊢
  generalize ((after.mapM (respond (Database.catalog dialect.engine) settings)).run out.2).2 = y at hy ⊢
  generalize Tables.nextId _ _ = id at hcreated hmem ⊢
  have hof := Draft.isOf_of_prepare hs hrecord
  have hpublished : record.entry (Schema.registered k) id = d.published (Schema.registered k) id :=
    Draft.entry_eq_published hs hrecord
  have htag (t : Translation) (ht : t ∈ d.translations) :
      ∀ v ∈ (Language.tag t.language).values, dialect.engine.takes v := by
    obtain ⟨u, hu, hlanguage, -⟩ := (Draft.prepare_eq_ok.mp hrecord).2.2.2.flip.exists_of_mem t ht
    have hu := LocalRecord.isTaken_eq.mp ((Record.isTaken_eq.mp htaken).2 u hu)
    exact List.forall_mem_singleton.mpr (hlanguage ▸ hu.1)
  refine ⟨hcreated, fun get hget => ?_, fun t ht get hget => ?_, record, hrecord, fun again hagain => ?_,
    fun number => Postgres.gives_create_holding hrecord, fun number t ht => ?_⟩
  · have hshown := hy.respond_fetch h settings hmem (l := .any) rfl (fun v hv => by cases hv)
      (by rw [Record.restrict_any]; exact hof.translated) hget
    rwa [Record.restrict_any, hpublished] at hshown
  · obtain ⟨hne, hentry⟩ := Draft.entry_restrict hs hrecord id ht
    have hvalid := ((Draft.prepare_eq_ok.mp hrecord).1.translations t ht).tag
    have hshown := hy.respond_fetch h settings hmem (Language.read_of_isValid hvalid) (htag t ht) hne hget
    rwa [hentry] at hshown
  · have hcreates : Creates again k (record.entry (Schema.registered k) id).draft :=
      (hpublished ▸ hagain).creates (hof.isShown hs _)
    have hsorted : addition? again = some record.sorted := by
      rw [hcreates.addition?_eq, hof.prepare_entry hs, Except.toOption]
    have hadds : taken? dialect.engine again = some record.sorted :=
      taken?_eq_some.mpr ⟨hsorted, Record.isTaken_sorted.mpr htaken⟩
    exact ⟨hsorted, by rw [(hy.respond_add h settings hadds).1]; rfl⟩
  · obtain ⟨hne, hentry⟩ := Draft.entry_restrict hs hrecord number ht
    exact hentry ▸ Postgres.gives_findEntry_holding hof hne

section Example

theorem sends_postMovie {body : String} {d : Draft} (hbody : body = d.json.text)
    (hsize : body.utf8ByteSize ≤ bodyLimit) : Sends (postMovie body) .movie d where
  method := rfl
  route := by
    refine ⟨"movies", "movies", ?_, by decide +kernel, by rfl⟩
    change Route.ofPath? (postMovie "").path = _
    decide +kernel
  mediaType := by
    refine ⟨"application/json", ?_, by decide, by decide, by decide⟩
    change (postMovie "").header? "content-type" = _
    decide +kernel
  body := hbody
  size := hbody ▸ hsize

-- What the request for a movie in full says.
def inFull : Draft where
  attributes := ⟨[("genres", .arr [.str "Animation", .str "Adventure"]), ("release_date", .str "2009-5-28")], by decide⟩
  translations := [⟨"en", ⟨[("name", .str "Up")], by decide⟩⟩, ⟨"de", ⟨[("name", .str "Oben")], by decide⟩⟩]

theorem isShown_inFull : inFull.IsShown := by
  have htext (s : String) : (Json.str s).IsShown := Value.isShown_json (τ := .text) (v := .text s) trivial
  have hlist (l : List String) : (Json.strs l).IsShown :=
    Value.isShown_json (τ := .textList) (v := .list l) trivial
  have hnames : ∀ t ∈ inFull.translations, ∃ name, t.fields.entries = [("name", .str name)] := by
    simp [inFull]
  constructor
  case attributes =>
    rintro e (_ | ⟨_, _ | ⟨_, ⟨⟩⟩⟩)
    · exact ⟨by decide, hlist ["Animation", "Adventure"]⟩
    · exact ⟨by decide, htext "2009-5-28"⟩
  case translations =>
    intro t ht e he
    obtain ⟨name, hname⟩ := hnames t ht
    rw [hname, List.mem_singleton] at he
    subst he
    exact ⟨by simp, htext name⟩

theorem creates_newMovieInFull : Creates newMovieInFull .movie inFull :=
  (sends_postMovie (by decide +kernel) (by decide +kernel)).creates isShown_inFull

theorem sorted_inFull : inFull.translations.mergeSort (fun t u => (compare t.language u.language).isLE) =
    inFull.translations.reverse := by
  have hgt : compare "en" "de" = .gt := by decide
  simp [inFull, List.mergeSort, List.MergeSort.Internal.splitInTwo, hgt]

-- The request that sends it in again as it is read.
def newMovieAgain : Request :=
  postMovie ("\x7b\"age_rating\":null,\"budget\":null,\"duration\":null,\"genres\":[\"Animation\",\"Adventure\"]," ++
    "\"release_date\":\"2009-05-28\",\"translations\":[" ++
      "\x7b\"language\":\"de\",\"name\":\"Oben\",\"synopsis\":null\x7d," ++
      "\x7b\"language\":\"en\",\"name\":\"Up\",\"synopsis\":null\x7d]\x7d")

theorem sends_newMovieAgain (id : Int) :
    Sends newMovieAgain .movie (inFull.published (Schema.registered .movie) id).draft := by
  refine sends_postMovie ?_ (by decide +kernel)
  rw [Draft.published, sorted_inFull]
  change _ = (Draft.json ⟨Field.canonical (Schema.registered .movie).rootFields inFull.attributes,
    inFull.translations.reverse.map fun t =>
      ⟨t.language, Field.canonical (Schema.registered .movie).translationFields t.fields⟩⟩).text
  decide +kernel

-- The second of three movies is read in all languages and in one, and is sent in again as it is read.
theorem respond_reads_back_up :
    let serve := respond (Database.catalog Dialect.sqlite.engine) Settings.standard
    let x := (([newMovie "Heat"].mapM serve).run .empty).2
    let out := (serve newMovieInFull).run x
    let y := (([newMovie "Brazil"].mapM serve).run out.2).2
    let s := Schema.registered .movie
    out.1.status = 201 ∧
      ((serve ⟨"GET", "/api/v1/movies/2?language=*", [], ""⟩).run y).1 =
        .json 200 [("content-language", "*")] (inFull.published s 2).json ∧
      (∃ t ∈ inFull.translations, t.language = "de" ∧
        ((serve ⟨"GET", "/api/v1/movies/2?language=de", [], ""⟩).run y).1 =
          .json 200 [("content-language", "de")] (inFull.publishedIn s 2 t).json) ∧
      (∃ record, inFull.prepare s = .ok record ∧ addition? newMovieAgain = some record.sorted) ∧
      ((serve newMovieAgain).run y).1.status = 201 := by
  dsimp only
  have hreads := respond_reads_back .sqlite Settings.standard [newMovie "Heat"] [newMovie "Brazil"]
    creates_newMovieInFull
  dsimp only at hreads
  have hid : ((([newMovie "Heat"].mapM (respond (Database.catalog Dialect.sqlite.engine) Settings.standard)).run
      .empty).2.store.get .movie).nextId .root = 2 := by decide +kernel
  rw [hid] at hreads
  have hstatus : ((respond (Database.catalog Dialect.sqlite.engine) Settings.standard newMovieInFull).run
      (([newMovie "Heat"].mapM (respond (Database.catalog Dialect.sqlite.engine) Settings.standard)).run
        .empty).2).1.status = 201 := by
    have h := Dialect.sqlite.faithful_engine
    have hx := (run_requests h Settings.standard (Database.has_empty _) [newMovie "Heat"]).1
    obtain ⟨record, hadd⟩ : ∃ record, taken? Engine.sqlite newMovieInFull = some record :=
      Option.isSome_iff_exists.mp (by rw [taken?_sqlite]; decide +kernel)
    rw [(hx.respond_add h Settings.standard hadd).1]
    rfl
  have hany : Fetches ⟨"GET", "/api/v1/movies/2?language=*", [], ""⟩ .movie 2 "*" := by
    refine ⟨rfl, ⟨"movies", "2", "movies", "2", ?_, ?_, ?_, rfl, ?_⟩, ?_⟩ <;> decide +kernel
  have hone : Fetches ⟨"GET", "/api/v1/movies/2?language=de", [], ""⟩ .movie 2 "de" := by
    refine ⟨rfl, ⟨"movies", "2", "movies", "2", ?_, ?_, ?_, rfl, ?_⟩, ?_⟩ <;> decide +kernel
  obtain ⟨-, hreadAny, hreadOne, record, hrecord, hagain, -⟩ := hreads hstatus
  have hoben : ⟨"de", ⟨[("name", .str "Oben")], by decide⟩⟩ ∈ inFull.translations := by simp [inFull]
  obtain ⟨hadds, hcreated⟩ := hagain _ (sends_newMovieAgain 2)
  exact ⟨hstatus, hreadAny _ hany, ⟨_, hoben, rfl, hreadOne _ hoben _ hone⟩, ⟨record, hrecord, hadds⟩, hcreated⟩

end Example

end Service

end MediaCatalog
