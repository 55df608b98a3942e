import MediaCatalog.Connection
import MediaCatalog.Proofs.Service.Runs

namespace MediaCatalog

open Sql

-- Tables in which every entry is whole.
structure Tables.IsKept {κ : Type} (e : Engine κ) (s : Schema) (t : Tables κ) : Prop where
  translated : ∀ r ∈ t.roots, ∃ u ∈ t.translations, u.get e s.kind.foreignKey = e.store (.int r.id)
  owned      : ∀ u ∈ t.translations, ∃ r ∈ t.roots, u.get e s.kind.foreignKey = e.store (.int r.id)
  tags       : ∀ u ∈ t.translations, ∃ language,
    u.get e "language" = e.store (.text language) ∧ LanguageTag.isValid language
  languages  : t.translations.Pairwise fun u v =>
    u.get e s.kind.foreignKey = v.get e s.kind.foreignKey → ∀ a b,
      u.get e "language" = e.store (.text a) → v.get e "language" = e.store (.text b) →
        Text.lower a ≠ Text.lower b
  named      : ∀ u ∈ t.translations, ∃ name,
    u.get e "name" = e.store (.text name) ∧ ∃ c ∈ name.toList, !Text.isBlank c
  typed      : ∀ f ∈ s.fields, ∀ r ∈ t.rows f.owner, ∃ v : Value,
    r.get e f.column = e.store v ∧ v.Suits f.type
  declared   : ∀ o, ∀ r ∈ t.rows o, (r.columns.map (·.1)).Nodup ∧
    ∀ c ∈ r.columns, c.1 ∈ s.columnNames o

namespace Tables.Keeps

variable {κ : Type} {e : Engine κ} {fits : FieldType → κ → Prop} {k : Kind} {t : Tables κ} {rs : Records}
  (h : e.Faithful fits) (ht : t.Keeps e rs) (hr : rs.Sound (Schema.registered k))

include h ht hr

-- Tables that are made of records are kept well.
theorem isKept : t.IsKept e (Schema.registered k) := by
  have hs := Schema.isUsable_registered k
  have hkey {x : Int × Record} (hx : x ∈ rs) : x.2.kind = (Schema.registered k).kind :=
    (hr.isOf x hx).kind
  have hne := foreignKey_ne (Schema.registered k).kind
  refine ⟨?translated, (ht.isSound h hs hr).owned, ?tags, pairwise_language h ht hr, ?named, ?typed, ?declared⟩
  case translated =>
    intro r hm
    obtain ⟨x, hx, rfl⟩ := ht.mem_roots.mp hm
    have ⟨v, vs, hv⟩ := List.exists_cons_of_ne_nil (hr.isOf x hx).translated
    have hrow : (Insert.translation x.2.kind x.1 v).held e ∈ t.translations.map (·.columns) := by
      rw [ht.translations]
      exact List.mem_flatMap.mpr ⟨x, hx, List.mem_map.mpr ⟨v, by simp [hv], rfl⟩⟩
    obtain ⟨u, hu, hcs⟩ := List.mem_map.mp hrow
    refine ⟨u, hu, ?_⟩
    rw [StoredRow.get_eq_columnOf hne.1, hcs, ← hkey hx, columnOf_key]
  case tags =>
    intro u hu
    have ⟨x, hx, v, hv, hcs⟩ := ht.exists_of_mem hu
    refine ⟨v.language, ?_, (hr.isOf x hx).tags v hv⟩
    rw [StoredRow.get_eq_columnOf (by decide), hcs, columnOf_language]
  case named =>
    intro u hu
    have ⟨x, hx, v, hv, hcs⟩ := ht.exists_of_mem hu
    have hf : Schema.field .translation "name" .text ∈ (Schema.registered k).translationFields := by
      cases k <;> decide
    have ⟨name, hname, hblank⟩ := (hr.isOf x hx).named v hv _ hf rfl
    refine ⟨name, ?_, by simpa [Text.isAllBlank] using hblank⟩
    rw [StoredRow.get_eq_columnOf (by decide), hcs, ← hname]
    exact columnOf_translation hs (hr.isOf x hx) hv hf
  case typed =>
    intro f hf r hm
    rw [StoredRow.get_eq_columnOf (column_ne_id hs hf)]
    cases ho : f.owner with
    | root =>
      have hmem := Schema.mem_rootFields.mpr ⟨hf, ho⟩
      rw [ho] at hm
      obtain ⟨x, hx, rfl⟩ := ht.mem_roots.mp hm
      exact ⟨_, columnOf_root hs (hr.isOf x hx), (hr.isOf x hx).root.suits f hmem⟩
    | translation =>
      have hmem := Schema.mem_translationFields.mpr ⟨hf, ho⟩
      rw [ho] at hm
      have ⟨x, hx, v, hv, hcs⟩ := ht.exists_of_mem hm
      rw [hcs]
      exact ⟨_, columnOf_translation hs (hr.isOf x hx) hv hmem, ((hr.isOf x hx).columns v hv).suits f hmem⟩
  case declared =>
    intro o r hm
    have hnames : (r.columns.map (·.1)).Sublist ((Schema.registered k).columnNames o) := by
      cases o with
      | root =>
        obtain ⟨x, hx, rfl⟩ := ht.mem_roots.mp hm
        exact Insert.names_held e _ ▸ names_root (hr.isOf x hx)
      | translation =>
        have ⟨x, hx, v, hv, hcs⟩ := ht.exists_of_mem hm
        rw [hcs, Insert.names_held]
        exact names_translation (hr.isOf x hx) _ hv
    exact ⟨(nodup_columnNames hs o).sublist hnames, fun c hc => hnames.subset (List.mem_map_of_mem hc)⟩

end Tables.Keeps

namespace Database

variable {κ : Type}

-- The tables are made before any entry is.
theorem createTables_eq (isWritable : Bool) (d : Database κ) :
    ((ExceptT.run (createTables isWritable)).run d).2 = d := by
  let make (definition : Definition) : Run (Database κ) Unit := do
    connect definition.failure id
    if !isWritable then
      throw (failure definition.failure
        "error returned from database: (code: 8) attempt to write a readonly database")
  have hmake (definition : Definition) :
      (make definition).Ends (· = d) (fun _ => (· = d)) (fun _ => (· = d)) := by
    have hconnect : (connect definition.failure id).Ends (· = d) (fun _ => (· = d)) (fun _ => (· = d)) := by
      refine ⟨fun x hx => ?_⟩
      rw [connect, Run.run_get_bind]
      cases x.isOpen <;> exact hx
    refine hconnect.bind fun _ => ?_
    cases isWritable
    case false => exact .throw fun _ hx => hx
    case true => exact .pure fun _ hx => hx
  have hall (definitions : List Definition) :
      (definitions.forM make).Ends (· = d) (fun _ => (· = d)) (fun _ => (· = d)) := by
    induction definitions with
    | nil => exact .pure fun _ hx => hx
    | cons definition definitions ih => exact (hmake definition).bind fun _ => ih
  have hend := (hall (Definition.all .sqlite)).run d rfl
  change ((ExceptT.run ((Definition.all .sqlite).forM make)).run d).2 = d
  generalize StateT.run _ d = out at hend ⊢
  obtain ⟨_ | _, _⟩ := out <;> exact hend

-- A service starts with tables that are empty.
theorem eq_empty_of_ofConfig {config : Config} {d : Database κ} (h : ofConfig config = .ok d) : d = empty := by
  simp only [ofConfig, Except.bind_eq_ok] at h
  obtain ⟨_, _, c, _, h⟩ := h
  rw [Connection.openDatabase] at h
  split at h
  case h_1 => cases h
  case h_2 =>
    split at h
    case h_2 => cases h
    case h_1 l _ =>
      by_cases hl : (!(l.isMemory && l.hasLayer)) = true
      case pos =>
        rw [if_pos hl] at h
        cases h
      case neg =>
        rw [if_neg hl] at h
        have htables : (ExceptT.run (createTables !l.isReadOnly) empty).2 = (empty : Database κ) :=
          createTables_eq _ _
        generalize ExceptT.run (createTables !l.isReadOnly) empty = out at h htables
        obtain ⟨made, d'⟩ := out
        obtain ⟨_, _, hd⟩ := Except.bind_eq_ok.mp h
        exact (Except.pure_eq_ok.mp hd).symm.trans htables

end Database

namespace Service

open Http

-- Whatever requests have been served, every entry is whole, and the entries of a kind have the numbers from one
-- on, in the order in which their creation was answered by 201.
theorem isKept_of_requests {config : Config} {d : Database Engine.Cell} (hd : Database.ofConfig config = .ok d)
    (settings : Settings) (rs : List Request) (k : Kind) :
    let out := (rs.mapM (respond (Database.catalog Engine.sqlite) settings)).run d
    (out.2.store.get k).IsKept Engine.sqlite (Schema.registered k) ∧
      ∃ n, (out.2.store.get k).roots.map (·.id) = (List.range n).map (fun i : Nat => (i : Int) + 1) ∧
        (successes k rs out.1).map (fun a => a.headers.lookup "location") =
          (List.range n).map fun i : Nat => some ("/api/v1/" ++ k.path ++ "/" ++ Text.decimal (i + 1)) := by
  cases Database.eq_empty_of_ofConfig hd
  have h := Engine.sqlite_faithful
  have ⟨hhas, hsuccesses⟩ := run_requests h settings (Database.has_empty Engine.sqlite) rs
  dsimp only
  generalize (rs.mapM (respond (Database.catalog Engine.sqlite) settings)).run .empty = out at hhas hsuccesses ⊢
  generalize (rs.filterMap (taken? Engine.sqlite)).foldl Contents.add (fun _ => []) = c at hhas hsuccesses
  refine ⟨(hhas.keeps k).isKept h (hhas.sound k), (c k).length, ?_, ?_⟩
  · rw [(hhas.keeps k).map_id_roots, hhas.numbered]
  · have ⟨added, hadded, hanswers⟩ := hsuccesses k
    rw [List.nil_append] at hadded
    subst hadded
    have hlocation := congrArg (List.map fun id : Int =>
      some ("/api/v1/" ++ k.path ++ "/" ++ Text.decimal id)) (hhas.numbered k)
    rw [List.map_map, List.map_map] at hlocation
    rw [hanswers, List.map_map]
    exact hlocation

-- A request for the creation of a movie.
def postMovie (body : String) : Request :=
  ⟨"POST", "/api/v1/movies", [("content-type", "application/json")], body⟩

-- A request for the creation of a movie, whose only translation may be without a name.
def newMovie (name : String) : Request :=
  postMovie ("\x7b\"age_rating\":7,\"translations\":[\x7b\"language\":\"en\",\"name\":\"" ++ name ++ "\"\x7d]\x7d")

-- A request for the creation of a movie with a date, a list and two translations, which are not in order.
def newMovieInFull : Request :=
  postMovie ("\x7b\"genres\":[\"Animation\",\"Adventure\"],\"release_date\":\"2009-5-28\",\"translations\":[" ++
    "\x7b\"language\":\"en\",\"name\":\"Up\"\x7d,\x7b\"language\":\"de\",\"name\":\"Oben\"\x7d]\x7d")

theorem isKept_of_requests_three :
    let rs := [newMovie "Up", newMovie " ", newMovie "Heat"]
    let out := (rs.mapM (respond (Database.catalog Engine.sqlite) Settings.standard)).run .empty
    (Database.ofConfig Config.standard : Except Fault (Database Engine.Cell)) = .ok .empty ∧
      (rs.filterMap addition?).length = 2 ∧
      (out.2.store.get .movie).IsKept Engine.sqlite (Schema.registered .movie) ∧
      ∃ n, (out.2.store.get .movie).roots.map (·.id) = (List.range n).map (fun i : Nat => (i : Int) + 1) ∧
        (successes .movie rs out.1).map (fun a => a.headers.lookup "location") =
          (List.range n).map fun i : Nat => some ("/api/v1/" ++ Kind.movie.path ++ "/" ++ Text.decimal (i + 1)) :=
  have hd : (Database.ofConfig Config.standard : Except Fault (Database Engine.Cell)) = .ok .empty := by rfl
  ⟨hd, by decide +kernel, isKept_of_requests hd Settings.standard _ .movie⟩

end Service

end MediaCatalog
