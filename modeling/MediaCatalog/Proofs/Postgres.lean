import MediaCatalog.Postgres.Script
import MediaCatalog.Proofs.Catalog.Keeper
import MediaCatalog.Proofs.Sql.Token
import MediaCatalog.Proofs.Text.Affix

namespace MediaCatalog

namespace Postgres

open Sql

namespace Answer

-- What a server that returns what was bound answers about an entry and one of its translations.
def returned (id : Int) (root translation : Insert) : Answer :=
  ("id", .int id) :: (root.held .postgres ++ translation.held .postgres)

variable {s : Schema} (hs : s.IsUsable) {r : Record} (hr : r.IsOf s) {u : LocalRecord}
  (hu : u ∈ r.translations) (id : Int)

theorem get_eq_columnOf (a : Answer) (column : String) : a.get column = columnOf Engine.postgres a column :=
  rfl

include hs hr hu

theorem get_root {f : Field} (hf : f ∈ s.rootFields) :
    (returned id (.root r) (.translation r.kind id u)).get f.column = r.root.value f.column := by
  have ⟨hmem, ho⟩ := Schema.mem_rootFields.mp hf
  have hout : f.column ∉ ((Insert.translation r.kind id u).held .postgres).map (·.1) := by
    rw [Insert.names_held]
    exact fun hm => column_not_mem hs hmem (by simp [ho]) ((names_translation hr _ hu).subset hm)
  rw [get_eq_columnOf, returned, columnOf_cons_of_ne _ (column_ne_id hs hmem), columnOf_append_left hout,
    columnOf_root hs hr]
  rfl

theorem get_translation {f : Field} (hf : f ∈ s.translationFields) :
    (returned id (.root r) (.translation r.kind id u)).get f.column = u.columns.value f.column := by
  have ⟨hmem, ho⟩ := Schema.mem_translationFields.mp hf
  have hout : f.column ∉ ((Insert.root r).held .postgres).map (·.1) := by
    rw [Insert.names_held]
    exact fun hm => column_not_mem hs hmem (by simp [ho]) ((names_root hr).subset hm)
  rw [get_eq_columnOf, returned, columnOf_cons_of_ne _ (column_ne_id hs hmem), columnOf_append_right hout,
    columnOf_translation hs hr hu hf]
  rfl

omit hu in
theorem get_language : (returned id (.root r) (.translation r.kind id u)).get "language" = .text u.language := by
  have hout : "language" ∉ ((Insert.root r).held .postgres).map (·.1) := by
    rw [Insert.names_held]
    intro hm
    obtain ⟨f, hf, heq⟩ := List.mem_map.mp ((names_root hr).subset hm)
    exact (hs.sound.column_ne (Schema.mem_rootFields.mp hf).1).2 heq
  rw [get_eq_columnOf, returned, columnOf_cons_of_ne _ (by decide), columnOf_append_right hout, columnOf_language]
  rfl

-- The row shows the entry and its translation.
theorem row_returned : (returned id (.root r) (.translation r.kind id u)).row s =
    .ok ⟨id, Field.shown s.rootFields r.root, u.language, Field.shown s.translationFields u.columns⟩ := by
  have h := Engine.postgres_faithful
  have hid : (returned id (.root r) (.translation r.kind id u)).get "id" = .int id := by
    rw [get_eq_columnOf, returned, columnOf_cons_self]
  have hroot : (returned id (.root r) (.translation r.kind id u)).shown s.rootFields =
      Field.shown s.rootFields r.root := by
    rw [shown, Field.shown]
    refine congrArg _ (List.map_congr_left fun f hf => ?_)
    rw [get_root hs hr hu id hf]
    exact congrArg _ (h.load_store (hr.root.suits f hf).isOf)
  have htranslation : (returned id (.root r) (.translation r.kind id u)).shown s.translationFields =
      Field.shown s.translationFields u.columns := by
    rw [shown, Field.shown]
    refine congrArg _ (List.map_congr_left fun f hf => ?_)
    rw [get_translation hs hr hu id hf]
    exact congrArg _ (h.load_store ((hr.columns u hu).suits f hf).isOf)
  rw [row, int, text, hid, get_language hs hr id, hroot, htranslation]
  rfl

end Answer

-- A server that holds a record under a number and returns what was bound, to whoever asks in a language.
def holding (id : Int) (r : Record) (l : Language) : Script where
  newId := id
  total := 0
  window := []
  rows := (r.restrict l).sorted.translations.map fun u => Answer.returned id (.root r) (.translation r.kind id u)
  failOn := none

section Statements

variable (script : Script)

-- A new entry is told its number.
theorem answer_insertRoot (r : Record) :
    script.answer ((Insert.root r).statement .postgres).text = [[("id", .int script.newId)]] := by
  have htext : ∃ s, ((Insert.root r).statement .postgres).text = s ++ " RETURNING id" := by
    rw [Insert.statement, Phrase.statement, Insert.phrase, Phrase.text_append]
    exact ⟨_, rfl⟩
  obtain ⟨s, hs⟩ := htext
  have hends : Text.endsWith " RETURNING id" " RETURNING id" = true := by decide
  rw [hs, Script.answer, Text.endsWith_append s (by decide), if_pos hends]

-- What a projection starts with.
def selection (k : Kind) : String :=
  let shown := String.intercalate ", "
    ((Projection.mk (Schema.registered k) []).columns.map fun c => c.text ++ " AS " ++ c.name)
  "SELECT " ++ shown ++ " FROM " ++ source k ++ " WHERE "

-- What a projection ends with.
def ordering : String :=
  " ORDER BY r.id ASC, t.language ASC"

theorem text_projection (k : Kind) (p : Predicate) :
    ((Projection.mk (Schema.registered k) p).statement .postgres).text =
      selection k ++ (Phrase.text .postgres 1 (p.phrase .postgres) ++ ordering) := by
  have hkind : (Projection.mk (Schema.registered k) p).schema.kind = k := Schema.kind_registered k
  have hlast (n : Nat) : Phrase.text .postgres n [.text ordering] = ordering :=
    String.append_empty
  rw [Projection.statement, Phrase.statement, Projection.phrase, List.cons_append, Phrase.text,
    Phrase.text_append, hkind]
  exact congrArg (fun s => selection k ++ (Phrase.text .postgres 1 (p.phrase .postgres) ++ s)) (hlast _)

-- What a statement that asks for whole entries is answered with.
theorem answer_rows {s t u : String} (hs : Text.startsWith "SELECT r.id AS id" s = true)
    (hlength : " RETURNING id".toList.length ≤ u.toList.length) (hu : Text.endsWith " RETURNING id" u = false) :
    script.answer (s ++ (t ++ u)) = script.rows := by
  obtain ⟨v, rfl⟩ := Text.exists_of_startsWith hs
  have hends (s : String) : Text.endsWith " RETURNING id" (s ++ u) = false :=
    (Text.endsWith_append s hlength).trans hu
  have hcount (s : String) : Text.startsWith "SELECT COUNT" ("SELECT r.id AS id" ++ s) = false :=
    (Text.startsWith_append s (by decide)).trans (by decide)
  have hwindow (s : String) : Text.startsWith "SELECT r.id FROM" ("SELECT r.id AS id" ++ s) = false :=
    (Text.startsWith_append s (by decide)).trans (by decide)
  have hrows (s : String) : Text.startsWith "SELECT r.id AS id" ("SELECT r.id AS id" ++ s) = true :=
    (Text.startsWith_append s (by decide)).trans (by decide)
  rw [← String.append_assoc, Script.answer, hends, String.append_assoc, String.append_assoc, hcount, hwindow,
    hrows]
  rfl

-- The first column of a projection is the number of the entry.
theorem startsWith_selection (k : Kind) : Text.startsWith "SELECT r.id AS id" (selection k) = true := by
  obtain ⟨names, hnames⟩ : ∃ names, ((Projection.mk (Schema.registered k) []).columns.map
      fun c => c.text ++ " AS " ++ c.name) = "r.id AS id" :: names :=
    ⟨_, List.cons_eq_cons.mpr ⟨by decide, rfl⟩⟩
  obtain ⟨others, hothers⟩ := Text.exists_intercalate_cons ", " "r.id AS id" names
  have hstart : "SELECT " ++ "r.id AS id" = "SELECT r.id AS id" := by decide
  simp only [selection, hnames, hothers, ← String.append_assoc, hstart]
  simp only [String.append_assoc, Text.startsWith_append_self]

-- An entry is answered with its rows.
theorem answer_projection (k : Kind) (p : Predicate) :
    script.answer ((Projection.mk (Schema.registered k) p).statement .postgres).text = script.rows := by
  rw [text_projection]
  exact answer_rows script (startsWith_selection k) (by decide) (by decide)

end Statements

section Steps

variable {σ α β : Type}

-- What is done gives a result, whatever has been done before.
def Gives (m : Run σ α) (a : α) : Prop :=
  m.Gives (fun _ => True) (· = a) fun _ => True

namespace Gives

theorem pure (a : α) : Gives (Pure.pure a : Run σ α) a :=
  Run.Gives.pure rfl

theorem bind {m : Run σ α} {f : α → Run σ β} {a : α} {b : β} (hm : Gives m a) (hf : Gives (f a) b) :
    Gives (m >>= f) b :=
  Run.Gives.bind hm fun _ h => h ▸ hf

theorem ofExcept {x : Except Fault α} {a : α} (h : x = .ok a) :
    Gives (liftM x : ExceptT Fault (StateM σ) α) a := by
  subst h
  exact pure a

-- Each of several things is done.
theorem forM {as : List α} {f : α → Run σ Unit} (hf : ∀ a ∈ as, Gives (f a) ()) : Gives (as.forM f) () := by
  induction as with
  | nil => exact pure ()
  | cons a as ih =>
    have ⟨ha, has⟩ := List.forall_mem_cons.mp hf
    exact ha.bind (ih has)

-- Each of several things is done and gives its own result.
theorem mapM {as : List α} {bs : List β} {f : α → Run σ β} (h : List.Forall₂ (fun a b => Gives (f a) b) as bs) :
    Gives (as.mapM f) bs := by
  induction h with
  | nil => exact pure []
  | cons hab _ ih =>
    rw [List.mapM_cons]
    exact hab.bind (ih.bind (pure _))

end Gives

section Catalog

variable {c : Catalog σ} {k : Kind} {id : Int}

-- An entry is made of the rows that are read of it.
theorem gives_findEntry {l : Language} {rows : List Row} (hstart : Gives c.reader.start ())
    (hrows : Gives (c.reader.rows ⟨Schema.registered k, l.predicate ++ [Search.among [id]]⟩) rows)
    (hfinish : Gives c.reader.finish ()) : Gives (c.findEntry k l id) (Row.assemble [id] rows).head? := by
  refine (Gives.ofExcept (Keeper.projection_entry k l id)).bind ?_
  exact hstart.bind (hrows.bind (hfinish.bind (.pure _)))

-- A record is written and then read.
theorem gives_create {d : Draft} {r : Record} {e : Entry} (hd : d.prepare (Schema.registered k) = .ok r)
    (hstart : Gives c.writer.start ()) (hroot : Gives (c.writer.insertRoot (.root r)) id)
    (htranslation : ∀ u ∈ r.translations, Gives (c.writer.insertTranslation (.translation r.kind id u)) ())
    (hcommit : Gives c.writer.commit ()) (hfind : Gives (c.findEntry k .any id) (some e)) :
    Gives (c.create k d) e := by
  have hwrite : Gives (r.write c.writer) id :=
    hstart.bind (hroot.bind ((Gives.forM htranslation).bind (hcommit.bind (.pure id))))
  have hinsert : Gives (r.insert c.writer) id := by
    intro x _
    have ⟨_, y, hrun, rfl, _⟩ := hwrite x trivial
    have hrun : r.write c.writer x = (.ok id, y) := hrun
    refine ⟨id, y, ?_, rfl, trivial⟩
    change r.insert c.writer x = _
    rw [Record.insert, hrun]
  rw [Catalog.create, Draft.createEntry, Draft.create, hd]
  exact Gives.bind hinsert (hfind.bind (.pure e))

end Catalog

variable {script : Script} (hs : script.failOn = none)

include hs

theorem gives_run (failure : String) (s : Statement) :
    Gives (run script.server failure s) (script.answer s.text) := by
  intro log _
  have hserver : script.server.run s log = (.ok (script.answer s.text), log ++ [s]) := by
    simp only [Script.server, hs, Option.any_none]
    rfl
  have hrun : run script.server failure s log = (.ok (script.answer s.text), log ++ [s]) := by
    rw [run]
    change Prod.map _ id (script.server.run s log) = _
    rw [hserver]
    rfl
  exact ⟨_, _, hrun, rfl, trivial⟩

theorem gives_command (failure text : String) : Gives (command script.server failure text) () :=
  (gives_run hs failure _).bind (.pure ())

theorem gives_number {failure column : String} {s : Statement} {n : Int}
    (ha : script.answer s.text = [[(column, .int n)]]) : Gives (number script.server failure column s) n := by
  refine (gives_run hs failure s).bind ?_
  rw [ha]
  refine .ofExcept ?_
  simp [Answer.int, Answer.get]

end Steps

section Entries

variable {id : Int} {k : Kind} {r : Record} {l : Language}

-- The rows of an entry.
def rowsOf (s : Schema) (id : Int) (r : Record) : List Row :=
  r.sorted.translations.map fun u =>
    ⟨id, Field.shown s.rootFields r.root, u.language, Field.shown s.translationFields u.columns⟩

theorem assemble_rowsOf {s : Schema} (hr : r.translations ≠ []) :
    (Row.assemble [id] (rowsOf s id r)).head? = some (r.entry s id) := by
  have hsorted : r.sorted.translations ≠ [] := fun hnil => hr (List.nil_perm.mp (hnil ▸ List.mergeSort_perm ..))
  have hfilter : (rowsOf s id r).filter (·.id = id) = rowsOf s id r := by
    refine List.filter_eq_self.mpr fun row hrow => ?_
    obtain ⟨u, _, rfl⟩ := List.mem_map.mp hrow
    exact decide_eq_true rfl
  have hentry : Row.entryOf? (rowsOf s id r) = some (r.entry s id) := by
    rw [rowsOf, Record.entry]
    generalize r.sorted.translations = us at hsorted
    obtain ⟨u, us, rfl⟩ := List.exists_cons_of_ne_nil hsorted
    simp [Row.entryOf?]
  have hassemble : Row.assemble [id] (rowsOf s id r) = [id].filterMap fun id =>
      Row.entryOf? ((rowsOf s id r).filter (·.id = id)) := rfl
  rw [hassemble, List.filterMap_cons_some (by rw [hfilter, hentry]), List.head?_cons]

variable (hr : r.IsOf (Schema.registered k))

include hr

theorem gives_rows (p : Predicate) :
    Gives ((reader (holding id r l).server).rows ⟨Schema.registered k, p⟩)
      (rowsOf (Schema.registered k) id (r.restrict l)) := by
  refine (gives_run rfl _ _).bind ?_
  rw [answer_projection]
  refine .mapM ?_
  simp only [holding, rowsOf, List.forall₂_map_left_iff, List.forall₂_map_right_iff, List.forall₂_same]
  intro u hu
  have hu : u ∈ (r.restrict l).translations := (List.mergeSort_perm ..).mem_iff.mp hu
  exact .ofExcept (Answer.row_returned (Schema.isUsable_registered k) hr (List.mem_of_mem_filter hu) id)

-- An entry is read as its record shows it.
theorem gives_findEntry_holding (hl : (r.restrict l).translations ≠ []) :
    Gives ((catalog (holding id r l).server).findEntry k l id)
      (some ((r.restrict l).entry (Schema.registered k) id)) := by
  rw [← assemble_rowsOf hl]
  exact gives_findEntry ((gives_command rfl _ _).bind (gives_command rfl _ _)) (gives_rows hr _)
    (gives_command rfl _ _)

omit hr in
-- The entry that is created is the one that the draft says.
theorem gives_create_holding {d : Draft} (hd : d.prepare (Schema.registered k) = .ok r) :
    Gives ((catalog (holding id r .any).server).create k d) (d.published (Schema.registered k) id) := by
  have hs := Schema.isUsable_registered k
  have hr := Draft.isOf_of_prepare hs hd
  have hfind : Gives ((catalog (holding id r .any).server).findEntry k .any id)
      (some ((r.restrict .any).entry (Schema.registered k) id)) :=
    gives_findEntry_holding hr (by rw [Record.restrict_any]; exact hr.translated)
  rw [Record.restrict_any, Draft.entry_eq_published hs hd] at hfind
  refine gives_create hd (gives_command rfl _ _) ?_ (fun u _ => (gives_run rfl _ _).bind (.pure ()))
    (gives_command rfl _ _) hfind
  exact gives_number rfl (answer_insertRoot _ r)

end Entries

end Postgres

end MediaCatalog
