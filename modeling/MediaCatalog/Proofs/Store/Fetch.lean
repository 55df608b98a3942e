import MediaCatalog.Proofs.Store.Content

namespace MediaCatalog

open Sql

-- Whether a translation in some language is asked for.
def Language.admits : Language → String → Bool
  | any,   _ => true
  | tag t, s => s = t

-- A record with those of its translations that are asked for.
def Record.restrict (l : Language) (r : Record) : Record :=
  { r with translations := r.translations.filter fun u => l.admits u.language }

theorem Record.restrict_any (r : Record) : r.restrict .any = r := by
  simp [restrict, Language.admits]

section Restriction

variable {s : Schema} {r : Record} {u : LocalRecord}

-- A language is that of one translation alone.
theorem Record.IsOf.restrict_tag (hr : r.IsOf s) (hu : u ∈ r.translations) :
    (r.restrict (.tag u.language)).translations = [u] := by
  have hlanguages : (r.translations.map (·.language)).Nodup := by
    refine List.Nodup.of_map Text.lower ?_
    rw [List.map_map]
    exact hr.languages
  have hsame : ∀ v ∈ r.translations, (Language.tag u.language).admits v.language = (v == u) := by
    intro v hv
    rw [Language.admits, Bool.eq_iff_iff, decide_eq_true_eq, beq_iff_eq]
    exact ⟨List.inj_on_of_nodup_map hlanguages hv hu, congrArg _⟩
  rw [Record.restrict]
  exact (List.filter_congr hsame).trans ((List.filter_beq (a := u)).trans (by
    rw [List.count_eq_one_of_mem (List.Nodup.of_map _ hlanguages) hu, List.replicate_one]))

-- In the language of a translation this translation is shown and no other.
theorem Record.IsOf.entry_restrict_tag {id : Int} (hr : r.IsOf s) (hu : u ∈ r.translations) :
    (r.restrict (.tag u.language)).entry s id =
      { r.entry s id with translations := [⟨u.language, Field.shown s.translationFields u.columns⟩] } := by
  rw [entry, sorted, hr.restrict_tag hu, List.mergeSort_singleton]
  rfl

-- The value of a field, which is the entry's own or that of one of its translations.
def Record.valueOf (r : Record) (u : LocalRecord) (f : Field) : Value :=
  match f.owner with
  | .root        => r.root.value f.column
  | .translation => u.columns.value f.column

end Restriction

-- The only item that a search is for is found.
theorem find?_eq_some_of_unique {α : Type} {p : α → Bool} {as : List α} {a : α} (ha : a ∈ as) (hp : p a)
    (hu : ∀ b ∈ as, p b → b = a) : as.find? p = some a := by
  cases hf : as.find? p with
  | none => exact absurd hp (List.find?_eq_none.mp hf a ha)
  | some b => rw [hu b (List.mem_of_find?_eq_some hf) (List.find?_some hf)]

namespace Records

-- The entry of a number, if a translation of it is asked for.
def fetch? (s : Schema) (l : Language) (rs : Records) (id : Int) : Option Entry :=
  (rs.find? fun x => (x.2.restrict l).translations ≠ [] ∧ x.1 = id).map fun x =>
    (x.2.restrict l).entry s x.1

theorem Sound.nodup {s : Schema} {rs : Records} (hr : rs.Sound s) : rs.Nodup :=
  List.Nodup.of_map _ hr.ids

-- Every record is found under its number in each language that it has.
theorem fetch?_of_mem {s : Schema} {l : Language} {rs : Records} {x : Int × Record} (hr : rs.Sound s) (hx : x ∈ rs)
    (hl : (x.2.restrict l).translations ≠ []) : rs.fetch? s l x.1 = some ((x.2.restrict l).entry s x.1) := by
  rw [fetch?, find?_eq_some_of_unique hx (by simp [hl])]
  · rfl
  · intro y hy hp
    exact List.inj_on_of_nodup_map hr.ids hy hx (of_decide_eq_true hp).2

end Records

variable {κ : Type} {e : Engine κ} {fits : FieldType → κ → Prop} {s : Schema} {t : Tables κ}

section Assembled

variable (h : e.Lawful fits) (hs : s.IsSound) (hc : (s.fields.map (·.column)).Nodup)
  (ht : t.IsSound e fits s)

include h hs hc ht

-- The rows of a single entry make up that entry, or nothing if none of its rows passes.
theorem Search.head?_assemble {p : Predicate} {id : Int} {rows : List Row}
    (hrows : Projection.Answers e t ⟨s, p ++ [among [id]]⟩ rows) :
    (Row.assemble [id] rows).head? =
      ((t.found e s.kind p).find? (·.id = id)).map (t.entryOf e s p) := by
  cases hf : (t.found e s.kind p).find? (·.id = id) with
  | some r =>
    have hid : r.id = id := by simpa using List.find?_some hf
    have hfound := List.mem_of_find?_eq_some hf
    subst hid
    have hrs : ∀ x ∈ [r], x ∈ t.found e s.kind p := by simpa using hfound
    have := assemble_rows (s := ⟨s, ∅, .any⟩) h ht hs hc hrs (by simp) hrows
    rw [List.map_singleton, List.map_singleton] at this
    rw [this]
    rfl
  | none =>
    have hnone := List.find?_eq_none.mp hf
    obtain ⟨js, hperm, _, rfl⟩ := hrows
    have hnil : js = [] := by
      rw [List.eq_nil_iff_forall_not_mem]
      intro j hj
      have hj := hperm.mem_iff.mp hj
      rw [selected_among h, List.mem_filter, decide_eq_true_eq, List.mem_singleton] at hj
      have ⟨r, hr, hm⟩ := Tables.mem_selected.mp hj.1
      have hroot := (Tables.mem_matching.mp hm).1
      refine hnone r (Tables.mem_found.mpr ⟨hr, List.ne_nil_of_mem hm⟩) ?_
      rw [decide_eq_true_eq, ← hj.2, hroot]
    subst hnil
    rfl

end Assembled

-- Where one item alone has something, it has everything.
theorem flatMap_eq_of_unique {α β : Type} {f : α → List β} {as : List α} (hn : as.Nodup) {a : α}
    (ha : a ∈ as) (hf : ∀ b ∈ as, b ≠ a → f b = []) : as.flatMap f = f a := by
  induction as with
  | nil => cases ha
  | cons b bs ih =>
    have ⟨hfresh, hn⟩ := List.nodup_cons.mp hn
    cases ha with
    | head =>
      have hrest : bs.flatMap f = [] := by
        rw [List.flatMap_eq_nil_iff]
        exact fun c hc => hf c (by simp [hc]) fun heq => hfresh (heq ▸ hc)
      rw [List.flatMap_cons, hrest, List.append_nil]
    | tail _ ha =>
      have hb : f b = [] := hf b (by simp) fun heq => hfresh (heq ▸ ha)
      rw [List.flatMap_cons, hb, List.nil_append, ih hn ha fun c hc => hf c (by simp [hc])]

namespace Tables.Keeps

variable {rs : Records} (h : e.Faithful fits) (hs : s.IsUsable) (ht : t.Keeps e rs) (hr : rs.Sound s)
  {x : Int × Record} (hx : x ∈ rs) (l : Language)

-- The language of a row by its columns.
def languageOf (e : Engine κ) (cs : List (String × κ)) : String :=
  ((e.load .text (columnOf e cs "language")).str?).getD ""

-- Whether a row belongs to the entry of a number and is asked for.
def isAsked (e : Engine κ) (k : Kind) (l : Language) (id : Int) (cs : List (String × κ)) : Bool :=
  e.compare? (columnOf e cs k.foreignKey) (e.store (.int id)) == some .eq && l.admits (languageOf e cs)

section Asked

include h

theorem languageOf_held {k : Kind} {id : Int} {u : LocalRecord} :
    languageOf e ((Insert.translation k id u).held e) = u.language := by
  rw [languageOf, columnOf_language, h.load_text]
  rfl

theorem isAsked_held {k : Kind} {id : Int} {u : LocalRecord} {number : Int} :
    isAsked e k l number ((Insert.translation k id u).held e) = (id == number && l.admits u.language) := by
  rw [isAsked, columnOf_key, languageOf_held h, h.compare_int, Bool.eq_iff_iff]
  simp

theorem holds_predicate {row : Column → κ} {language : String}
    (hl : row Column.language = e.store (.text language)) :
    Predicate.holds e row l.predicate = l.admits language := by
  have hl : row Column.language = e.store (Option.elim (some language) .null .text) := hl
  have htruth := Search.truth_language (s := Search.mk .movie ∅ l) h.toLawful hl
  rw [Bool.eq_iff_iff, Predicate.holds_eq_true, htruth]
  cases l with
  | any => simp [Language.admits]
  | tag t => simp [Language.admits, eq_comm]

end Asked

include h ht hr

-- The translations of an entry are found by its number, and by no other.
theorem columns_matching (hx : x ∈ rs) :
    (matching e s.kind l.predicate t ⟨x.1, (Insert.root x.2).held e⟩).map (·.translation.columns) =
      (x.2.restrict l).translations.map fun u => (Insert.translation x.2.kind x.1 u).held e := by
  have htest : ∀ u ∈ t.translations,
      (e.compare? (u.get e s.kind.foreignKey) (e.store (.int x.1)) == some .eq &&
        Predicate.holds e (JoinedRow.get e ⟨⟨x.1, (Insert.root x.2).held e⟩, u⟩) l.predicate) =
      isAsked e s.kind l x.1 u.columns := by
    intro u hu
    have ⟨y, _, v, _, hcs⟩ := ht.exists_of_mem hu
    have hl : JoinedRow.get e ⟨⟨x.1, (Insert.root x.2).held e⟩, u⟩ Column.language =
        e.store (.text v.language) := by
      rw [← columnOf_language y.2.kind y.1 v, ← hcs]
      exact StoredRow.get_eq_columnOf (by decide)
    rw [holds_predicate h l hl, isAsked, hcs, languageOf_held h, ← hcs,
      StoredRow.get_eq_columnOf (foreignKey_ne s.kind).1]
  have hrows : (matching e s.kind l.predicate t ⟨x.1, (Insert.root x.2).held e⟩).map
      (·.translation.columns) = (t.translations.map (·.columns)).filter (isAsked e s.kind l x.1) := by
    rw [matching, List.filter_map, List.map_map, List.filter_map]
    exact congrArg (List.map _) (List.filter_congr htest)
  have hown : ∀ y ∈ rs,
      (y.2.translations.map fun u => (Insert.translation y.2.kind y.1 u).held e).filter
        (isAsked e s.kind l x.1) =
      (y.2.translations.filter fun u => y.1 == x.1 && l.admits u.language).map fun u =>
        (Insert.translation y.2.kind y.1 u).held e := by
    intro y hy
    rw [List.filter_map, (hr.isOf y hy).kind]
    exact congrArg (List.map _) (List.filter_congr fun u _ => isAsked_held h l)
  rw [hrows, ht.translations, List.filter_flatMap, List.flatMap_congr hown,
    flatMap_eq_of_unique hr.nodup hx]
  · rw [Record.restrict]
    simp
  · intro y hy hne
    have : y.1 ≠ x.1 := fun heq => hne (List.inj_on_of_nodup_map hr.ids hy hx heq)
    simp [this]

section Own

variable {u : LocalRecord} {j : JoinedRow κ}

-- In the language of a translation an entry has the row of this translation.
theorem columns_tag (hx : x ∈ rs) (hu : u ∈ x.2.translations) :
    (matching e s.kind (Language.tag u.language).predicate t ⟨x.1, (Insert.root x.2).held e⟩).map
      (·.translation.columns) = [(Insert.translation x.2.kind x.1 u).held e] := by
  rw [columns_matching h ht hr _ hx, (hr.isOf x hx).restrict_tag hu]
  rfl

include hs in
-- The row holds the values of the entry and of the translation.
theorem get_tag (hx : x ∈ rs) (hu : u ∈ x.2.translations)
    (hj : j ∈ matching e s.kind (Language.tag u.language).predicate t ⟨x.1, (Insert.root x.2).held e⟩)
    {f : Field} (hf : f ∈ s.fields) : j.get e (Column.ofField f) = e.store (x.2.valueOf u f) := by
  have hroot := (mem_matching.mp hj).1
  have hcolumns : j.translation.columns = (Insert.translation x.2.kind x.1 u).held e := by
    have := List.mem_map_of_mem (f := (·.translation.columns)) hj
    rwa [columns_tag h ht hr hx hu, List.mem_singleton] at this
  have hne := column_ne_id hs hf
  rw [Record.valueOf]
  cases ho : f.owner with
  | root =>
    have hget : j.get e (Column.ofField f) = j.root.get e f.column := by simp [JoinedRow.get, Column.ofField, ho]
    rw [hget, hroot, StoredRow.get_eq_columnOf hne, columnOf_root hs (hr.isOf x hx)]
  | translation =>
    have hget : j.get e (Column.ofField f) = j.translation.get e f.column := by
      simp [JoinedRow.get, Column.ofField, ho]
    rw [hget, StoredRow.get_eq_columnOf hne, hcolumns,
      columnOf_translation hs (hr.isOf x hx) hu (Schema.mem_translationFields.mpr ⟨hf, ho⟩)]

end Own

-- An entry is found if a translation of it is asked for.
theorem found_eq : t.found e s.kind l.predicate =
    (rs.filter fun x => !(x.2.restrict l).translations.isEmpty).map fun x =>
      ⟨x.1, (Insert.root x.2).held e⟩ := by
  rw [found, ht.roots, List.filter_map]
  refine congrArg (List.map _) (List.filter_congr fun x hx => ?_)
  have := congrArg List.isEmpty (columns_matching h ht hr l hx)
  rw [List.isEmpty_map, List.isEmpty_map] at this
  rw [Function.comp_apply, this]

include hs

omit ht in
theorem shown_root (hx : x ∈ rs) :
    StoredRow.shown e ⟨x.1, (Insert.root x.2).held e⟩ s.rootFields = Field.shown s.rootFields x.2.root := by
  rw [StoredRow.shown, Field.shown]
  refine congrArg _ (List.map_congr_left fun f hf => ?_)
  have hmem := (Schema.mem_rootFields.mp hf).1
  rw [StoredRow.get_eq_columnOf (column_ne_id hs hmem), columnOf_root hs (hr.isOf x hx),
    h.load_store ((hr.isOf x hx).root.suits f hf).isOf]

omit ht in
-- The columns of a translation are shown as the translation.
theorem shown_translation (hx : x ∈ rs) {v : LocalRecord} (hv : v ∈ x.2.translations) {u : StoredRow κ}
    (hu : u.columns = (Insert.translation x.2.kind x.1 v).held e) :
    u.shown e s.translationFields = Field.shown s.translationFields v.columns := by
  rw [StoredRow.shown, Field.shown]
  refine congrArg _ (List.map_congr_left fun f hf => ?_)
  have hmem := (Schema.mem_translationFields.mp hf).1
  rw [StoredRow.get_eq_columnOf (column_ne_id hs hmem), hu, columnOf_translation hs (hr.isOf x hx) hv hf,
    h.load_store (((hr.isOf x hx).columns v hv).suits f hf).isOf]

-- An entry is read back as its record shows it.
theorem entryOf_eq (hx : x ∈ rs) :
    t.entryOf e s l.predicate ⟨x.1, (Insert.root x.2).held e⟩ = (x.2.restrict l).entry s x.1 := by
  let shown (cs : List (String × κ)) : Translation :=
    ⟨languageOf e cs, StoredRow.shown e ⟨0, cs⟩ s.translationFields⟩
  let noLater (t u : Translation) : Bool := (compare t.language u.language).isLE
  have hread (j : JoinedRow κ) :
      (⟨j.language e, j.translation.shown e s.translationFields⟩ : Translation) =
        shown j.translation.columns := by
    have hlanguage : j.language e = languageOf e j.translation.columns := by
      rw [JoinedRow.language, languageOf, ← StoredRow.get_eq_columnOf (by decide)]
      rfl
    have hfields : j.translation.shown e s.translationFields =
        StoredRow.shown e ⟨0, j.translation.columns⟩ s.translationFields := by
      rw [StoredRow.shown, StoredRow.shown]
      refine congrArg _ (List.map_congr_left fun f hf => ?_)
      have hne := column_ne_id hs (Schema.mem_translationFields.mp hf).1
      rw [StoredRow.get_eq_columnOf hne, StoredRow.get_eq_columnOf hne]
    rw [hlanguage, hfields]
  have hrestricted : ((matching e s.kind l.predicate t ⟨x.1, (Insert.root x.2).held e⟩).map fun j =>
        (⟨j.language e, j.translation.shown e s.translationFields⟩ : Translation)) =
      (x.2.restrict l).translations.map fun u =>
        ⟨u.language, Field.shown s.translationFields u.columns⟩ := by
    have hcolumns := congrArg (List.map shown) (columns_matching h ht hr l hx)
    rw [List.map_map, List.map_map] at hcolumns
    simp only [hread]
    refine hcolumns.trans ?_
    refine List.map_congr_left fun v hv => ?_
    have hv : v ∈ x.2.translations := List.mem_of_mem_filter hv
    have hfields := shown_translation h hs hr hx hv
      (u := ⟨0, (Insert.translation x.2.kind x.1 v).held e⟩) rfl
    simp only [Function.comp_apply, shown, languageOf_held h, hfields]
  have hsorted : ((matching e s.kind l.predicate t ⟨x.1, (Insert.root x.2).held e⟩).mergeSort
        fun a b => (compareLanguages e a b).isLE).map (fun j =>
          (⟨j.language e, j.translation.shown e s.translationFields⟩ : Translation)) =
      ((x.2.restrict l).translations.mergeSort fun u v => (compare u.language v.language).isLE).map
        fun u => ⟨u.language, Field.shown s.translationFields u.columns⟩ := by
    rw [List.map_mergeSort (s := noLater), hrestricted,
      ← List.map_mergeSort (s := noLater) fun _ _ _ _ => rfl]
    exact fun a _ b _ => congrArg Ordering.isLE (h.order_text _ _)
  rw [entryOf, shown_root h hs hr hx, hsorted]
  rfl

-- A condition that the values of an entry meet does not keep the entry from being found.
theorem found_of_value (hx : x ∈ rs) {u : LocalRecord} (hu : u ∈ x.2.translations) {f : Field} (hf : f ∈ s.fields)
    {a : Condition} (ha : ∀ row : Column → κ, row (Column.ofField f) = e.store (x.2.valueOf u f) →
      a.truth e row = some true) :
    ∃ r ∈ t.found e s.kind ((Language.tag u.language).predicate ++ [a]),
      t.entryOf e s ((Language.tag u.language).predicate ++ [a]) r =
        (x.2.restrict (.tag u.language)).entry s x.1 := by
  have hroot : ⟨x.1, (Insert.root x.2).held e⟩ ∈ t.roots := ht.mem_roots.mpr ⟨x, hx, rfl⟩
  have hmatching : matching e s.kind ((Language.tag u.language).predicate ++ [a]) t
      ⟨x.1, (Insert.root x.2).held e⟩ =
        matching e s.kind (Language.tag u.language).predicate t ⟨x.1, (Insert.root x.2).held e⟩ := by
    rw [matching_concat, List.filter_eq_self]
    intro j hj
    rw [beq_iff_eq]
    exact ha _ (get_tag h hs ht hr hx hu hj hf)
  refine ⟨_, mem_found.mpr ⟨hroot, ?_⟩, ?_⟩
  · intro hnil
    have := columns_tag h ht hr hx hu
    rw [← hmatching, hnil] at this
    cases this
  · rw [← entryOf_eq h hs ht hr _ hx, entryOf, entryOf, hmatching]

-- Of all entries the one of a number is found, if there is one.
theorem find?_found (id : Int) :
    ((t.found e s.kind l.predicate).find? (·.id = id)).map (t.entryOf e s l.predicate) =
      rs.fetch? s l id := by
  rw [found_eq h ht hr, List.find?_map, List.find?_filter, Option.map_map]
  refine (Option.map_congr fun x hx => entryOf_eq h hs ht hr l (List.mem_of_find?_eq_some hx)).trans ?_
  exact congrArg (fun q => Option.map _ (rs.find? q)) (funext fun x => by simp)

-- Whatever the rows of an entry are answered in, they make up the entry.
theorem head?_assemble {id : Int} {rows : List Row}
    (hrows : Projection.Answers e t ⟨s, l.predicate ++ [Search.among [id]]⟩ rows) :
    (Row.assemble [id] rows).head? = rs.fetch? s l id := by
  rw [Search.head?_assemble h.toLawful hs.sound hs.columns (ht.isSound h hs hr) hrows, ht.find?_found h hs hr l id]

-- The rows that the tables show are among the answers.
theorem projection_answers (p : Predicate) :
    Projection.Answers e t ⟨s, p⟩ (t.projection e ⟨s, p⟩) := by
  refine Tables.projection_answers h.toLawful hs.sound hs.columns fun j hj => ?_
  have ⟨language, hl⟩ := (ht.isSound h hs hr).exists_language hj
  rw [hl]
  exact h.fits_scalar (v := .text language) trivial

end Tables.Keeps

end MediaCatalog
