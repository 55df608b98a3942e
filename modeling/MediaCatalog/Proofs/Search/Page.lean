import MediaCatalog.Proofs.Page
import MediaCatalog.Proofs.Search.Session
import Mathlib.Data.List.Pairwise

namespace MediaCatalog.Search

open Sql

variable {κ : Type} {e : Engine κ} {fits : FieldType → κ → Prop} (h : e.Lawful fits) {s : Search}
  {p : Predicate} {t : Tables κ}

section Window

theorem isDistinct_found {k : Kind} (hn : (t.roots.map (·.id)).Nodup) :
    IsDistinct ((t.found e k p).map (·.id)) (t.selected e k p) := by
  refine ⟨Tables.nodup_found hn, fun i => ?_⟩
  simp only [List.mem_map, Tables.mem_found, Tables.mem_selected]
  constructor
  · rintro ⟨r, ⟨hr, hm⟩, rfl⟩
    have ⟨j, hj⟩ := List.exists_mem_of_ne_nil _ hm
    exact ⟨j, ⟨r, hr, hj⟩, by rw [(Tables.mem_matching.mp hj).1]⟩
  · rintro ⟨j, ⟨r, hr, hj⟩, rfl⟩
    exact ⟨r, ⟨hr, List.ne_nil_of_mem hj⟩, by rw [(Tables.mem_matching.mp hj).1]⟩

variable (ht : t.IsSound e fits s.schema)

include h ht

-- There is one way only in which a window may sort the entries.
theorem eq_ranked {order : List OrderTerm}
    (ho : ∀ o ∈ order, ∃ f ∈ s.schema.fields, o.column = Column.ofField f) {ids : List Int}
    (hd : IsDistinct ids (t.selected e s.schema.kind p))
    (hs : ids.Pairwise fun a b =>
      (Tables.compareEntries e order (t.selected e s.schema.kind p) a b).isLE) :
    ids = (t.ranked e s.schema.kind p order).map (·.id) := by
  have htrans := Tables.transCmp_compareEntries h (Tables.exists_fits (p := p) ht.fits ho)
  have hranked : (t.ranked e s.schema.kind p order).map (·.id) =
      ((t.found e s.schema.kind p).map (·.id)).mergeSort fun a b =>
        (Tables.compareEntries e order (t.selected e s.schema.kind p) a b).isLE := by
    refine List.map_mergeSort fun a ha b hb => ?_
    have ha := (Tables.mem_found.mp ha).1
    have hb := (Tables.mem_found.mp hb).1
    rw [Tables.compareFound_eq h ht ho ha hb]
  rw [hranked]
  exact eq_mergeSort_of_pairwise (hd.perm (isDistinct_found ht.roots)) hs
    fun a _ b _ => Tables.eq_of_compareEntries

end Window

section Scope

include h

theorem selected_among {k : Kind} (ids : List Int) :
    t.selected e k (p ++ [among ids]) = (t.selected e k p).filter fun j => decide (j.root.id ∈ ids) := by
  rw [Tables.selected, Tables.selected, List.filter_filter]
  apply List.filter_congr
  intro j _
  have hid : j.get e Column.id = e.store (Option.elim (some j.root.id) .null .int) := rfl
  have hscope : (∀ a ∈ ((some ids).map among).toList, a.truth e (j.get e) = some true) ↔ _ :=
    truth_scope h hid
  simp only [Option.map_some, Option.toList_some, List.mem_singleton, forall_eq, Option.some.injEq,
    forall_eq'] at hscope
  rw [Bool.eq_iff_iff]
  simp only [Predicate.holds_eq_true, List.forall_mem_append, List.forall_mem_singleton, hscope,
    Bool.and_eq_true, decide_eq_true_eq]
  grind

end Scope

section Rows

variable (ht : t.IsSound e fits s.schema)

include h

theorem transCmp_compareLanguages : Std.TransCmp (Tables.compareLanguages e) :=
  h.transCmp (τ := .text) (f := fun j : JoinedRow κ => e.store (.text (j.language e)))
    fun _ => h.fits_scalar (v := .text _) trivial

include ht

theorem get_language {k : Kind} {j : JoinedRow κ} (hj : j ∈ t.selected e k p) :
    j.get e Column.language = e.store (.text (j.language e)) := by
  have ⟨l, hl⟩ := ht.exists_language hj
  have : j.language e = l := by simp [JoinedRow.language, hl, h.load_text, Json.str?]
  rw [hl, this]

-- An entry has one row at most in each language.
theorem eq_of_compareLanguages {r : StoredRow κ} (hr : r ∈ t.roots) {a b : JoinedRow κ}
    (ha : a ∈ t.matching e s.schema.kind p r) (hb : b ∈ t.matching e s.schema.kind p r)
    (heq : Tables.compareLanguages e a b = .eq) : a = b := by
  have ⟨hra, hta, hka, _⟩ := Tables.mem_matching.mp ha
  have ⟨hrb, htb, hkb, _⟩ := Tables.mem_matching.mp hb
  have hlanguage : a.translation.get e "language" = b.translation.get e "language" := by
    have hga := get_language h ht (Tables.mem_selected.mpr ⟨r, hr, ha⟩)
    have hgb := get_language h ht (Tables.mem_selected.mpr ⟨r, hr, hb⟩)
    have hl := h.order_text_eq.mp heq
    exact hga.trans (hl ▸ hgb.symm)
  have hkey {u : StoredRow κ} (hu : u ∈ t.translations)
      (hk : e.compare? (u.get e s.schema.kind.foreignKey) (e.store (.int r.id)) = some .eq) :
      u.get e s.schema.kind.foreignKey = e.store (.int r.id) := by
    have ⟨o, _, ho⟩ := ht.owned u hu
    rw [ho, h.compare_int, Option.some.injEq, Std.LawfulEqOrd.compare_eq_iff_eq] at hk
    rw [ho, hk]
  have htranslation : a.translation = b.translation := by
    by_contra hne
    have hsymm : Std.Symm fun u v : StoredRow κ =>
        u.get e s.schema.kind.foreignKey = v.get e s.schema.kind.foreignKey →
          u.get e "language" ≠ v.get e "language" :=
      ⟨fun u v huv hvu hl => huv hvu.symm hl.symm⟩
    exact ht.single.forall hta htb hne ((hkey hta hka).trans (hkey htb hkb).symm) hlanguage
  cases a
  cases b
  simp_all

-- The rows of one entry, out of all rows that are shown.
theorem filter_shown {ids : List Int} {js : List (JoinedRow κ)}
    (hp : js.Perm (t.selected e s.schema.kind (p ++ [among ids])))
    (hs : js.Pairwise fun a b => (JoinedRow.compareShown e a b).isLE) {r : StoredRow κ}
    (hr : r ∈ t.roots) (hi : r.id ∈ ids) :
    js.filter (·.root.id = r.id) = (t.matching e s.schema.kind p r).mergeSort fun a b =>
      (Tables.compareLanguages e a b).isLE := by
  have := transCmp_compareLanguages h
  have hmatching : (js.filter (·.root.id = r.id)).Perm (t.matching e s.schema.kind p r) := by
    have hf := hp.filter (·.root.id = r.id)
    rw [selected_among h, List.filter_filter] at hf
    rw [← Tables.filter_selected ht.roots hr]
    refine hf.trans (List.Perm.of_eq (List.filter_congr fun j _ => ?_))
    grind
  refine eq_mergeSort_of_pairwise hmatching ?_ fun a ha b hb => eq_of_compareLanguages h ht hr ha hb
  refine ((hs.filter _).imp_of_mem ?_)
  intro a b ha hb hab
  have hroot {j : JoinedRow κ} (hj : j ∈ js.filter (·.root.id = r.id)) : j.root.id = r.id := by
    simpa using (List.mem_filter.mp hj).2
  have hselected {j : JoinedRow κ} (hj : j ∈ js.filter (·.root.id = r.id)) :
      j ∈ t.selected e s.schema.kind p :=
    Tables.mem_selected.mpr ⟨r, hr, hmatching.mem_iff.mp hj⟩
  rw [JoinedRow.compareShown, hroot ha, hroot hb, Std.ReflOrd.compare_self,
    get_language h ht (hselected ha), get_language h ht (hselected hb)] at hab
  exact hab

omit h ht in
-- Put together, the rows of an entry are the entry with those of its translations that pass.
theorem entryOf?_matching {r : StoredRow κ} (hr : r ∈ t.found e s.schema.kind p) :
    Row.entryOf? (((t.matching e s.schema.kind p r).mergeSort fun a b =>
      (Tables.compareLanguages e a b).isLE).map (JoinedRow.row e s.schema)) =
      some (t.entryOf e s.schema p r) := by
  have hm := (Tables.mem_found.mp hr).2
  rw [Tables.entryOf]
  cases hj : (t.matching e s.schema.kind p r).mergeSort fun a b =>
      (Tables.compareLanguages e a b).isLE with
  | nil => exact absurd (mergeSort_eq_nil.mp hj) hm
  | cons j js =>
    have hroot : j.root = r :=
      (Tables.mem_matching.mp (List.mem_mergeSort.mp (hj ▸ List.mem_cons_self))).1
    simp [Row.entryOf?, JoinedRow.row, hroot, Function.comp_def]

variable (hs : s.schema.IsSound) (hc : (s.schema.fields.map (·.column)).Nodup)

include hs hc

-- The entries of a page are put together from the rows that are shown of them.
theorem assemble_rows {rs : List (StoredRow κ)} (hrs : ∀ r ∈ rs, r ∈ t.found e s.schema.kind p)
    (hn : (rs.map (·.id)).Nodup) {rows : List Row}
    (hrows : Projection.Answers e t ⟨s.schema, p ++ [among (rs.map (·.id))]⟩ rows) :
    Row.assemble (rs.map (·.id)) rows = rs.map (t.entryOf e s.schema p) := by
  obtain ⟨js, hp, hsort, rfl⟩ := hrows
  have hread : js.map (fun j => Row.ofOutputs e s.schema
      (Projection.outputs e ⟨s.schema, p ++ [among (rs.map (·.id))]⟩ j)) =
      js.map (JoinedRow.row e s.schema) :=
    List.map_congr_left fun j _ => ofOutputs_eq h (tells_of_nodup hs hc) j
  have hentry : ∀ r ∈ rs, Row.entryOf? ((js.map (JoinedRow.row e s.schema)).filter (·.id = r.id)) =
      some (t.entryOf e s.schema p r) := by
    intro r hr
    have hmem := (Tables.mem_found.mp (hrs r hr)).1
    rw [List.filter_map, ← entryOf?_matching (hrs r hr),
      ← filter_shown h ht hp hsort hmem (List.mem_map_of_mem hr)]
    rfl
  rw [hread, Row.assemble, eraseDups_of_nodup hn, List.filterMap_map]
  exact (List.filterMap_congr hentry).trans (congrFun List.filterMap_eq_map rs)

end Rows

section Found

variable (ht : t.IsSound e fits s.schema)

include h ht

omit h in
theorem nodup_matching (r : StoredRow κ) : (t.matching e s.schema.kind p r).Nodup := by
  have hn : t.translations.Nodup := by
    refine ht.single.imp ?_
    rintro u v huv rfl
    exact huv rfl rfl
  refine (hn.map fun u v huv => ?_).filter _
  exact congrArg JoinedRow.translation huv

-- The translations of an entry ascend by their languages.
theorem pairwise_translations {r : StoredRow κ} (hr : r ∈ t.roots) :
    (t.entryOf e s.schema p r).translations.Pairwise fun x y =>
      e.order (e.store (.text x.language)) (e.store (.text y.language)) = .lt := by
  have := transCmp_compareLanguages h
  have hle : ((t.matching e s.schema.kind p r).mergeSort fun a b =>
      (Tables.compareLanguages e a b).isLE).Pairwise fun a b => (Tables.compareLanguages e a b).isLE :=
    pairwise_mergeSort_cmp _
  have hne : ((t.matching e s.schema.kind p r).mergeSort fun a b =>
      (Tables.compareLanguages e a b).isLE).Nodup :=
    (List.mergeSort_perm ..).nodup_iff.mpr (nodup_matching ht r)
  refine List.pairwise_map.mpr ((hle.and hne).imp_of_mem ?_)
  rintro a b ha hb ⟨hab, hne⟩
  have ha := List.mem_mergeSort.mp ha
  have hb := List.mem_mergeSort.mp hb
  have heq := mt (eq_of_compareLanguages h ht hr ha hb) hne
  change Tables.compareLanguages e a b = .lt
  cases hc : Tables.compareLanguages e a b <;> simp_all

theorem language_matching (hp : s.predicate none = .ok p) {r : StoredRow κ} (hr : r ∈ t.roots)
    {j : JoinedRow κ} (hj : j ∈ t.matching e s.schema.kind p r) {tag : String}
    (hl : s.language = .tag tag) : j.language e = tag := by
  obtain ⟨filters, _, rfl⟩ := predicate_eq_ok.mp hp
  have hholds := (Predicate.holds_eq_true _).mp (Tables.mem_matching.mp hj).2.2.2
  have hget : j.get e Column.language = e.store (Option.elim (some (j.language e)) .null .text) :=
    get_language h ht (Tables.mem_selected.mpr ⟨r, hr, hj⟩)
  have hlanguage := (truth_language h (s := s) hget).mp fun a ha => hholds a (by simp [ha])
  exact Option.some.inj (hlanguage tag hl)

omit h ht in
theorem translations_ne_nil {r : StoredRow κ} (hr : r ∈ t.found e s.schema.kind p) :
    (t.entryOf e s.schema p r).translations ≠ [] := by
  intro hnil
  rw [Tables.entryOf, List.map_eq_nil_iff] at hnil
  exact (Tables.mem_found.mp hr).2 (mergeSort_eq_nil.mp hnil)

-- Where the search is for one language, an entry is shown in that language alone.
theorem translations_of_tag (hp : s.predicate none = .ok p) {r : StoredRow κ}
    (hr : r ∈ t.found e s.schema.kind p) {tag : String} (hl : s.language = .tag tag) :
    ∃ fields, (t.entryOf e s.schema p r).translations = [⟨tag, fields⟩] := by
  have hroot := (Tables.mem_found.mp hr).1
  have hlanguage : ∀ x ∈ (t.entryOf e s.schema p r).translations, x.language = tag := by
    intro x hx
    obtain ⟨j, hj, rfl⟩ := List.mem_map.mp hx
    exact language_matching h ht hp hroot (List.mem_mergeSort.mp hj) hl
  have hpairwise := pairwise_translations h ht (p := p) hroot
  cases hx : (t.entryOf e s.schema p r).translations with
  | nil => exact absurd hx (translations_ne_nil hr)
  | cons x xs =>
    rw [hx] at hlanguage hpairwise
    cases xs with
    | nil =>
      have := hlanguage x (by simp)
      exact ⟨x.fields, by rw [← this]⟩
    | cons y ys =>
      have hlt := (List.pairwise_cons.mp hpairwise).1 y (by simp)
      rw [hlanguage x (by simp), hlanguage y (by simp), h.order_text_eq.mpr rfl] at hlt
      cases hlt

end Found

section Answers

variable {order : List OrderTerm} (number size : Nat)

-- The entries of a page, before anything is shown of them.
def pageRows (e : Engine κ) (s : Search) (p : Predicate) (t : Tables κ) (order : List OrderTerm)
    (number size : Nat) : List (StoredRow κ) :=
  ((t.ranked e s.schema.kind p order).drop (number * size)).take size

theorem pageOf_eq_map : t.pageOf e s.schema p order number size =
    (pageRows e s p t order number size).map (t.entryOf e s.schema p) := by
  rw [Tables.pageOf, Tables.listing, pageRows, List.map_take, List.map_drop]

section Cut

variable {rs : List (StoredRow κ)} (hrs : rs.Sublist (t.ranked e s.schema.kind p order))

include hrs

theorem mem_found_of_sublist {r : StoredRow κ} (hr : r ∈ rs) : r ∈ t.found e s.schema.kind p :=
  (Tables.ranked_perm order).mem_iff.mp (hrs.mem hr)

theorem nodup_of_sublist (ht : t.IsSound e fits s.schema) : (rs.map (·.id)).Nodup := by
  have hranked := ((Tables.ranked_perm (e := e) (k := s.schema.kind) (p := p) (t := t) order).map
    (·.id)).nodup_iff.mpr (Tables.nodup_found ht.roots)
  exact hranked.sublist (hrs.map _)

end Cut

theorem pageRows_sublist : (pageRows e s p t order number size).Sublist
    (t.ranked e s.schema.kind p order) :=
  (List.take_sublist ..).trans (List.drop_sublist ..)

theorem mem_found_of_pageRows {r : StoredRow κ} (hr : r ∈ pageRows e s p t order number size) :
    r ∈ t.found e s.schema.kind p :=
  mem_found_of_sublist (pageRows_sublist number size) hr

variable (ht : t.IsSound e fits s.schema)

include ht

theorem nodup_pageRows : ((pageRows e s p t order number size).map (·.id)).Nodup :=
  nodup_of_sublist (pageRows_sublist number size) ht

theorem count_eq {n : Int64} (hn : Count.Answers e t ⟨s.schema.kind, p⟩ n) :
    n = .ofNat (t.found e s.schema.kind p).length := by
  obtain ⟨ids, hd, rfl⟩ := hn
  have := (hd.perm (isDistinct_found ht.roots)).length_eq
  rw [this, List.length_map]

include h

-- The entries of a window are cut out of all entries, wherever the window begins.
theorem window_eq {request : PageRequest} (ho : request.sort.mapM (OrderTerm.ofKey s.schema) = .ok order)
    {ids : List Int}
    (hids : Window.Answers e t ⟨s.schema.kind, p, order, request.limit, request.offset⟩ ids) :
    ids = (((t.ranked e s.schema.kind p order).drop request.offset.toNatClampNeg).take
      request.size.toNat).map (·.id) := by
  obtain ⟨all, hd, hs, rfl⟩ := hids
  rw [eq_ranked h ht (order_columns ho) hd hs, request.toNat_limit, List.map_take, List.map_drop]

end Answers

variable {σ : Type} {r : Reader σ} {request : PageRequest} {before inside after : σ → Prop}

-- Where the offset of a page does not fit, the page is cut out at the place that is left of it.
theorem findPage_gives_cut (h : e.Lawful fits) (hs : s.schema.IsSound)
    (hc : (s.schema.fields.map (·.column)).Nodup) (hp : s.predicate none = .ok p)
    {order : List OrderTerm} (ho : request.sort.mapM (OrderTerm.ofKey s.schema) = .ok order)
    (ht : t.IsSound e fits s.schema) (hr : Session e t r s request before inside after) :
    (findPage r s request).Gives before
      (· = .answer (((t.listing e s.schema p order).drop request.offset.toNatClampNeg).take
        request.size.toNat) request (.ofNat (t.found e s.schema.kind p).length)) after := by
  have hcount := count_eq_ok.mpr ⟨p, hp, rfl⟩
  have hwindow := window_eq_ok.mpr ⟨p, hp, order, ho, rfl⟩
  have hprojection (ids : List Int) : s.projection ids = .ok ⟨s.schema, p ++ [among ids]⟩ :=
    projection_eq_ok.mpr ⟨_, predicate_some hp, rfl⟩
  obtain ⟨rs, hdef⟩ : ∃ rs, ((t.ranked e s.schema.kind p order).drop request.offset.toNatClampNeg).take
    request.size.toNat = rs := ⟨_, rfl⟩
  have hrs : rs.Sublist (t.ranked e s.schema.kind p order) :=
    hdef ▸ (List.take_sublist ..).trans (List.drop_sublist ..)
  rw [findPage]
  refine .ofExcept hcount <| .ofExcept hwindow <| hr.start.bind fun _ _ =>
    (hr.count _ hcount).bind fun n hn => (hr.window _ hwindow).bind fun ids hids => ?_
  rw [count_eq ht hn, Tables.listing, ← List.map_drop, ← List.map_take, hdef]
  have heq : ids = rs.map (·.id) := hdef ▸ window_eq h ht ho hids
  split
  case isTrue hnil =>
    have hrows : rs = [] := by rwa [heq, List.isEmpty_iff, List.map_eq_nil_iff] at hnil
    exact hr.finish.bind fun _ _ => .pure (by rw [hrows, List.map_nil])
  case isFalse hnil =>
    have hread := hr.rows _ ids _ hwindow hids (mt List.isEmpty_iff.mpr hnil) (hprojection ids)
    refine .ofExcept (hprojection ids) <| hread.bind fun rows hrows =>
      hr.finish.bind fun _ _ => .pure ?_
    rw [heq] at hrows ⊢
    rw [assemble_rows h ht hs hc (fun x hx => mem_found_of_sublist hrs hx) (nodup_of_sublist hrs ht) hrows]

theorem findPage_gives (h : e.Lawful fits) (hs : s.schema.IsSound)
    (hc : (s.schema.fields.map (·.column)).Nodup) (hp : s.predicate none = .ok p)
    {order : List OrderTerm} (ho : request.sort.mapM (OrderTerm.ofKey s.schema) = .ok order)
    (hfit : request.page.toNat * request.size.toNat < 2 ^ 63) (ht : t.IsSound e fits s.schema)
    (hr : Session e t r s request before inside after) :
    (findPage r s request).Gives before
      (· = .answer (t.pageOf e s.schema p order request.page.toNat request.size.toNat) request
        (.ofNat (t.found e s.schema.kind p).length)) after := by
  rw [Tables.pageOf, ← request.toNat_offset hfit]
  exact findPage_gives_cut h hs hc hp ho ht hr

-- A page that is found in a session is the one that is cut out of all entries with a row that passes, in their
-- order. No entry is on it twice, and each has just its own rows.
theorem findPage_eq_pageOf (h : e.Lawful fits) (hv : s.schema.validate = .ok ())
    (hc : (s.schema.fields.map (·.column)).Nodup) (hp : s.predicate none = .ok p)
    {order : List OrderTerm} (ho : request.sort.mapM (OrderTerm.ofKey s.schema) = .ok order)
    (hfit : request.page.toNat * request.size.toNat < 2 ^ 63) (ht : t.IsSound e fits s.schema)
    (hr : Session e t r s request before inside after) :
    let items := t.pageOf e s.schema p order request.page.toNat request.size.toNat
    (findPage r s request).Gives before
      (· = .answer items request (.ofNat (t.found e s.schema.kind p).length)) after ∧
    (items.map (·.id)).Nodup ∧
    ∀ x ∈ items, x.translations ≠ [] ∧
      (x.translations.Pairwise fun a b =>
        e.order (e.store (.text a.language)) (e.store (.text b.language)) = .lt) ∧
      ∀ tag, s.language = .tag tag → ∃ fields, x.translations = [⟨tag, fields⟩] := by
  have hs := Schema.validate_eq_ok.mp hv
  refine ⟨findPage_gives h hs hc hp ho hfit ht hr, ?once, ?own⟩
  case once =>
    rw [pageOf_eq_map, List.map_map]
    exact nodup_pageRows _ _ ht
  case own =>
    intro x hx
    rw [pageOf_eq_map] at hx
    obtain ⟨r, hr, rfl⟩ := List.mem_map.mp hx
    have hfound := mem_found_of_pageRows _ _ hr
    exact ⟨translations_ne_nil hfound, pairwise_translations h ht (Tables.mem_found.mp hfound).1,
      fun tag hl => translations_of_tag h ht hp hfound hl⟩

section Example

def longestFirst : List OrderTerm :=
  [⟨⟨.root, "duration"⟩, .descending⟩]

theorem ranked_twoMovies : Tables.twoMovies.ranked Engine.sqlite .movie isLong longestFirst =
    Tables.twoMovies.roots.reverse := by
  have hfound : Tables.twoMovies.found Engine.sqlite .movie isLong = Tables.twoMovies.roots := rfl
  have hgt : Tables.twoMovies.compareFound Engine.sqlite .movie isLong longestFirst
      ⟨1, [("duration", .int 90)]⟩ ⟨2, [("duration", .int 120)]⟩ = .gt := rfl
  rw [Tables.ranked, hfound]
  simp [Tables.twoMovies, List.mergeSort, List.MergeSort.Internal.splitInTwo, List.merge] at hgt ⊢
  simp [hgt]

-- The longer of two movies, with its only translation.
theorem findPage_eq_pageOf_longest :
    (findPage (Database.reader Engine.sqlite) longMovies ⟨0, 1, [⟨"duration", .descending⟩]⟩).Gives
      (Database.Holds .movie Tables.twoMovies)
      (fun page => page.items.map (·.id) = [2] ∧ page.totalItems = 2 ∧
        ∀ x ∈ page.items, x.translations ≠ [])
      (Database.Holds .movie Tables.twoMovies) := by
  have ho : (PageRequest.mk 0 1 [⟨"duration", .descending⟩]).sort.mapM
      (OrderTerm.ofKey longMovies.schema) = .ok longestFirst := by rfl
  have ⟨hpage, _, hown⟩ := findPage_eq_pageOf Engine.sqlite_lawful (by rfl) (by decide)
    predicate_longMovies ho (by decide) Tables.isSound_twoMovies
    (session_longMovies ⟨0, 1, [⟨"duration", .descending⟩]⟩ (by decide))
  refine hpage.imp ?_
  rintro _ rfl
  refine ⟨?_, by rfl, fun x hx => (hown x hx).1⟩
  have hrows : pageRows Engine.sqlite longMovies isLong Tables.twoMovies longestFirst 0 1 =
      Tables.twoMovies.roots.reverse.take 1 := congrArg (·.take 1) ranked_twoMovies
  change (Tables.pageOf _ longMovies.schema _ _ _ 0 1).map (·.id) = [2]
  rw [pageOf_eq_map, hrows]
  rfl

end Example

end MediaCatalog.Search
