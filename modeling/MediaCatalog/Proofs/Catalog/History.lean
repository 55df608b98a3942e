import MediaCatalog.Proofs.Catalog.Interleaving

namespace MediaCatalog

open Sql

-- A record that a client has added under a number.
structure Creation where
  client : Nat
  id     : Int
  record : Record

namespace Creation

-- The records of a kind.
def contents (xs : List Creation) (k : Kind) : Records :=
  (xs.filter (·.record.kind = k)).map fun x => (x.id, x.record)

theorem mem_contents {xs : List Creation} {x : Creation} (hx : x ∈ xs) :
    (x.id, x.record) ∈ contents xs x.record.kind :=
  List.mem_map.mpr ⟨x, List.mem_filter.mpr ⟨hx, by simp⟩, rfl⟩

theorem contents_append (xs ys : List Creation) (k : Kind) :
    contents (xs ++ ys) k = contents xs k ++ contents ys k := by
  rw [contents, List.filter_append, List.map_append]
  rfl

end Creation

-- A transaction that has added a record.
structure Commit.Adds (c : Commit) (x : Creation) : Prop where
  client : c.client = x.client
  rows   : ∃ us, c.rows = (.root x.record, x.id) :: us ∧
    us.map (·.1) = x.record.translations.map (.translation x.record.kind x.id)

section Rows

variable {κ : Type} {e : Engine κ}

-- Rows that are added one after the other stand behind those that were there.
theorem Store.rows_place (rows : List (Insert × Int)) (s : Store κ) (k : Kind) (o : Owner) :
    ((rows.foldl (place e) s).get k).rows o = (s.get k).rows o ++
      (rows.filter fun x => x.1.kind = k ∧ x.1.owner = o).map fun x => ⟨x.2, x.1.held e⟩ := by
  induction rows generalizing s with
  | nil => exact (List.append_nil _).symm
  | cons x rows ih =>
    rw [List.foldl_cons, ih]
    have hplace : ((s.place e x).get k).rows o = (s.get k).rows o ++
        ([x].filter fun x => x.1.kind = k ∧ x.1.owner = o).map fun x => ⟨x.2, x.1.held e⟩ := by
      by_cases hk : x.1.kind = k
      case neg =>
        rw [place, Store.get_set_ne _ _ (Ne.symm hk)]
        simp [hk]
      case pos =>
        subst hk
        rw [place, Store.get_set, Tables.place]
        obtain ⟨⟨_, owner, _⟩, _⟩ := x
        cases owner <;> cases o <;> simp [Tables.add, Tables.rows]
    rw [hplace, List.append_assoc, ← List.map_append, ← List.filter_append]
    rfl

theorem Store.rows_ofCommits (cs : List Commit) (k : Kind) (o : Owner) :
    ((ofCommits e cs).get k).rows o =
      ((cs.flatMap (·.rows)).filter fun x => x.1.kind = k ∧ x.1.owner = o).map fun x => ⟨x.2, x.1.held e⟩ := by
  have hempty : ((∅ : Store κ).get k).rows o = [] := by
    cases k <;> cases o <;> rfl
  rw [ofCommits, rows_place, hempty, List.nil_append]

-- The rows of translations are told from others.
theorem translation_of_mem {k : Kind} {id : Int} {us : List LocalRecord} {ys : List (Insert × Int)}
    (hys : ys.map (·.1) = us.map (.translation k id)) : ∀ y ∈ ys, y.1.kind = k ∧ y.1.owner = .translation := by
  intro y hy
  have hmem : y.1 ∈ us.map (.translation k id) := hys ▸ List.mem_map_of_mem hy
  obtain ⟨u, _, hu⟩ := List.mem_map.mp hmem
  rw [← hu]
  exact ⟨rfl, rfl⟩

variable {c : Commit} {x : Creation} (h : c.Adds x)

include h

theorem Commit.Adds.roots (k : Kind) : (c.rows.filter fun y => y.1.kind = k ∧ y.1.owner = .root) =
    if x.record.kind = k then [(.root x.record, x.id)] else [] := by
  obtain ⟨us, hrows, hus⟩ := h.rows
  have hnone : us.filter (fun y => y.1.kind = k ∧ y.1.owner = .root) = [] := by
    refine List.filter_eq_nil_iff.mpr fun y hy => ?_
    simp [(translation_of_mem hus y hy).2]
  rw [hrows, List.filter_cons, hnone]
  simp [Insert.root]

theorem Commit.Adds.translations (k : Kind) :
    ((c.rows.filter fun y => y.1.kind = k ∧ y.1.owner = .translation).map fun y => y.1.held e) =
      if x.record.kind = k then x.record.translations.map fun u => (Insert.translation x.record.kind x.id u).held e
      else [] := by
  obtain ⟨us, hrows, hus⟩ := h.rows
  have hown := translation_of_mem hus
  rw [hrows, List.filter_cons_of_neg (by simp [Insert.root])]
  by_cases hk : x.record.kind = k
  case pos =>
    subst hk
    have hall : us.filter (fun y => y.1.kind = x.record.kind ∧ y.1.owner = .translation) = us :=
      List.filter_eq_self.mpr fun y hy => by simpa using hown y hy
    have hheld := congrArg (List.map (·.held e)) hus
    rw [List.map_map, List.map_map] at hheld
    rw [hall, if_pos rfl]
    exact hheld
  case neg =>
    rw [if_neg hk, List.filter_eq_nil_iff.mpr, List.map_nil]
    intro y hy
    simp [(hown y hy).1, hk]

omit h in
-- The tables hold the rows of the records and no others.
theorem keeps_ofCommits {cs : List Commit} {xs : List Creation} (h : List.Forall₂ Commit.Adds cs xs) (k : Kind) :
    ((Store.ofCommits e cs).get k).Keeps e (Creation.contents xs k) where
  roots := by
    refine (Store.rows_ofCommits cs k .root).trans ?_
    induction h with
    | nil => rfl
    | @cons c x cs xs hc _ ih =>
      rw [List.flatMap_cons, List.filter_append, List.map_append, ih, hc.roots,
        ← List.singleton_append (x := x), Creation.contents_append, List.map_append]
      congr 1
      by_cases hk : x.record.kind = k <;> simp [Creation.contents, hk]
  translations := by
    have hrows : ((Store.ofCommits e cs).get k).translations = _ := Store.rows_ofCommits cs k .translation
    rw [hrows, List.map_map]
    clear hrows
    induction h with
    | nil => rfl
    | @cons c x cs xs hc _ ih =>
      have htranslations := hc.translations (e := e) k
      rw [List.flatMap_cons, List.filter_append, List.map_append, ih, ← List.singleton_append (x := x),
        Creation.contents_append, List.flatMap_append]
      refine congrArg₂ (· ++ ·) (htranslations.trans ?_) rfl
      by_cases hk : x.record.kind = k <;> simp [Creation.contents, hk]

end Rows

-- The transactions so far and the records that they have added, which are all different.
structure History where
  commits   : List Commit
  creations : List Creation
  adds      : List.Forall₂ Commit.Adds commits creations
  sound     : ∀ k, (Creation.contents creations k).Sound (Schema.registered k)

namespace History

def empty : History :=
  ⟨[], [], .nil, fun _ => ⟨.nil, fun _ hx => absurd hx List.not_mem_nil⟩⟩

-- A history that has gone on with what certain clients have added.
def Extends (p : Nat → Prop) (h h' : History) : Prop :=
  ∃ cs xs, h'.commits = h.commits ++ cs ∧ h'.creations = h.creations ++ xs ∧ ∀ x ∈ xs, p x.client

section Extension

variable {p : Nat → Prop} {h h' h'' : History}

theorem Extends.refl (p : Nat → Prop) (h : History) : h.Extends p h :=
  ⟨[], [], (List.append_nil _).symm, (List.append_nil _).symm, fun _ hx => absurd hx List.not_mem_nil⟩

theorem Extends.trans (hh : h.Extends p h') (hh' : h'.Extends p h'') : h.Extends p h'' := by
  obtain ⟨cs, xs, hcs, hxs, hp⟩ := hh
  obtain ⟨cs', xs', hcs', hxs', hp'⟩ := hh'
  refine ⟨cs ++ cs', xs ++ xs', ?_, ?_, List.forall_mem_append.mpr ⟨hp, hp'⟩⟩
  · rw [hcs', hcs, List.append_assoc]
  · rw [hxs', hxs, List.append_assoc]

theorem Extends.imp {q : Nat → Prop} (hh : h.Extends p h') (hpq : ∀ i, p i → q i) : h.Extends q h' :=
  have ⟨cs, xs, hcs, hxs, hp⟩ := hh
  ⟨cs, xs, hcs, hxs, fun x hx => hpq _ (hp x hx)⟩

theorem Extends.length_le (hh : h.Extends p h') : h.commits.length ≤ h'.commits.length := by
  obtain ⟨cs, _, hcs, _, _⟩ := hh
  simp [hcs]

-- The states up to now stay what they are.
theorem Extends.take_commits (hh : h.Extends p h') {n : Nat} (hn : n ≤ h.commits.length) :
    h'.commits.take n = h.commits.take n := by
  obtain ⟨cs, _, hcs, _, _⟩ := hh
  rw [hcs, List.take_append_of_le_length hn]

-- What has been added is there in every state that comes later.
theorem Extends.mem_take (hh : h.Extends p h') {x : Creation} (hx : x ∈ h.creations) {n : Nat}
    (hn : h.commits.length ≤ n) : x ∈ h'.creations.take n := by
  obtain ⟨_, xs, _, hxs, _⟩ := hh
  rw [h.adds.length_eq] at hn
  rw [hxs, List.take_append, List.take_of_length_le hn]
  exact List.mem_append_left _ hx

-- Where only others have added anything, what a client has added is the same.
theorem Extends.filter_eq {i : Nat} (hh : h.Extends (· ≠ i) h') :
    h'.creations.filter (·.client = i) = h.creations.filter (·.client = i) := by
  obtain ⟨_, xs, _, hxs, hp⟩ := hh
  have hnone : xs.filter (·.client = i) = [] := List.filter_eq_nil_iff.mpr fun x hx => by simpa using hp x hx
  rw [hxs, List.filter_append, hnone, List.append_nil]

end Extension

section States

variable {κ : Type} {e : Engine κ} (h : History) (n : Nat) (k : Kind)

theorem keeps_take :
    ((Store.ofCommits e (h.commits.take n)).get k).Keeps e (Creation.contents (h.creations.take n) k) :=
  keeps_ofCommits (List.forall₂_take n h.adds) k

theorem sound_take : (Creation.contents (h.creations.take n) k).Sound (Schema.registered k) := by
  have hsub : (Creation.contents (h.creations.take n) k).Sublist (Creation.contents h.creations k) :=
    ((List.take_sublist n _).filter _).map _
  exact ⟨(h.sound k).ids.sublist (hsub.map _), fun x hx => (h.sound k).isOf x (hsub.mem hx)⟩

-- The numbers that are taken are those of the records.
theorem map_id_roots : ((Store.ofCommits e h.commits).get k).roots.map (·.id) =
    (Creation.contents h.creations k).map (·.1) :=
  (keeps_ofCommits h.adds k).map_id_roots

end States

section Numbers

variable {h : History}

-- A transaction tells whose it was, and the kind and the number of its record.
theorem same_of_adds {c : Commit} {x y : Creation} (hx : c.Adds x) (hy : c.Adds y) :
    x.client = y.client ∧ x.id = y.id ∧ x.record.kind = y.record.kind := by
  obtain ⟨us, hus, _⟩ := hx.rows
  obtain ⟨vs, hvs, _⟩ := hy.rows
  obtain ⟨hroot, _⟩ := List.cons.inj (hus.symm.trans hvs)
  obtain ⟨hinsert, hid⟩ := Prod.mk.inj hroot
  exact ⟨hx.client.symm.trans hy.client, hid, congrArg Insert.kind hinsert⟩

-- No two records of a kind have the same number.
theorem eq_of_id {x y : Creation} (hx : x ∈ h.creations) (hy : y ∈ h.creations)
    (hk : x.record.kind = y.record.kind) (hid : x.id = y.id) : x = y := by
  have hids := (h.sound y.record.kind).ids
  rw [Creation.contents, List.map_map] at hids
  exact List.inj_on_of_nodup_map hids (List.mem_filter.mpr ⟨hx, by simp [hk]⟩)
    (List.mem_filter.mpr ⟨hy, by simp⟩) hid

-- So no two clients have added records of a kind under the same number.
theorem client_eq_of_adds {c c' : Commit} (hc : c ∈ h.commits) (hc' : c' ∈ h.commits) {x y : Creation}
    (hx : c.Adds x) (hy : c'.Adds y) (hk : x.record.kind = y.record.kind) (hid : x.id = y.id) :
    x.client = y.client := by
  obtain ⟨x', hx', hcx⟩ := h.adds.flip.exists_of_mem c hc
  obtain ⟨y', hy', hcy⟩ := h.adds.flip.exists_of_mem c' hc'
  have ⟨hxclient, hxid, hxkind⟩ := same_of_adds hx hcx
  have ⟨hyclient, hyid, hykind⟩ := same_of_adds hy hcy
  have hsame := eq_of_id hx' hy' (hxkind.symm.trans (hk.trans hykind)) (hxid.symm.trans (hid.trans hyid))
  rw [hxclient, hyclient, hsame]

-- What a client has added is found among the transactions.
theorem adds_filter (h : History) (i : Nat) : List.Forall₂ Commit.Adds (h.commits.filter (·.client = i))
    (h.creations.filter (·.client = i)) :=
  List.rel_filter (fun c x hc => by simp [hc.client]) h.adds

end Numbers

section Growth

variable (h : History) {c : Commit} {x : Creation} (hc : c.Adds x)
  (hr : x.record.IsOf (Schema.registered x.record.kind))
  (hfresh : x.id ∉ (Creation.contents h.creations x.record.kind).map (·.1))

-- The history after one more transaction.
def add : History where
  commits := h.commits ++ [c]
  creations := h.creations ++ [x]
  adds := List.rel_append h.adds (.cons hc .nil)
  sound k := by
    rw [Creation.contents_append]
    by_cases hk : x.record.kind = k
    case pos =>
      subst hk
      have hown : Creation.contents [x] x.record.kind = [(x.id, x.record)] := by simp [Creation.contents]
      rw [hown]
      refine ⟨?_, List.forall_mem_append.mpr ⟨(h.sound _).isOf, List.forall_mem_singleton.mpr hr⟩⟩
      rw [List.map_append, List.nodup_append]
      refine ⟨(h.sound _).ids, List.nodup_singleton _, ?_⟩
      intro a ha b hb heq
      obtain rfl : b = x.id := List.mem_singleton.mp hb
      exact hfresh (heq ▸ ha)
    case neg =>
      have hnone : Creation.contents [x] k = [] := by simp [Creation.contents, hk]
      rw [hnone, List.append_nil]
      exact h.sound k

theorem extends_add : h.Extends (· = x.client) (h.add hc hr hfresh) :=
  ⟨[c], [x], rfl, rfl, List.forall_mem_singleton.mpr rfl⟩

end Growth

end History

end MediaCatalog
