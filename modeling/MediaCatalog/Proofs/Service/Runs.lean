import MediaCatalog.Proofs.Catalog.Memory
import MediaCatalog.Proofs.Service.Requests

namespace MediaCatalog

open Sql

-- The records of each kind.
abbrev Contents := Kind → Records

namespace Contents

-- The contents after a record has been added under the next number.
def add (c : Contents) (r : Record) : Contents :=
  fun k => if k = r.kind then c k ++ [(((c k).length : Int) + 1, r)] else c k

theorem add_self (c : Contents) (r : Record) :
    c.add r r.kind = c r.kind ++ [(((c r.kind).length : Int) + 1, r)] :=
  if_pos rfl

theorem add_of_ne {k : Kind} (c : Contents) {r : Record} (h : k ≠ r.kind) : c.add r k = c k :=
  if_neg h

-- What there is of a kind comes from the records of this kind.
theorem foldl_add {k : Kind} {c b : Contents} (hc : c k = b k) (rs : List Record) :
    rs.foldl add c k = (rs.filter (·.kind = k)).foldl add b k := by
  induction rs generalizing c b with
  | nil => exact hc
  | cons r rs ih =>
    rw [List.foldl_cons]
    by_cases hr : r.kind = k
    case pos =>
      rw [List.filter_cons_of_pos (by simpa using hr), List.foldl_cons]
      subst hr
      exact ih (by rw [add_self, add_self, hc])
    case neg =>
      rw [List.filter_cons_of_neg (by simpa using hr)]
      exact ih (by rw [add_of_ne c (Ne.symm hr), hc])

theorem exists_mem_foldl_add {r : Record} {rs : List Record} (hr : r ∈ rs) (c : Contents) :
    ∃ x ∈ rs.foldl add c r.kind, x.2 = r := by
  have hkept (rs : List Record) (c : Contents) : c r.kind <+: rs.foldl add c r.kind := by
    induction rs generalizing c with
    | nil => exact List.prefix_rfl
    | cons r' rs ih =>
      refine List.IsPrefix.trans ?_ (ih (c.add r'))
      rw [add]
      split
      case isTrue => exact List.prefix_append ..
      case isFalse => exact List.prefix_rfl
  induction rs generalizing c with
  | nil => cases hr
  | cons r' rs ih =>
    rcases List.mem_cons.mp hr with rfl | hr
    · refine ⟨(((c r.kind).length : Int) + 1, r), (hkept rs (c.add r)).subset ?_, rfl⟩
      simp [add_self]
    · exact ih hr (c.add r')

end Contents

namespace Database

variable {κ : Type} {e : Engine κ} {fits : FieldType → κ → Prop} {c : Contents} {d : Database κ}

-- An open database that holds records and nothing else.
structure Has (e : Engine κ) (c : Contents) (d : Database κ) : Prop where
  isOpen   : d.isOpen
  keeps    : ∀ k, (d.store.get k).Keeps e (c k)
  sound    : ∀ k, (c k).Sound (Schema.registered k)
  numbered : ∀ k, (c k).map (·.1) = (List.range (c k).length).map fun i : Nat => (i : Int) + 1

theorem has_empty (e : Engine κ) : (empty : Database κ).Has e fun _ => [] where
  isOpen := rfl
  keeps k := by cases k <;> exact ⟨rfl, rfl⟩
  sound _ := ⟨.nil, fun _ hx => absurd hx (List.not_mem_nil)⟩
  numbered _ := rfl

theorem Has.nextId (hd : d.Has e c) (k : Kind) :
    (d.store.get k).nextId .root = (c k).length + 1 :=
  Tables.nextId_of_range (((hd.keeps k).map_id_roots).trans (hd.numbered k))

-- A database that takes one more record.
theorem Has.keep (hd : d.Has e c) {r : Record} (hr : r.IsOf (Schema.registered r.kind)) {d' : Database κ}
    (ho : d'.isOpen) (hs : d'.store = d.store.keep e r) : d'.Has e (c.add r) := by
  have hnext := hd.nextId r.kind
  have hids : (c r.kind ++ [(((c r.kind).length : Int) + 1, r)]).map (·.1) =
      (List.range ((c r.kind).length + 1)).map fun i : Nat => (i : Int) + 1 := by
    rw [List.map_append, hd.numbered, List.range_succ, List.map_append]
    rfl
  refine ⟨ho, fun k => ?keeps, fun k => ?sound, fun k => ?numbered⟩
  case keeps =>
    by_cases hk : k = r.kind
    case pos =>
      subst hk
      rw [hs, Store.get_keep, Contents.add_self, ← hnext]
      exact (hd.keeps r.kind).keep r
    case neg =>
      rw [hs, Store.get_keep_ne e _ r hk, Contents.add_of_ne c hk]
      exact hd.keeps k
  case sound =>
    by_cases hk : k = r.kind
    case pos =>
      subst hk
      rw [Contents.add_self]
      refine ⟨hids ▸ List.nodup_range.map fun i j h => by omega, ?_⟩
      rw [List.forall_mem_append, List.forall_mem_singleton]
      exact ⟨(hd.sound r.kind).isOf, hr⟩
    case neg =>
      rw [Contents.add_of_ne c hk]
      exact hd.sound k
  case numbered =>
    by_cases hk : k = r.kind
    case pos =>
      subst hk
      rw [Contents.add_self, hids, List.length_append, List.length_singleton]
    case neg =>
      rw [Contents.add_of_ne c hk]
      exact hd.numbered k

theorem Has.rests (hd : d.Has e c) : (keeper e).Rests True d.store d :=
  ⟨rfl, fun _ => hd.isOpen⟩

theorem Has.of_rests (hd : d.Has e c) {d' : Database κ} (h : (keeper e).Rests True d.store d') : d'.Has e c where
  isOpen := h.2 trivial
  keeps k := (congrArg (fun s => (Store.get s k).Keeps e (c k)) h.1).mpr (hd.keeps k)
  sound := hd.sound
  numbered := hd.numbered

section Respond

open Http Service

variable (h : e.Faithful fits) (hd : d.Has e c) (settings : Settings) {r : Request}

include h hd

-- A request that adds a record is answered with the new entry.
theorem Has.rests_respond_add {record : Record} (hr : taken? e r = some record) :
    ((respond (catalog e) settings r).run d).1 = created record.kind
        (.ok (record.entry (Schema.registered record.kind) ((c record.kind).length + 1))) ∧
      (keeper e).Rests True (d.store.keep e record) ((respond (catalog e) settings r).run d).2 := by
  obtain ⟨hr, htaken⟩ := taken?_eq_some.mp hr
  have ⟨k, draft, hcreates, hprepare⟩ := addition?_eq_some.mp hr
  have hk : record.kind = k := (Draft.prepare_eq_ok.mp hprepare).2.1.trans (Schema.kind_registered k)
  subst hk
  have hof := Draft.isOf_of_prepare (Schema.isUsable_registered _) hprepare
  have hends := (Keeper.ends_create (keeper_lawful e) h hprepare (s := d.store)).run d hd.rests
  rw [hd.nextId, catalog_keeper] at hends
  rw [run_respond_of_creates (catalog e) settings hcreates]
  generalize (ExceptT.run ((catalog e).create record.kind draft)).run d = out at hends ⊢
  obtain ⟨a, d'⟩ := out
  have hfetched : Keeper.fetched e (d.store.keep e record) record.kind .any ((c record.kind).length + 1) =
      some (record.entry (Schema.registered record.kind) ((c record.kind).length + 1)) := by
    have hhas : (Database.mk (d.store.keep e record) ∅ true).Has e (c.add record) := hd.keep hof rfl rfl
    rw [Keeper.fetched_eq h (hhas.keeps _) (hhas.sound _)]
    have hmem : (((c record.kind).length : Int) + 1, record) ∈ c.add record record.kind := by
      simp [Contents.add_self]
    have hshown := Records.fetch?_of_mem (l := .any) (hhas.sound _) hmem
      (by rw [Record.restrict_any]; exact hof.translated)
    rwa [Record.restrict_any] at hshown
  cases a with
  | ok x =>
    have hx := hends.1.symm.trans hfetched
    cases hx
    exact ⟨rfl, hends.2.2⟩
  | error f =>
    have hsound := (hd.keeps record.kind).isSound h (Schema.isUsable_registered _) (hd.sound _)
    have howned := hsound.owned
    rw [Schema.kind_registered] at howned
    exact absurd ⟨trivial, howned, hof, htaken⟩ hends.2.1

theorem Has.respond_add {record : Record} (hr : taken? e r = some record) :
    ((respond (catalog e) settings r).run d).1 = created record.kind
        (.ok (record.entry (Schema.registered record.kind) ((c record.kind).length + 1))) ∧
      ((respond (catalog e) settings r).run d).2.Has e (c.add record) := by
  have ⟨k, draft, _, hprepare⟩ := addition?_eq_some.mp (taken?_eq_some.mp hr).1
  have hk : record.kind = k := (Draft.prepare_eq_ok.mp hprepare).2.1.trans (Schema.kind_registered k)
  subst hk
  have hof := Draft.isOf_of_prepare (Schema.isUsable_registered _) hprepare
  have ⟨hcreated, hrests⟩ := hd.rests_respond_add h settings hr
  generalize (respond (catalog e) settings r).run d = out at hcreated hrests ⊢
  exact ⟨hcreated, hd.keep hof (hrests.2 trivial) hrests.1⟩

-- Any other request leaves all as it is.
theorem Has.respond_other (hr : taken? e r = none) :
    ((respond (catalog e) settings r).run d).1.status ≠ 201 ∧
      ((respond (catalog e) settings r).run d).2.Has e c := by
  by_cases hcreates : ∃ k draft, Creates r k draft
  case pos =>
    obtain ⟨k, draft, hcreates⟩ := hcreates
    rw [run_respond_of_creates (catalog e) settings hcreates]
    cases hprepare : draft.prepare (Schema.registered k) with
    | ok record =>
      -- The engine does not have all values of the record.
      have htaken : ¬record.isTaken e := fun htaken => by
        have := taken?_eq_some.mpr ⟨addition?_eq_some.mpr ⟨k, draft, hcreates, hprepare⟩, htaken⟩
        simp [hr] at this
      have hends := (Keeper.ends_create (keeper_lawful e) h hprepare (s := d.store)).run d hd.rests
      rw [catalog_keeper] at hends
      generalize (ExceptT.run ((catalog e).create k draft)).run d = out at hends ⊢
      obtain ⟨a | a, d'⟩ := out
      case ok => exact absurd hends.2.1 htaken
      case error =>
        obtain ⟨hstatus, -, hrests | ⟨hrecord, -⟩⟩ := hends
        · exact ⟨by simp [created, Response.fault, Response.json, hstatus], hd.of_rests hrests⟩
        · exact absurd hrecord htaken
    | error refusal =>
      have hrun := Keeper.run_create_of_error (K := keeper e) hprepare d
      rw [catalog_keeper] at hrun
      rw [hrun]
      exact ⟨by simp [created, Response.fault, Response.json, Refusal.fault, Fault.status], hd⟩
  case neg =>
    have hends := run_respond_of_not_creates (keeper_lawful e) h settings
      (fun k draft hr => hcreates ⟨k, draft, hr⟩) hd.rests
    rw [catalog_keeper] at hends
    generalize (respond (catalog e) settings r).run d = out at hends ⊢
    exact ⟨hends.1, hd.of_rests hends.2⟩

end Respond

end Database

namespace Service

open Http

-- The responses to requests that created entries of a kind.
def successes (k : Kind) (rs : List Request) (as : List Response) : List Response :=
  ((rs.zip as).filter fun x => kind? x.1 = some k ∧ x.2.status = 201).map (·.2)

theorem successes_cons {k : Kind} {r : Request} {rs : List Request} {a : Response} {as : List Response} :
    successes k (r :: rs) (a :: as) =
      if kind? r = some k ∧ a.status = 201 then a :: successes k rs as else successes k rs as := by
  by_cases hr : kind? r = some k ∧ a.status = 201 <;> simp [successes, hr]

theorem kind?_of_addition {r : Request} {record : Record} (hr : addition? r = some record) :
    kind? r = some record.kind := by
  have ⟨k, d, hcreates, hprepare⟩ := addition?_eq_some.mp hr
  rw [hcreates.kind?_eq, (Draft.prepare_eq_ok.mp hprepare).2.1, Schema.kind_registered]

variable {κ : Type} {e : Engine κ} {fits : FieldType → κ → Prop} {c : Contents} {d : Database κ}
  (h : e.Faithful fits) (settings : Settings)

theorem run_mapM_nil {σ : Type} (f : Request → StateM σ Response) (x : σ) : (([].mapM f).run x).2 = x :=
  rfl

theorem run_mapM_singleton {σ : Type} (f : Request → StateM σ Response) (r : Request) (x : σ) :
    (([r].mapM f).run x).2 = ((f r).run x).2 :=
  rfl

-- One request after the other.
theorem run_mapM_cons {σ : Type} (f : Request → StateM σ Response) (r : Request) (rs : List Request) (x : σ) :
    ((r :: rs).mapM f).run x =
      (((f r).run x).1 :: ((rs.mapM f).run ((f r).run x).2).1, ((rs.mapM f).run ((f r).run x).2).2) := by
  rw [List.mapM_cons]
  rfl

include h

-- The database takes the records of all requests that add one to it, and tells the client of each of them.
theorem run_requests (hd : d.Has e c) (rs : List Request) :
    ((rs.mapM (respond (Database.catalog e) settings)).run d).2.Has e
        ((rs.filterMap (taken? e)).foldl Contents.add c) ∧
      ∀ k, ∃ added, (rs.filterMap (taken? e)).foldl Contents.add c k = c k ++ added ∧
        successes k rs ((rs.mapM (respond (Database.catalog e) settings)).run d).1 =
          added.map fun x => created k (.ok (x.2.entry (Schema.registered k) x.1)) := by
  induction rs generalizing c d with
  | nil => exact ⟨hd, fun k => ⟨[], (List.append_nil _).symm, rfl⟩⟩
  | cons r rs ih =>
    rw [run_mapM_cons]
    cases hr : taken? e r with
    | some record =>
      have hstep := hd.respond_add h settings hr
      generalize (respond (Database.catalog e) settings r).run d = out at hstep ⊢
      have ⟨hhas, hrest⟩ := ih hstep.2
      rw [List.filterMap_cons_some hr, List.foldl_cons]
      refine ⟨hhas, fun k => ?_⟩
      have ⟨added, hcontents, hanswers⟩ := hrest k
      rw [successes_cons, hcontents, hanswers, hstep.1, kind?_of_addition (taken?_eq_some.mp hr).1]
      by_cases hk : record.kind = k
      case pos =>
        subst hk
        refine ⟨(((c record.kind).length : Int) + 1, record) :: added, ?_, if_pos ⟨rfl, rfl⟩⟩
        rw [Contents.add_self, List.append_assoc]
        rfl
      case neg =>
        refine ⟨added, ?_, if_neg fun h => hk (Option.some.inj h.1)⟩
        rw [Contents.add_of_ne c fun h => hk h.symm]
    | none =>
      have hstep := hd.respond_other h settings hr
      generalize (respond (Database.catalog e) settings r).run d = out at hstep ⊢
      have ⟨hhas, hrest⟩ := ih hstep.2
      rw [List.filterMap_cons_none hr]
      refine ⟨hhas, fun k => ?_⟩
      have ⟨added, hcontents, hanswers⟩ := hrest k
      rw [successes_cons, if_neg fun h => hstep.1 h.2]
      exact ⟨added, hcontents, hanswers⟩

-- A draft that was created is answered as it is published, and its record stays where it is, whatever comes before
-- and after. The engine has all of its values.
theorem exists_has_of_created (before after : List Request) {r : Request} {k : Kind} {d : Draft}
    (hr : Creates r k d) :
    let serve := respond (Database.catalog e) settings
    let x := ((before.mapM serve).run .empty).2
    let id := (x.store.get k).nextId .root
    let out := (serve r).run x
    out.1.status = 201 → ∃ record c, d.prepare (Schema.registered k) = .ok record ∧ record.isTaken e ∧
      out.1 = created k (.ok (d.published (Schema.registered k) id)) ∧
      ((after.mapM serve).run out.2).2.Has e c ∧ (id, record) ∈ c k := by
  dsimp only
  obtain ⟨hx, _⟩ := run_requests h settings (Database.has_empty e) before
  generalize ((before.mapM (respond (Database.catalog e) settings)).run .empty).2 = x at hx ⊢
  generalize (before.filterMap (taken? e)).foldl Contents.add (fun _ => []) = c at hx
  intro hstatus
  obtain ⟨record, hadd⟩ : ∃ record, taken? e r = some record :=
    Option.ne_none_iff_exists'.mp fun hnone => (hx.respond_other h settings hnone).1 hstatus
  obtain ⟨hrecord, htaken⟩ := taken?_eq_some.mp hadd
  rw [hr.addition?_eq, Except.toOption_eq_some] at hrecord
  have hk : record.kind = k := (Draft.prepare_eq_ok.mp hrecord).2.1.trans (Schema.kind_registered k)
  obtain ⟨hcreated, hout⟩ := hx.respond_add h settings hadd
  rw [hk, ← hx.nextId, Draft.entry_eq_published (Schema.isUsable_registered k) hrecord] at hcreated
  generalize (respond (Database.catalog e) settings r).run x = out at hcreated hout ⊢
  obtain ⟨hy, hlater⟩ := run_requests h settings hout after
  obtain ⟨added, hadded, _⟩ := hlater k
  refine ⟨record, _, hrecord, htaken, hcreated, hy, ?_⟩
  rw [hadded, ← hk, Contents.add_self, hx.nextId]
  simp

end Service

end MediaCatalog
