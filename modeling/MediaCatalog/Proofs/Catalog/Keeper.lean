import MediaCatalog.Proofs.Store.Excess
import MediaCatalog.Proofs.Store.Fetch
import MediaCatalog.Proofs.Store.Write

namespace MediaCatalog

open Sql

namespace Run

variable {σ α β : Type}

-- From every state that satisfies `before`, something is done as described or fails as described.
structure Ends (m : Run σ α) (before : σ → Prop) (done : α → σ → Prop) (failed : Fault → σ → Prop) :
    Prop where
  run : ∀ x, before x →
    match (ExceptT.run m).run x with
    | (.ok a, y)    => done a y
    | (.error f, y) => failed f y

namespace Ends

variable {m : Run σ α} {before : σ → Prop} {done : α → σ → Prop} {failed : Fault → σ → Prop}

theorem pure {a : α} (h : ∀ x, before x → done a x) : Ends (Pure.pure a : Run σ α) before done failed :=
  ⟨h⟩

theorem throw {f : Fault} (h : ∀ x, before x → failed f x) :
    Ends (MonadExcept.throw f : Run σ α) before done failed :=
  ⟨h⟩

theorem bind {f : α → Run σ β} {done' : β → σ → Prop} (hm : m.Ends before done failed)
    (hf : ∀ a, (f a).Ends (done a) done' failed) : (m >>= f).Ends before done' failed := by
  refine ⟨fun x hx => ?_⟩
  have hm := hm.run x hx
  cases hr : (ExceptT.run m).run x with
  | mk a y =>
    rw [hr] at hm
    cases a with
    | ok a =>
      rw [ExceptT.run_bind_of_ok hr]
      exact (hf a).run y hm
    | error f =>
      rw [ExceptT.run_bind_of_error hr]
      exact hm

-- What is known before anything is done.
theorem ofExcept {x : Except Fault α} {f : α → Run σ β} {done' : β → σ → Prop}
    (hf : ∀ a, x = .ok a → (f a).Ends before done' failed)
    (he : ∀ e, x = .error e → ∀ y, before y → failed e y) :
    Ends ((liftM x : ExceptT Fault (StateM σ) α) >>= f : Run σ β) before done' failed := by
  cases x with
  | ok a => exact ⟨(hf a rfl).run⟩
  | error e => exact ⟨he e rfl⟩

theorem imp {before' : σ → Prop} {done' : α → σ → Prop} {failed' : Fault → σ → Prop}
    (h : m.Ends before done failed) (hb : ∀ x, before' x → before x)
    (hd : ∀ a x, done a x → done' a x) (hf : ∀ f x, failed f x → failed' f x) :
    m.Ends before' done' failed' := by
  refine ⟨fun x hx => ?_⟩
  have h := h.run x (hb x hx)
  split at h
  case h_1 => exact hd _ _ h
  case h_2 => exact hf _ _ h

-- The state from which something was done is remembered.
theorem traced (h : m.Ends before done failed) : m.Ends before
    (fun a y => done a y ∧ ∃ x, before x ∧ (ExceptT.run m).run x = (.ok a, y))
    fun f y => failed f y ∧ ∃ x, before x ∧ (ExceptT.run m).run x = (.error f, y) := by
  refine ⟨fun x hx => ?_⟩
  have h := h.run x hx
  cases hr : (ExceptT.run m).run x with
  | mk a y =>
    rw [hr] at h
    cases a <;> exact ⟨h, x, hx, hr⟩

-- Nothing is claimed of a state in which something cannot begin.
theorem of_not (h : ∀ x, ¬before x) : m.Ends before done failed :=
  ⟨fun x hx => absurd hx (h x)⟩

end Ends

-- Something is done, or it fails by a fault of the server; it does not fail if it is sure to succeed.
def Tries (m : Run σ α) (sure : Prop) (before : σ → Prop) (done : α → σ → Prop) (failed : σ → Prop) : Prop :=
  m.Ends before done fun f x => ¬sure ∧ f.status = 500 ∧ failed x

namespace Tries

variable {m : Run σ α} {sure : Prop} {before failed : σ → Prop} {done : α → σ → Prop}

-- Less is sure.
theorem relax {sure' : Prop} (h : m.Tries sure before done failed) (hs : sure' → sure) :
    m.Tries sure' before done failed :=
  h.imp (fun _ hx => hx) (fun _ _ hx => hx) fun _ _ hx => ⟨mt hs hx.1, hx.2⟩

theorem bind {f : α → Run σ β} {done' : β → σ → Prop} (hm : m.Tries sure before done failed)
    (hf : ∀ a, (f a).Tries sure (done a) done' failed) : (m >>= f).Tries sure before done' failed :=
  Ends.bind hm hf

end Tries

end Run

namespace Store

variable {κ : Type}

-- The store after a record has been added.
def keep (e : Engine κ) (s : Store κ) (r : Record) : Store κ :=
  s.set r.kind ((s.get r.kind).keep e r r.translations)

theorem set_set (s : Store κ) (k : Kind) (t t' : Tables κ) : (s.set k t).set k t' = s.set k t' := by
  cases k <;> rfl

theorem get_keep (e : Engine κ) (s : Store κ) (r : Record) :
    (s.keep e r).get r.kind = (s.get r.kind).keep e r r.translations :=
  get_set ..

theorem get_keep_ne (e : Engine κ) (s : Store κ) (r : Record) {k : Kind} (h : k ≠ r.kind) :
    (s.keep e r).get k = s.get k :=
  get_set_ne _ _ h

end Store

-- A catalog together with what it has committed, what its transaction sees, and whether its database is in a
-- state in which nothing fails.
structure Keeper (κ σ : Type) where
  catalog : Catalog σ
  store   : σ → Store κ
  view    : σ → Store κ
  IsReady : σ → Prop

namespace Keeper

variable {κ σ : Type} (K : Keeper κ σ)

-- Between two transactions.
def Rests (sure : Prop) (s : Store κ) (x : σ) : Prop :=
  K.store x = s ∧ (sure → K.IsReady x)

-- Within a transaction.
def Sees (sure : Prop) (s v : Store κ) (x : σ) : Prop :=
  K.Rests sure s x ∧ K.view x = v

-- What each step does to the tables of an engine. A question can be too much for the engine at any time; a row is
-- inserted only where nothing keeps it from being stored.
structure Lawful (e : Engine κ) : Prop where
  checkHealth : ∀ sure s, K.catalog.checkHealth.Tries sure (K.Rests sure s)
    (fun _ => K.Rests sure s) (K.Rests sure s)
  startRead : ∀ sure s, K.catalog.reader.start.Tries sure (K.Rests sure s)
    (fun _ => K.Sees sure s s) (K.Rests sure s)
  count : ∀ c sure s v, (K.catalog.reader.count c).Tries False (K.Sees sure s v)
    (fun _ => K.Sees sure s v) (K.Rests sure s)
  window : ∀ w sure s v, (K.catalog.reader.window w).Tries False (K.Sees sure s v)
    (fun _ => K.Sees sure s v) (K.Rests sure s)
  rows : ∀ p sure s v, (K.catalog.reader.rows p).Tries
    (sure ∧ (v.get p.schema.kind).excess? e p.schema.kind p.condition [] = none) (K.Sees sure s v)
    (fun rows x => rows = (v.get p.schema.kind).projection e p ∧ K.Sees sure s v x) (K.Rests sure s)
  finish : ∀ sure s v, K.catalog.reader.finish.Tries sure (K.Sees sure s v)
    (fun _ => K.Rests sure s) (K.Rests sure s)
  startWrite : ∀ sure s, K.catalog.writer.start.Tries sure (K.Rests sure s)
    (fun _ => K.Sees sure s s) (K.Rests sure s)
  insertRoot : ∀ i sure s v, (K.catalog.writer.insertRoot i).Tries
    (sure ∧ (v.get i.kind).hindrance? e i = none) (K.Sees sure s v)
    (fun id x => id = (v.get i.kind).nextId i.owner ∧ (v.get i.kind).hindrance? e i = none ∧
      K.Sees sure s (v.insert e i) x) (K.Rests sure s)
  insertTranslation : ∀ i sure s v, (K.catalog.writer.insertTranslation i).Tries
    (sure ∧ (v.get i.kind).hindrance? e i = none) (K.Sees sure s v)
    (fun _ x => (v.get i.kind).hindrance? e i = none ∧ K.Sees sure s (v.insert e i) x) (K.Rests sure s)
  commit : ∀ sure s v, K.catalog.writer.commit.Tries sure (K.Sees sure s v)
    (fun _ => K.Rests sure v) (K.Rests sure s)
  rollback : ∀ sure s x, K.Rests sure s x → K.Rests sure s (K.catalog.writer.rollback x)

variable {K} {e : Engine κ} {fits : FieldType → κ → Prop} (hK : K.Lawful e) {sure : Prop} {s : Store κ}
  {r : Record}

section Insertion

-- A record that nothing keeps from being added.
structure Takes (e : Engine κ) (s : Store κ) (r : Record) : Prop where
  tables : (s.get r.kind).IsOwned e r.kind
  record : r.IsOf (Schema.registered r.kind)
  taken  : r.isTaken e

variable (h : e.Faithful fits)

include hK h

-- Each translation is added behind the root row and the translations before it.
theorem tries_translations (us vs : List LocalRecord) (hr : us ++ vs = r.translations) :
    (vs.forM fun u => K.catalog.writer.insertTranslation
      (.translation r.kind ((s.get r.kind).nextId .root) u)).Tries (sure ∧ Takes e s r)
      (K.Sees sure s (s.set r.kind ((s.get r.kind).keep e r us)))
      (fun _ x => (∀ u ∈ vs, u.isTaken e) ∧ K.Sees sure s (s.keep e r) x) (K.Rests sure s) := by
  induction vs generalizing us with
  | nil =>
    rw [List.append_nil] at hr
    subst hr
    exact .pure fun _ hx => ⟨by simp, hx⟩
  | cons u vs ih =>
    let t := s.get r.kind
    have hinsert := hK.insertTranslation (.translation r.kind (t.nextId .root) u) sure s
      (s.set r.kind (t.keep e r us))
    refine (hinsert.relax ?_).bind fun _ => ?_
    · rintro ⟨hsure, ht⟩
      refine ⟨hsure, ?_⟩
      have hprefix : us ++ [u] <+: r.translations :=
        ⟨vs, by rw [List.append_assoc, List.singleton_append, hr]⟩
      have := Tables.hindrance?_translation h ht.record ht.taken ht.tables hprefix
      rwa [← s.get_set r.kind (t.keep e r us)] at this
    · have hnext : (s.set r.kind (t.keep e r us)).insert e
          (.translation r.kind (t.nextId .root) u) = s.set r.kind (t.keep e r (us ++ [u])) := by
        rw [Store.insert, Tables.keep_concat]
        exact (s.set_set ..).trans (congrArg (fun t' => s.set r.kind (Tables.insert e t' _)) (s.get_set ..))
      by_cases hu : u.isTaken e
      case neg => exact .of_not fun x hx => hu (Tables.isTaken_of_hindrance?_translation h hx.1)
      rw [hnext]
      refine (ih (us ++ [u]) (by rw [List.append_assoc, List.singleton_append, hr])).imp (fun _ hx => hx.2)
        (fun _ _ hx => ⟨?_, hx.2⟩) fun _ _ hx => hx
      exact List.forall_mem_cons.mpr ⟨hu, hx.1⟩

-- All rows of a record are added, or none.
theorem tries_insert : (r.insert K.catalog.writer).Tries (sure ∧ Takes e s r) (K.Rests sure s)
    (fun id x => id = (s.get r.kind).nextId .root ∧ r.isTaken e ∧ K.Rests sure (s.keep e r) x)
    (K.Rests sure s) := by
  have hwrite : (r.write K.catalog.writer).Tries (sure ∧ Takes e s r) (K.Rests sure s)
      (fun id x => id = (s.get r.kind).nextId .root ∧ r.isTaken e ∧ K.Rests sure (s.keep e r) x)
      (K.Rests sure s) := by
    have hroot := (hK.insertRoot (.root r) sure s s).relax fun ht : sure ∧ Takes e s r =>
      ⟨ht.1, Tables.hindrance?_root h ht.2.record ht.2.taken⟩
    refine ((hK.startWrite sure s).relax And.left).bind fun _ => hroot.bind fun id => ?_
    by_cases hid : id = (s.get r.kind).nextId .root
    case neg => exact .of_not fun x hx => hid hx.1
    subst hid
    by_cases htaken : ∀ c ∈ r.root, e.takes c.2
    case neg => exact .of_not fun x hx => htaken (Tables.isTaken_of_hindrance?_root h hx.2.1)
    refine Run.Ends.imp ?_ (fun _ hx => hx.2.2) (fun _ _ hx => hx) fun _ _ hx => hx
    refine (tries_translations hK h [] r.translations rfl).bind fun _ => ?_
    by_cases htranslations : ∀ u ∈ r.translations, u.isTaken e
    case neg => exact .of_not fun x hx => htranslations hx.1
    refine Run.Ends.imp ?_ (fun _ hx => hx.2) (fun _ _ hx => hx) fun _ _ hx => hx
    have hr : r.isTaken e := Record.isTaken_eq.mpr ⟨htaken, htranslations⟩
    exact ((hK.commit sure s (s.keep e r)).relax And.left).bind fun _ => .pure fun x hx => ⟨rfl, hr, hx⟩
  refine ⟨fun x hx => ?_⟩
  have hwrite := hwrite.run x hx
  cases hr : r.write K.catalog.writer x with
  | mk a y =>
    have hrun : (ExceptT.run (r.write K.catalog.writer)).run x = (a, y) := hr
    rw [hrun] at hwrite
    cases a with
    | ok id =>
      have hinsert : (ExceptT.run (r.insert K.catalog.writer)).run x = (.ok id, y) := by
        change r.insert K.catalog.writer x = _
        rw [Record.insert, hr]
      rw [hinsert]
      exact hwrite
    | error f =>
      have hinsert : (ExceptT.run (r.insert K.catalog.writer)).run x =
          (.error f, K.catalog.writer.rollback y) := by
        change r.insert K.catalog.writer x = _
        rw [Record.insert, hr]
      rw [hinsert]
      exact ⟨hwrite.1, hwrite.2.1, hK.rollback sure s y hwrite.2.2⟩

end Insertion

section Reading

theorem projection_entry (k : Kind) (l : Language) (id : Int) :
    (Search.mk (Schema.registered k) ∅ l).projection [id] =
      .ok ⟨Schema.registered k, l.predicate ++ [Search.among [id]]⟩ :=
  Search.projection_eq_ok.mpr ⟨_, Search.predicate_unfiltered, rfl⟩

-- What the database answers about a single entry.
def fetched (e : Engine κ) (s : Store κ) (k : Kind) (l : Language) (id : Int) : Option Entry :=
  (Row.assemble [id] ((s.get k).projection e
    ⟨Schema.registered k, l.predicate ++ [Search.among [id]]⟩)).head?

-- What the database answers about an entry is what its record shows.
theorem fetched_eq (h : e.Faithful fits) {k : Kind} {l : Language} {rs : Records} (ht : (s.get k).Keeps e rs)
    (hr : rs.Sound (Schema.registered k)) (id : Int) :
    fetched e s k l id = rs.fetch? (Schema.registered k) l id := by
  have hs := Schema.isUsable_registered k
  exact ht.head?_assemble h hs hr l (ht.projection_answers h hs hr _)

-- A record that has been added is found.
theorem fetched_keep_ne_none (h : e.Lawful fits) (hr : r.translations ≠ []) (s : Store κ) :
    fetched e (s.keep e r) r.kind .any ((s.get r.kind).nextId .root) ≠ none := by
  have ⟨j, hj, hid⟩ := Tables.exists_mem_selected (t := s.get r.kind) h hr
  have hrow : ∃ row ∈ ((s.keep e r).get r.kind).projection e ⟨Schema.registered r.kind,
      Language.any.predicate ++ [Search.among [(s.get r.kind).nextId .root]]⟩,
        row.id = (s.get r.kind).nextId .root := by
    refine ⟨j.row e (Schema.registered r.kind), List.mem_map.mpr ⟨j, ?_, rfl⟩, hid⟩
    rw [List.mem_mergeSort, Store.get_keep, Schema.kind_registered]
    exact hj
  obtain ⟨row, hrow, hid⟩ := hrow
  rw [fetched]
  generalize Tables.projection e _ _ = rows at hrow ⊢
  cases hrows : rows.filter (·.id = (s.get r.kind).nextId .root) with
  | nil => exact absurd (List.filter_eq_nil_iff.mp hrows row hrow) (by simpa using hid)
  | cons row rows => simp [Row.assemble, hrows, Row.entryOf?]

include hK

theorem tries_findEntry (h : e.Faithful fits) (sure : Prop) (s : Store κ) (k : Kind) (l : Language) (id : Int) :
    (K.catalog.findEntry k l id).Tries (sure ∧ ∀ v ∈ l.values, e.takes v) (K.Rests sure s)
      (fun o x => o = fetched e s k l id ∧ K.Rests sure s x) (K.Rests sure s) := by
  have hkind : (Schema.registered k).kind = k := Schema.kind_registered k
  have hrows := hK.rows ⟨Schema.registered k, l.predicate ++ [Search.among [id]]⟩ sure s s
  rw [hkind] at hrows
  refine Run.Ends.ofExcept (fun p hp => ?_) fun e he => ?_
  · rw [projection_entry] at hp
    cases hp
    refine ((hK.startRead sure s).relax And.left).bind fun _ => (hrows.relax fun hsure =>
      ⟨hsure.1, Tables.excess?_single h hsure.2 id⟩).bind fun rows => ?_
    by_cases heq : rows = (s.get k).projection e ⟨Schema.registered k, l.predicate ++ [Search.among [id]]⟩
    case neg => exact .of_not fun x hx => heq hx.1
    subst heq
    refine Run.Ends.imp ?_ (fun _ hx => hx.2) (fun _ _ hx => hx) fun _ _ hx => hx
    exact ((hK.finish sure s s).relax And.left).bind fun _ => .pure fun x hx => ⟨rfl, hx⟩
  · rw [projection_entry] at he
    cases he

-- Whatever a search comes to, what is committed stays as it is.
theorem ends_findPage (k : Kind) (filter : Dictionary String) (l : Language) (request : PageRequest) :
    (K.catalog.findPage k filter l request).Ends (K.Rests sure s) (fun _ => K.Rests sure s)
      fun _ => K.Rests sure s := by
  have hfails {α : Type} {m : Run σ α} {sure' : Prop} {before : σ → Prop} {done : α → σ → Prop}
      (hm : m.Tries sure' before done (K.Rests sure s)) :
      m.Ends before done fun _ => K.Rests sure s :=
    hm.imp (fun _ hx => hx) (fun _ _ hx => hx) fun _ _ hx => hx.2.2
  have hfinish (p : Page Entry) : (do K.catalog.reader.finish; return p : Run σ (Page Entry)).Ends
      (K.Sees sure s s) (fun _ => K.Rests sure s) fun _ => K.Rests sure s :=
    (hfails (hK.finish sure s s)).bind fun _ => .pure fun _ hx => hx
  refine .ofExcept (fun c _ => .ofExcept (fun w _ => ?_) fun _ _ _ hx => hx) fun _ _ _ hx => hx
  refine (hfails (hK.startRead sure s)).bind fun _ => (hfails (hK.count c sure s s)).bind fun total =>
    (hfails (hK.window w sure s s)).bind fun ids => ?_
  split
  case isTrue => exact hfinish _
  case isFalse =>
    refine .ofExcept (fun p _ => ?_) fun _ _ _ hx => hx.1
    exact (hfails (hK.rows p sure s s)).bind fun rows =>
      (hfinish _).imp (fun _ hx => hx.2) (fun _ _ hx => hx) fun _ _ hx => hx

end Reading

section Creation

include hK

omit hK in
-- A draft that cannot be prepared is turned down before anything is done.
theorem run_create_of_error {k : Kind} {d : Draft} {refusal : Refusal}
    (hd : d.prepare (Schema.registered k) = .error refusal) (x : σ) :
    (ExceptT.run (K.catalog.create k d)).run x = (.error refusal.fault, x) := by
  rw [Catalog.create, Draft.createEntry, Draft.create, hd]
  rfl

variable (h : e.Faithful fits) {k : Kind} {d : Draft} (hd : d.prepare (Schema.registered k) = .ok r)

include h hd

-- The rows of a draft that can be prepared are added as a whole, or nothing is added.
theorem tries_create (sure : Prop) (s : Store κ) :
    (d.create (Record.insert K.catalog.writer) (Schema.registered k)).Tries
    (sure ∧ Takes e s r) (K.Rests sure s)
    (fun id x => id = (s.get k).nextId .root ∧ r.isTaken e ∧ K.Rests sure (s.keep e r) x) (K.Rests sure s) := by
  have hk : r.kind = k := (Draft.prepare_eq_ok.mp hd).2.1.trans (Schema.kind_registered k)
  rw [Draft.create, hd, ← hk]
  exact tries_insert hK h

-- Then they are read back. Where that fails, the rows have been added nevertheless.
theorem ends_create : (K.catalog.create k d).Ends (K.Rests sure s)
    (fun x y => fetched e (s.keep e r) k .any ((s.get k).nextId .root) = some x ∧ r.isTaken e ∧
      K.Rests sure (s.keep e r) y)
    fun f y => f.status = 500 ∧ ¬(sure ∧ Takes e s r) ∧ (K.Rests sure s y ∨
      r.isTaken e ∧ K.Rests sure (s.keep e r) y ∧ ∃ z, K.Rests sure (s.keep e r) z ∧
        (ExceptT.run (K.catalog.findEntry k .any ((s.get k).nextId .root))).run z = (.error f, y)) := by
  have hk : r.kind = k := (Draft.prepare_eq_ok.mp hd).2.1.trans (Schema.kind_registered k)
  have hof := Draft.isOf_of_prepare (Schema.isUsable_registered k) hd
  have hfetched := fetched_keep_ne_none h.toLawful hof.translated s
  rw [hk] at hfetched
  have hcreate := tries_create hK h hd sure s
  refine Run.Ends.bind (hcreate.imp (fun _ hx => hx) (fun _ _ hx => hx) fun f y hy => ?_) fun id => ?_
  · exact ⟨hy.2.1, hy.1, .inl hy.2.2⟩
  by_cases hid : id = (s.get k).nextId .root ∧ r.isTaken e
  case neg => exact .of_not fun x hx => hid ⟨hx.1, hx.2.1⟩
  obtain ⟨rfl, htaken⟩ := hid
  have hfind := tries_findEntry hK h sure (s.keep e r) k .any ((s.get k).nextId .root)
  refine (hfind.traced.imp (fun _ hx => hx.2.2) (fun _ _ hx => hx.1) fun f y hy => ?_).bind fun o => ?_
  · exact ⟨hy.1.2.1, fun hs => hy.1.1 ⟨hs.1, fun v hv => by cases hv⟩, .inr ⟨htaken, hy.1.2.2, hy.2⟩⟩
  cases o with
  | some x => exact .pure fun y hy => ⟨hy.1.symm, htaken, hy.2⟩
  | none => exact .of_not fun y hy => hfetched hy.1.symm

end Creation

end Keeper

end MediaCatalog
