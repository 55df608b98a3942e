import MediaCatalog.Proofs.Catalog.History

namespace MediaCatalog

open Sql

namespace Dialogue

variable {κ α β : Type}

-- A dialogue that can come to an end without a fault, if no one comes in between.
def CanEnd (e : Engine κ) (i : Nat) (P : Except Fault α → List Commit → Prop) :
    Dialogue α → List Commit → Phase → Prop
  | done x,        cs, _ => P x cs
  | rollback next, cs, _ => CanEnd e i P next cs .idle
  | ask op next,   cs, p => ∃ x p' cs', op.Does e i cs p x p' cs' ∧ CanEnd e i P (next (.ok x)) cs' p'

variable {e : Engine κ} {i : Nat} {P : Except Fault α → List Commit → Prop} {cs : List Commit} {p : Phase}

section Rules

theorem CanEnd.bind {P' : Except Fault β → List Commit → Prop} {m : Dialogue α} {f : α → Dialogue β}
    (hm : m.CanEnd e i P cs p) (hf : ∀ a cs p, P (.ok a) cs → (f a).CanEnd e i P' cs p)
    (he : ∀ x cs, P (.error x) cs → P' (.error x) cs) : (m >>= f).CanEnd e i P' cs p := by
  change (m.bind f).CanEnd e i P' cs p
  induction m generalizing cs p with
  | done x =>
    cases x with
    | ok a => exact hf a cs p hm
    | error x => exact he x cs hm
  | rollback next ih => exact ih hm
  | ask op next ih =>
    obtain ⟨x, p', cs', hd, hnext⟩ := hm
    exact ⟨x, p', cs', hd, ih _ hnext⟩

theorem CanEnd.guarded {m : Dialogue α} (hm : m.CanEnd e i P cs p) : m.guarded.CanEnd e i P cs p := by
  induction m generalizing cs p with
  | done x => cases x <;> exact hm
  | rollback next ih => exact ih hm
  | ask op next ih =>
    obtain ⟨x, p', cs', hd, hnext⟩ := hm
    exact ⟨x, p', cs', hd, ih _ hnext⟩

theorem CanEnd.perform {op : Operation β} {f : β → Dialogue α} (x : β) {p' : Phase} {cs' : List Commit}
    (hd : op.Does e i cs p x p' cs') (hf : (f x).CanEnd e i P cs' p') :
    (Dialogue.perform op >>= f).CanEnd e i P cs p :=
  ⟨x, p', cs', hd, hf⟩

end Rules

section Creation

theorem canEnd_translations {k : Kind} {id : Int} (us : List LocalRecord) {f : Unit → Dialogue α}
    {xs : List (Insert × Int)}
    (hf : (f ()).CanEnd e i P cs (.writing (xs ++ us.map fun u => (.translation k id u, 0)))) :
    ((us.forM fun u => Dialogue.perform (.insertTranslation (.translation k id u))) >>= f).CanEnd e i P cs
      (.writing xs) := by
  induction us generalizing xs with
  | nil =>
    rw [List.map_nil, List.append_nil] at hf
    exact hf
  | cons u us ih =>
    rw [List.map_cons, ← List.singleton_append, ← List.append_assoc] at hf
    exact ⟨(), _, cs, ⟨xs, 0, rfl, rfl, rfl⟩, ih hf⟩

variable (h : History)

-- A record can be added under the next number.
theorem canEnd_write {r : Record} (hr : r.IsOf (Schema.registered r.kind)) :
    (write r).CanEnd e i (fun _ cs => ∃ h : History, h.commits = cs) h.commits p := by
  let id := ((Store.ofCommits e h.commits).get r.kind).nextId .root
  let us : List (Insert × Int) := r.translations.map fun u => (.translation r.kind id u, 0)
  have hus : us.map (·.1) = r.translations.map (.translation r.kind id) := List.map_map
  have hadds : Commit.Adds ⟨i, [] ++ [(Insert.root r, id)] ++ us⟩ ⟨i, id, r⟩ := ⟨rfl, us, rfl, hus⟩
  have hnew : id ∉ ((Store.ofCommits e h.commits).get r.kind).roots.map (·.id) := by
    intro hm
    obtain ⟨row, hrow, hid⟩ := List.mem_map.mp hm
    have := Tables.lt_nextId (o := .root) hrow
    exact Int.lt_irrefl _ (hid ▸ this)
  have hkeys : ∀ x ∈ [] ++ [(Insert.root r, id)] ++ us, x.1.owner = .root →
      x.2 ∉ ((Store.ofCommits e h.commits).get x.1.kind).roots.map (·.id) := by
    rintro x hx ho
    rcases List.mem_cons.mp hx with rfl | hx
    · exact hnew
    · rw [(translation_of_mem hus x hx).2] at ho
      cases ho
  refine .perform () ⟨rfl, rfl⟩ (.perform id ⟨[], rfl, rfl, rfl⟩ (canEnd_translations r.translations ?_))
  refine .perform () ⟨_, rfl, rfl, rfl, hkeys⟩ ⟨h.add hadds hr ?_, rfl⟩
  rwa [← h.map_id_roots (e := e)]

variable {fits : FieldType → κ → Prop} (hf : e.Faithful fits) {k : Kind}

include hf

-- There is an answer to every question about an entry.
theorem canEnd_findEntry (l : Language) (id : Int) :
    (findEntry (Schema.registered k) l id).CanEnd e i (fun _ _ => True) h.commits p := by
  have hrows := (h.keeps_take (e := e) h.commits.length k).projection_answers hf (Schema.isUsable_registered k)
    (h.sound_take h.commits.length k) (l.predicate ++ [Search.among [id]])
  generalize Tables.projection e _ _ = rows at hrows
  have hkind : (Schema.registered k).kind = k := Schema.kind_registered k
  have hprojection := Keeper.projection_entry k l id
  rw [findEntry, hprojection]
  have hsees : (Phase.reading h.commits.length).Sees h.commits h.commits.length := ⟨Nat.le_refl _, Nat.le_refl _⟩
  refine CanEnd.perform () ⟨rfl, rfl⟩ (.perform rows ⟨⟨_, hsees, ?_, rfl⟩, rfl⟩
    (.perform () ⟨rfl, rfl⟩ trivial))
  rwa [hkind]

-- There is one to every question of a search, too, unless the search is refused.
theorem canEnd_findPage {filter : Dictionary String} {l : Language} {request : PageRequest} {condition : Predicate}
    (hp : Search.predicate ⟨Schema.registered k, filter, l⟩ none = .ok condition) {order : List OrderTerm}
    (ho : request.sort.mapM (OrderTerm.ofKey (Schema.registered k)) = .ok order) :
    (findPage ⟨Schema.registered k, filter, l⟩ request).CanEnd e i (fun x _ => ∃ page, x = .ok page)
      h.commits p := by
  have hs := Schema.isUsable_registered k
  have hkind : (Schema.registered k).kind = k := Schema.kind_registered k
  have hkeeps := h.keeps_take (e := e) h.commits.length k
  have hrecords := h.sound_take h.commits.length k
  generalize ht : (Store.ofCommits e (h.commits.take h.commits.length)).get k = t at hkeeps
  have hcount := Tables.count_answers (e := e) (t := t) ⟨(Schema.registered k).kind, condition⟩
  have hwindow := Tables.window_answers hf.toLawful (t := t)
    ⟨(Schema.registered k).kind, condition, order, request.limit, request.offset⟩
    (Tables.exists_fits (hkeeps.isSound hf hs hrecords).fits (Search.order_columns ho))
  generalize Tables.window e _ _ = ids at hwindow
  have hrows := hkeeps.projection_answers hf hs hrecords (condition ++ [Search.among ids])
  generalize Tables.projection e _ _ = rows at hrows
  have hsees {q : Phase} (hq : q.Sees h.commits h.commits.length) {answer : Tables κ → Prop} (ha : answer t) :
      q.Answers e h.commits (Schema.registered k).kind answer (.looking h.commits.length) :=
    ⟨_, hq, by rwa [hkind, ht], rfl⟩
  have hfirst : (Phase.reading h.commits.length).Sees h.commits h.commits.length := ⟨Nat.le_refl _, Nat.le_refl _⟩
  have hlater : (Phase.looking h.commits.length).Sees h.commits h.commits.length := rfl
  rw [findPage, Search.count_eq_ok.mpr ⟨_, hp, rfl⟩, Search.window_eq_ok.mpr ⟨_, hp, _, ho, rfl⟩]
  refine CanEnd.perform () ⟨rfl, rfl⟩ (.perform _ ⟨hsees hfirst hcount, rfl⟩
    (.perform ids ⟨hsees hlater hwindow, rfl⟩ ?_))
  by_cases hids : ids.isEmpty
  case pos =>
    rw [if_pos hids]
    exact .perform () ⟨rfl, rfl⟩ ⟨_, rfl⟩
  case neg =>
    rw [if_neg hids, Search.projection_eq_ok.mpr ⟨_, Search.predicate_some hp, rfl⟩]
    exact .perform rows ⟨hsees hlater hrows, rfl⟩ (.perform () ⟨rfl, rfl⟩ ⟨_, rfl⟩)

theorem canEnd_create {d : Draft} {record : Record} (hd : d.prepare (Schema.registered k) = .ok record) :
    (create (Schema.registered k) d).CanEnd e i (fun _ _ => True) h.commits p := by
  have hk : record.kind = k := (Draft.prepare_eq_ok.mp hd).2.1.trans (Schema.kind_registered k)
  have hof := Draft.isOf_of_prepare (Schema.isUsable_registered k) hd
  subst hk
  rw [create, hd]
  change CanEnd e i _ ((write record).guarded >>= _) _ _
  refine (canEnd_write h hof).guarded.bind (fun id cs p hcs => ?_) fun _ _ _ => trivial
  obtain ⟨h', rfl⟩ := hcs
  refine (canEnd_findEntry h' hf .any id).bind (fun found _ _ _ => ?_) fun _ _ _ => trivial
  cases found <;> trivial

end Creation

end Dialogue

namespace World

variable {κ : Type} {e : Engine κ} {tasks : Nat → Task} {w : World} {i : Nat} {P : Except Fault Outcome → Prop}

-- A later world in which a client has ended as is said without a further fault, and no one else has done anything.
def HasEnd (e : Engine κ) (tasks : Nat → Task) (i : Nat) (P : Except Fault Outcome → Prop) (w : World) : Prop :=
  ∃ w', Reachable e tasks w' ∧ (∃ x, (w'.clients i).rest = .done x ∧ P x) ∧
    (w'.clients i).faults = (w.clients i).faults ∧ ∀ j, j ≠ i → w'.clients j = w.clients j

theorem HasEnd.of_move {c : Client} {cs : List Commit} (hfaults : c.faults = (w.clients i).faults)
    (h : (w.move i c cs).HasEnd e tasks i P) : w.HasEnd e tasks i P := by
  obtain ⟨w', hw', hdone, hmet, hothers⟩ := h
  refine ⟨w', hw', hdone, ?_, fun j hj => ?_⟩
  · rw [hmet, clients_move_self, hfaults]
  · rw [hothers j hj, clients_move_of_ne _ _ _ hj]

-- What can come to an end does so.
theorem hasEnd_of_canEnd (hw : Reachable e tasks w)
    (hend : (w.clients i).rest.CanEnd e i (fun x _ => P x) w.commits (w.clients i).phase) :
    w.HasEnd e tasks i P := by
  generalize hrest : (w.clients i).rest = m at hend
  induction m generalizing w with
  | done x => exact ⟨w, hw, ⟨x, hrest, hend⟩, rfl, fun _ _ => rfl⟩
  | rollback next ih =>
    have hstep : (w.clients i).Step e i w.commits ⟨next, .idle, (w.clients i).faults⟩ w.commits := by
      generalize w.clients i = c at hrest
      obtain ⟨_, _, _⟩ := c
      cases hrest
      exact .rolledBack
    refine .of_move (c := ⟨next, .idle, (w.clients i).faults⟩) rfl (ih (hw.tail (.step hstep)) ?_ ?_)
    · rw [clients_move_self]
    · rw [clients_move_self]
      exact hend
  | ask op next ih =>
    obtain ⟨x, p', cs', hd, hnext⟩ := hend
    have hstep : (w.clients i).Step e i w.commits ⟨next (.ok x), p', (w.clients i).faults⟩ cs' := by
      generalize w.clients i = c at hrest hd
      obtain ⟨_, _, _⟩ := c
      cases hrest
      exact .answered hd
    refine .of_move (c := ⟨next (.ok x), p', (w.clients i).faults⟩) rfl (ih (.ok x) (hw.tail (.step hstep)) ?_ ?_)
    · rw [clients_move_self]
    · rw [clients_move_self]
      exact hnext

end World

end MediaCatalog
