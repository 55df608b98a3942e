import MediaCatalog.Proofs.Catalog.History

namespace MediaCatalog

open Sql

namespace Search

variable {κ : Type}

-- The page that a state has: its entries in order, as far as the page shows them, and how many there are in all.
-- They are those whose numbers a window of the same state is answered with.
def IsPage (e : Engine κ) (t : Tables κ) (s : Search) (request : PageRequest) (page : Page Entry) : Prop :=
  ∃ p order, s.predicate none = .ok p ∧ request.sort.mapM (OrderTerm.ofKey s.schema) = .ok order ∧
    Window.Answers e t ⟨s.schema.kind, p, order, request.limit, request.offset⟩ (page.items.map (·.id)) ∧
    page = .answer (((t.listing e s.schema p order).drop request.offset.toNatClampNeg).take
      request.limit.toNatClampNeg) request (.ofNat (t.found e s.schema.kind p).length)

section

variable {e : Engine κ} {fits : FieldType → κ → Prop} (h : e.Lawful fits) {s : Search} (hs : s.schema.IsSound)
  (hc : (s.schema.fields.map (·.column)).Nodup) {t : Tables κ} (ht : t.IsSound e fits s.schema) {p : Predicate}
  (hp : s.predicate none = .ok p) {request : PageRequest} {order : List OrderTerm}
  (ho : request.sort.mapM (OrderTerm.ofKey s.schema) = .ok order) {total : Int64} {ids : List Int}
  (hcount : Count.Answers e t ⟨s.schema.kind, p⟩ total)
  (hwindow : Window.Answers e t ⟨s.schema.kind, p, order, request.limit, request.offset⟩ ids)

include h hs hc ht hp ho hcount hwindow

-- Answers from one state make up the page of that state.
theorem isPage_of_answers {rows : List Row} (hrows : Projection.Answers e t ⟨s.schema, p ++ [among ids]⟩ rows) :
    s.IsPage e t request (.answer (Row.assemble ids rows) request total) := by
  have hids := hwindow
  obtain ⟨all, hd, hsorted, heq⟩ := hids
  rw [eq_ranked h ht (order_columns ho) hd hsorted, ← List.map_drop, ← List.map_take] at heq
  dsimp only at heq
  generalize hrs : ((t.ranked e s.schema.kind p order).drop request.offset.toNatClampNeg).take
    request.limit.toNatClampNeg = rs at heq
  have hsub : rs.Sublist (t.ranked e s.schema.kind p order) :=
    hrs ▸ (List.take_sublist ..).trans (List.drop_sublist ..)
  subst heq
  have hitems : Row.assemble (rs.map (·.id)) rows = rs.map (t.entryOf e s.schema p) := by
    refine assemble_rows h ht hs hc (fun r hr => (Tables.ranked_perm order).mem_iff.mp (hsub.mem hr)) ?_ hrows
    exact (((Tables.ranked_perm order).map (·.id)).nodup_iff.mpr (Tables.nodup_found ht.roots)).sublist (hsub.map _)
  refine ⟨p, order, hp, ho, ?_, ?_⟩
  · rw [hitems]
    have hid : (Page.answer (rs.map (t.entryOf e s.schema p)) request total).items.map (·.id) = rs.map (·.id) :=
      List.map_map
    rwa [hid]
  · rw [hitems, count_eq ht hcount, Tables.listing, ← List.map_drop, ← List.map_take, hrs]

end

end Search

namespace Dialogue

variable {κ α β : Type}

-- What is to be said of the result of a client's dialogue, in view of the faults that it has met. It goes on to hold
-- whatever other clients add, and a fault that was met may always be the result.
structure Goal (i : Nat) (Q : History → List Fault → Except Fault α → Prop) : Prop where
  stable : ∀ {h h' : History} {fs : List Fault} {x : Except Fault α}, Q h fs x → h.Extends (· ≠ i) h' → Q h' fs x
  failed : ∀ {h : History} {fs : List Fault} {f : Fault}, f ∈ fs → Q h fs (.error f)

-- The recursion is that of the dialogue. Between two operations others may have added something.
def Safe (e : Engine κ) (i : Nat) (Q : History → List Fault → Except Fault α → Prop) :
    Dialogue α → History → Phase → List Fault → Prop
  | done x,        h, _, fs => Q h fs x
  | rollback next, h, _, fs => Safe e i Q next h .idle fs
  | ask op next,   h, p, fs => ∀ h', h.Extends (· ≠ i) h' →
    (∀ x p' cs, op.Does e i h'.commits p x p' cs →
      ∃ h'', h''.commits = cs ∧ h'.Extends (· = i) h'' ∧ Safe e i Q (next (.ok x)) h'' p' fs) ∧
    ∀ reason, Safe e i Q (next (.error (.database reason))) h' p (fs ++ [.database reason])

variable {e : Engine κ} {i : Nat} {Q : History → List Fault → Except Fault α → Prop} {h h' : History} {p : Phase}
  {fs : List Fault}

section Rules

theorem Safe.mono (hQ : Goal i Q) {m : Dialogue α} (hm : m.Safe e i Q h p fs) (hh : h.Extends (· ≠ i) h') :
    m.Safe e i Q h' p fs := by
  induction m generalizing p with
  | done x => exact hQ.stable hm hh
  | rollback next ih => exact ih hm
  | ask op next => exact fun h'' hh' => hm h'' (hh.trans hh')

theorem Safe.bind {Q' : History → List Fault → Except Fault β → Prop} {m : Dialogue α} {f : α → Dialogue β}
    (hm : m.Safe e i Q h p fs) (hf : ∀ h p fs a, Q h fs (.ok a) → (f a).Safe e i Q' h p fs)
    (he : ∀ h fs x, Q h fs (.error x) → Q' h fs (.error x)) : (m >>= f).Safe e i Q' h p fs := by
  change (m.bind f).Safe e i Q' h p fs
  induction m generalizing h p fs with
  | done x =>
    cases x with
    | ok a => exact hf h p fs a hm
    | error x => exact he h fs x hm
  | rollback next ih => exact ih hm
  | ask op next ih =>
    refine fun h' hh => ⟨fun x p' cs hd => ?_, fun reason => ih _ ((hm h' hh).2 reason)⟩
    have ⟨h'', hcs, hown, hnext⟩ := (hm h' hh).1 x p' cs hd
    exact ⟨h'', hcs, hown, ih _ hnext⟩

-- Giving up what was written makes no difference to what is committed.
theorem Safe.guarded {m : Dialogue α} (hm : m.Safe e i Q h p fs) : m.guarded.Safe e i Q h p fs := by
  induction m generalizing h p fs with
  | done x => cases x <;> exact hm
  | rollback next ih => exact ih hm
  | ask op next ih =>
    refine fun h' hh => ⟨fun x p' cs hd => ?_, fun reason => ih _ ((hm h' hh).2 reason)⟩
    have ⟨h'', hcs, hown, hnext⟩ := (hm h' hh).1 x p' cs hd
    exact ⟨h'', hcs, hown, ih _ hnext⟩

-- An operation that adds nothing.
theorem Safe.perform (hQ : Goal i Q) {op : Operation β} {f : β → Dialogue α}
    (hf : ∀ h', h.Extends (· ≠ i) h' → ∀ x p' cs, op.Does e i h'.commits p x p' cs →
      cs = h'.commits ∧ (f x).Safe e i Q h' p' fs) : (Dialogue.perform op >>= f).Safe e i Q h p fs := by
  refine fun h' hh => ⟨fun x p' cs hd => ?_, fun reason => hQ.failed (by simp)⟩
  have ⟨hcs, hnext⟩ := hf h' hh x p' cs hd
  exact ⟨h', hcs.symm, .refl _ h', hnext⟩

theorem Safe.ofExcept {x : Except Fault β} {f : β → Dialogue α} (hf : ∀ a, x = .ok a → (f a).Safe e i Q h p fs)
    (he : ∀ y, x = .error y → Q h fs (.error y)) : ((liftM x : Dialogue β) >>= f).Safe e i Q h p fs := by
  cases x with
  | ok a => exact hf a rfl
  | error y => exact he y rfl

end Rules

section Reading

variable {fits : FieldType → κ → Prop} (hf : e.Faithful fits) {k : Kind}

-- A session that has looked at a state sees this state, whatever others add.
theorem answers_looking {n : Nat} {answer : Tables κ → Prop} {p' : Phase} (hh : h.Extends (· ≠ i) h')
    (hn : n ≤ h.commits.length) (ha : (Phase.looking n).Answers e h'.commits k answer p') :
    answer ((Store.ofCommits e (h.commits.take n)).get k) ∧ p' = .looking n := by
  obtain ⟨m, hm, ha, rfl⟩ := ha
  obtain rfl : m = n := hm
  rw [hh.take_commits hn] at ha
  exact ⟨ha, rfl⟩

include hf

-- An entry is answered as the records stand at some time after the session began.
theorem safe_findEntry {Q : History → List Fault → Except Fault (Option Entry) → Prop} (hQ : Goal i Q)
    {l : Language} {id : Int} (hread : ∀ h' n, h.Extends (· ≠ i) h' → h.commits.length ≤ n → n ≤ h'.commits.length →
      Q h' fs (.ok ((Creation.contents (h'.creations.take n) k).fetch? (Schema.registered k) l id))) :
    (findEntry (Schema.registered k) l id).Safe e i Q h p fs := by
  have hs := Schema.isUsable_registered k
  have hkind : (Schema.registered k).kind = k := Schema.kind_registered k
  refine .ofExcept (fun q hq => ?_) fun y hy => ?_
  case refine_2 => cases (Keeper.projection_entry k l id).symm.trans hy
  case refine_1 =>
    cases (Keeper.projection_entry k l id).symm.trans hq
    refine .perform hQ fun h₁ hh₁ _ p₁ cs hd => ⟨hd.2, ?_⟩
    obtain ⟨rfl, rfl⟩ := hd
    refine .perform hQ fun h₂ hh₂ rows p₂ cs hd => ⟨hd.2, ?_⟩
    obtain ⟨⟨n, ⟨hsince, hn⟩, hrows, rfl⟩, rfl⟩ := hd
    dsimp only at hrows
    rw [hkind] at hrows
    have hentry : (Row.assemble [id] rows).head? = _ :=
      (h₂.keeps_take n k).head?_assemble hf hs (h₂.sound_take n k) l hrows
    have hgoal := hread h₂ n (hh₁.trans hh₂) (Nat.le_trans hh₁.length_le hsince) hn
    rw [← hentry] at hgoal
    exact .perform hQ fun h₃ hh₃ _ _ _ hd => ⟨hd.2, hQ.stable hgoal hh₃⟩

-- A page is that of one state, whichever it is.
theorem safe_findPage {filter : Dictionary String} {l : Language} {request : PageRequest}
    {Q : History → List Fault → Except Fault (Page Entry) → Prop} (hQ : Goal i Q) (hfail : ∀ f, Q h fs (.error f))
    (hread : ∀ h' n page, h.Extends (· ≠ i) h' → n ≤ h'.commits.length →
      Search.IsPage e ((Store.ofCommits e (h'.commits.take n)).get k) ⟨Schema.registered k, filter, l⟩ request
        page → Q h' fs (.ok page)) :
    (findPage ⟨Schema.registered k, filter, l⟩ request).Safe e i Q h p fs := by
  have hs := Schema.isUsable_registered k
  have hkind : (Schema.registered k).kind = k := Schema.kind_registered k
  refine .ofExcept (fun c hc => .ofExcept (fun w hw => ?_) fun f _ => hfail f) fun f _ => hfail f
  obtain ⟨condition, hcondition, rfl⟩ := Search.count_eq_ok.mp hc
  obtain ⟨_, hsame, order, horder, rfl⟩ := Search.window_eq_ok.mp hw
  cases hcondition.symm.trans hsame
  refine .perform hQ fun h₁ hh₁ _ p₁ cs hd => ⟨hd.2, ?_⟩
  obtain ⟨rfl, rfl⟩ := hd
  -- The first question settles which state the session sees.
  refine .perform hQ fun h₂ hh₂ total p₂ cs hd => ⟨hd.2, ?_⟩
  obtain ⟨⟨n, ⟨_, hn⟩, hcount, rfl⟩, rfl⟩ := hd
  have hkeeps := h₂.keeps_take (e := e) n k
  have hrecords := h₂.sound_take n k
  refine .perform hQ fun h₃ hh₃ ids p₃ cs hd => ⟨hd.2, ?_⟩
  obtain ⟨⟨hwindow, rfl⟩, rfl⟩ := And.imp_left (answers_looking hh₃ hn) hd
  dsimp only at hcount hwindow
  have hpage {rows : List Row} (hrows : Projection.Answers e ((Store.ofCommits e (h₂.commits.take n)).get k)
      ⟨Schema.registered k, condition ++ [Search.among ids]⟩ rows) :
      Q h₂ fs (.ok (.answer (Row.assemble ids rows) request total)) := by
    rw [hkind] at hcount
    rw [hkind] at hwindow
    exact hread h₂ n _ (hh₁.trans hh₂) hn (Search.isPage_of_answers hf.toLawful hs.sound hs.columns
      (hkeeps.isSound hf hs hrecords) hcondition horder (by rwa [hkind]) (by rwa [hkind]) hrows)
  by_cases hids : ids.isEmpty
  case pos =>
    rw [if_pos hids]
    have hnil := hpage (hkeeps.projection_answers hf hs hrecords _)
    rw [List.isEmpty_iff.mp hids] at hnil
    exact .perform hQ fun h₄ hh₄ _ _ _ hd => ⟨hd.2, hQ.stable hnil (hh₃.trans hh₄)⟩
  case neg =>
    rw [if_neg hids]
    refine .ofExcept (fun q hq => ?_) fun f hq => ?_
    case refine_2 =>
      cases (Search.projection_eq_ok.mpr ⟨_, Search.predicate_some hcondition, rfl⟩).symm.trans hq
    case refine_1 =>
      obtain ⟨_, hscope, rfl⟩ := Search.projection_eq_ok.mp hq
      cases (Search.predicate_some hcondition).symm.trans hscope
      refine .perform hQ fun h₄ hh₄ rows p₄ cs hd => ⟨hd.2, ?_⟩
      obtain ⟨⟨hrows, rfl⟩, rfl⟩ := And.imp_left (answers_looking (hh₃.trans hh₄) hn) hd
      dsimp only at hrows
      rw [hkind] at hrows
      exact .perform hQ fun h₅ hh₅ _ _ _ hd => ⟨hd.2, hQ.stable (hpage hrows) ((hh₃.trans hh₄).trans hh₅)⟩

end Reading

section Writing

variable {k : Kind} {id : Int}

-- The rows of translations are added one after the other.
theorem safe_translations (hQ : Goal i Q) (us : List LocalRecord) {f : Unit → Dialogue α}
    {xs : List (Insert × Int)} (hf : ∀ h' ys, h.Extends (· ≠ i) h' → ys.map (·.1) = us.map (.translation k id) →
      (f ()).Safe e i Q h' (.writing (xs ++ ys)) fs) :
    ((us.forM fun u => Dialogue.perform (.insertTranslation (.translation k id u))) >>= f).Safe e i Q h
      (.writing xs) fs := by
  induction us generalizing h xs with
  | nil =>
    have hdone := hf h [] (.refl _ h) rfl
    rwa [List.append_nil] at hdone
  | cons u us ih =>
    have hassoc : (((u :: us).forM fun u => Dialogue.perform (.insertTranslation (.translation k id u))) >>= f) =
        Dialogue.perform (.insertTranslation (.translation k id u)) >>= fun _ =>
          (us.forM fun u => Dialogue.perform (.insertTranslation (.translation k id u))) >>= f :=
      bind_bind ..
    rw [hassoc]
    refine .perform hQ fun h₁ hh₁ _ p₁ cs hd => ⟨?_, ?_⟩
    · obtain ⟨_, _, _, _, hcs⟩ := hd
      exact hcs
    · obtain ⟨xs', number, hxs, rfl, rfl⟩ := hd
      cases hxs
      refine ih fun h₂ ys hh₂ hys => ?_
      rw [List.append_assoc]
      exact hf h₂ _ (hh₁.trans hh₂) (by rw [List.singleton_append, List.map_cons, hys, List.map_cons])

-- What becomes of the rows of a record that a client adds as its first.
def Written (i : Nat) (r : Record) (h : History) (fs : List Fault) : Except Fault Int → Prop
  | .ok id   => h.creations.filter (·.client = i) = [⟨i, id, r⟩]
  | .error f => f ∈ fs

theorem goal_written (i : Nat) (r : Record) : Goal i (Written i r) where
  stable {h h' fs x} hx hh := by
    cases x with
    | ok id => exact hh.filter_eq.trans hx
    | error f => exact hx
  failed hf := hf

theorem safe_write {r : Record} (hr : r.IsOf (Schema.registered r.kind))
    (hown : h.creations.filter (·.client = i) = []) : (write r).Safe e i (Written i r) h p fs := by
  have hQ := goal_written i r
  refine .perform hQ fun h₁ hh₁ _ p₁ cs hd => ⟨hd.2, ?_⟩
  obtain ⟨rfl, rfl⟩ := hd
  refine .perform hQ fun h₂ hh₂ id p₂ cs hd => ⟨?_, ?_⟩
  · obtain ⟨_, _, _, hcs⟩ := hd
    exact hcs
  obtain ⟨xs, hxs, rfl, rfl⟩ := hd
  cases hxs
  refine safe_translations hQ r.translations fun h₃ ys hh₃ hys => fun h₄ hh₄ =>
    ⟨fun _ p₄ cs hd => ?_, fun reason => ?_⟩
  case refine_2 => exact hQ.failed (by simp)
  -- The transaction is committed, and with it the record.
  obtain ⟨xs, hxs, rfl, rfl, hkeys⟩ := hd
  cases hxs
  have hadds : Commit.Adds ⟨i, [] ++ [(Insert.root r, id)] ++ ys⟩ ⟨i, id, r⟩ := ⟨rfl, ys, rfl, hys⟩
  have hfresh : id ∉ (Creation.contents h₄.creations r.kind).map (·.1) := by
    rw [← h₄.map_id_roots (e := e)]
    exact hkeys _ List.mem_cons_self rfl
  refine ⟨h₄.add hadds hr hfresh, rfl, h₄.extends_add hadds hr hfresh, ?_⟩
  have hbefore := (((hh₁.trans hh₂).trans hh₃).trans hh₄).filter_eq.trans hown
  change List.filter (fun x : Creation => decide (x.client = i)) (h₄.creations ++ [⟨i, id, r⟩]) = [⟨i, id, r⟩]
  rw [List.filter_append, hbefore]
  simp

end Writing

section Creating

variable {fits : FieldType → κ → Prop} (hf : e.Faithful fits) {k : Kind} {d : Draft}

-- What becomes of a draft: it is created and read back as itself, a fault is met, or it is refused.
def Created (i : Nat) (k : Kind) (d : Draft) (h : History) (fs : List Fault) (x : Except Fault Entry) : Prop :=
  (∃ id record, d.prepare (Schema.registered k) = .ok record ∧
    h.creations.filter (·.client = i) = [⟨i, id, record⟩] ∧ x = .ok (d.published (Schema.registered k) id)) ∨
  (∃ f ∈ fs, x = .error f) ∨
  ∃ refusal, d.prepare (Schema.registered k) = .error refusal ∧ h.creations.filter (·.client = i) = [] ∧
    x = .error refusal.fault

theorem goal_created (i : Nat) (k : Kind) (d : Draft) : Goal i (Created i k d) where
  stable hx hh := by
    rw [Created, hh.filter_eq]
    exact hx
  failed hf := .inr (.inl ⟨_, hf, rfl⟩)

include hf

-- A new entry is read back as it was written, whoever comes in between.
theorem safe_create (hown : h.creations.filter (·.client = i) = []) :
    (create (Schema.registered k) d).Safe e i (Created i k d) h p fs := by
  have hs := Schema.isUsable_registered k
  refine .ofExcept (fun record hd => ?_) fun f hd => ?_
  case refine_2 =>
    obtain ⟨refusal, hrefused, rfl⟩ := Except.mapError_eq_error.mp hd
    exact .inr (.inr ⟨refusal, hrefused, hown, rfl⟩)
  have hd := Except.mapError_eq_ok.mp hd
  have hk : record.kind = k := (Draft.prepare_eq_ok.mp hd).2.1.trans (Schema.kind_registered k)
  have hof := Draft.isOf_of_prepare hs hd
  subst hk
  refine (safe_write hof hown).guarded.bind (fun h₁ p₁ fs₁ id hid => ?_) fun _ fs _ hx => .inr (.inl ⟨_, hx, rfl⟩)
  have hid : h₁.creations.filter (·.client = i) = [⟨i, id, record⟩] := hid
  have hmem : (⟨i, id, record⟩ : Creation) ∈ h₁.creations :=
    List.mem_of_mem_filter (p := (·.client = i)) (hid ▸ List.mem_singleton_self _)
  -- The session begins after the commit, so that it sees the new record.
  let Read (h : History) (fs : List Fault) (x : Except Fault (Option Entry)) : Prop :=
    (h.creations.filter (·.client = i) = [⟨i, id, record⟩] ∧
      x = .ok (some (d.published (Schema.registered record.kind) id))) ∨ ∃ f ∈ fs, x = .error f
  have hRead : Goal i Read :=
    ⟨fun hx hh => hx.imp_left fun hx => ⟨hh.filter_eq.trans hx.1, hx.2⟩, fun hf => .inr ⟨_, hf, rfl⟩⟩
  have hfind : (findEntry (Schema.registered record.kind) .any id).Safe e i Read h₁ p₁ fs₁ := by
    refine safe_findEntry hf hRead fun h₂ n hh₂ hn _ => .inl ⟨hh₂.filter_eq.trans hid, ?_⟩
    have hfetch := Records.fetch?_of_mem (l := .any) (h₂.sound_take n record.kind)
      (Creation.mem_contents (hh₂.mem_take hmem hn)) (by rw [Record.restrict_any]; exact hof.translated)
    rw [Record.restrict_any, Draft.entry_eq_published hs hd] at hfetch
    rw [hfetch]
  refine hfind.bind (fun h₂ p₂ fs₂ found hx => ?_) fun _ _ _ hx => ?_
  case refine_2 =>
    rcases hx with ⟨_, hx⟩ | ⟨_, hmet, hx⟩
    · cases hx
    · cases hx
      exact .inr (.inl ⟨_, hmet, rfl⟩)
  rcases hx with ⟨hown, hx⟩ | ⟨_, _, hx⟩
  · cases hx
    exact .inl ⟨id, record, hd, hown, rfl⟩
  · cases hx

end Creating

end Dialogue

end MediaCatalog
