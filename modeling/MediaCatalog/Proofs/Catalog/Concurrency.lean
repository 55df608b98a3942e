import MediaCatalog.Proofs.Catalog.Progress
import MediaCatalog.Proofs.Catalog.Safety
import MediaCatalog.Proofs.Sql.Dialect

namespace MediaCatalog

open Sql

variable {κ : Type} {e : Engine κ} {fits : FieldType → κ → Prop}

-- What may come of a task.
def Task.Allows (e : Engine κ) (i : Nat) : Task → History → List Fault → Except Fault Outcome → Prop
  | create k d,                h, fs, x => ∃ y, Dialogue.Created i k d h fs y ∧ x = y.map .created
  | search k filter l request, h, _,  x => (∃ f, x = .error f) ∨ ∃ n page, n ≤ h.commits.length ∧
    Search.IsPage e ((Store.ofCommits e (h.commits.take n)).get k) ⟨Schema.registered k, filter, l⟩ request page ∧
      x = .ok (.page page)
  | fetch k l id,              h, fs, x => (∃ f ∈ fs, x = .error f) ∨ ∃ n, n ≤ h.commits.length ∧
    x = .ok (.found (Keeper.fetched e (Store.ofCommits e (h.commits.take n)) k l id))

theorem Task.goal_allows (i : Nat) (t : Task) : Dialogue.Goal i (t.Allows e i) where
  stable {h h' fs x} hx hh := by
    cases t with
    | create k d =>
      obtain ⟨y, hy, rfl⟩ := hx
      exact ⟨y, (Dialogue.goal_created i k d).stable hy hh, rfl⟩
    | search =>
      refine hx.imp_right fun ⟨n, page, hn, hpage, hx⟩ => ⟨n, page, Nat.le_trans hn hh.length_le, ?_, hx⟩
      rwa [hh.take_commits hn]
    | fetch =>
      refine hx.imp_right fun ⟨n, hn, hx⟩ => ⟨n, Nat.le_trans hn hh.length_le, ?_⟩
      rwa [hh.take_commits hn]
  failed {h fs f} hf := by
    cases t with
    | create => exact ⟨.error f, .inr (.inl ⟨f, hf, rfl⟩), rfl⟩
    | search => exact .inl ⟨f, rfl⟩
    | fetch => exact .inl ⟨f, hf, rfl⟩

-- A client that has not added anything yet can begin its task.
theorem Task.safe_dialogue (hf : e.Faithful fits) {i : Nat} (t : Task) {h : History} {p : Phase} {fs : List Fault}
    (hown : h.creations.filter (·.client = i) = []) : t.dialogue.Safe e i (t.Allows e i) h p fs := by
  cases t with
  | create k d =>
    exact (Dialogue.safe_create hf hown).bind (fun _ _ _ x hx => ⟨.ok x, hx, rfl⟩)
      fun _ _ f hx => ⟨.error f, hx, rfl⟩
  | search k filter l request =>
    let Q (h : History) (fs : List Fault) (x : Except Fault (Page Entry)) : Prop :=
      (Task.search k filter l request).Allows e i h fs (x.map .page)
    have hQ : Dialogue.Goal i Q :=
      ⟨fun hx hh => (goal_allows i (.search k filter l request)).stable hx hh, fun hf => .inl ⟨_, rfl⟩⟩
    refine (Dialogue.safe_findPage hf hQ (fun f => .inl ⟨f, rfl⟩) fun h' n page hh hn hpage => ?_).bind
      (fun _ _ _ _ hx => hx) fun _ _ _ hx => hx
    exact .inr ⟨n, page, hn, hpage, rfl⟩
  | fetch k l id =>
    let Q (h : History) (fs : List Fault) (x : Except Fault (Option Entry)) : Prop :=
      (Task.fetch k l id).Allows e i h fs (x.map .found)
    have hQ : Dialogue.Goal i Q :=
      ⟨fun hx hh => (goal_allows i (.fetch k l id)).stable hx hh, fun hf => .inl ⟨_, hf, rfl⟩⟩
    refine (Dialogue.safe_findEntry hf hQ fun h' n hh _ hn => ?_).bind (fun _ _ _ _ hx => hx) fun _ _ _ hx => hx
    refine .inr ⟨n, hn, ?_⟩
    rw [Keeper.fetched_eq hf (h'.keeps_take n k) (h'.sound_take n k)]
    rfl

namespace World

variable {tasks : Nat → Task} {w w' : World}

-- All clients go on safely with their tasks.
def Safe (e : Engine κ) (tasks : Nat → Task) (w : World) : Prop :=
  ∃ h : History, h.commits = w.commits ∧ ∀ i,
    (w.clients i).rest.Safe e i ((tasks i).Allows e i) h (w.clients i).phase (w.clients i).faults ∧
      ∀ f ∈ (w.clients i).faults, ∃ reason, f = .database reason

theorem safe_initial (hf : e.Faithful fits) (tasks : Nat → Task) : (initial tasks).Safe e tasks :=
  ⟨.empty, rfl, fun i => ⟨(tasks i).safe_dialogue hf rfl, fun _ hf => absurd hf List.not_mem_nil⟩⟩

theorem Safe.step (hw : w.Safe e tasks) (hs : w.Step e w') : w'.Safe e tasks := by
  obtain ⟨h, hcommits, hsafe⟩ := hw
  obtain @⟨i, c, cs, hstep⟩ := hs
  -- What the client does is its own, so that all others stay safe.
  have hlift {h' : History} (hcs : h'.commits = cs) (hh : h.Extends (· = i) h')
      (hc : c.rest.Safe e i ((tasks i).Allows e i) h' c.phase c.faults)
      (hfaults : ∀ f ∈ c.faults, ∃ reason, f = .database reason) :
      (w.move i c cs).Safe e tasks := by
    refine ⟨h', hcs, fun j => ?_⟩
    by_cases hj : j = i
    case pos =>
      subst hj
      rw [clients_move_self]
      exact ⟨hc, hfaults⟩
    case neg =>
      rw [clients_move_of_ne _ _ _ hj]
      have hothers : h.Extends (· ≠ j) h' := hh.imp fun _ hk hkj => hj (hkj.symm.trans hk)
      exact ⟨(hsafe j).1.mono ((tasks j).goal_allows j) hothers, (hsafe j).2⟩
  have ⟨hi, hmet⟩ := hsafe i
  rw [← hcommits] at hstep
  generalize w.clients i = before at hstep hi hmet
  cases hstep with
  | answered hd =>
    have ⟨h', hcs, hh, hnext⟩ := (hi h (.refl _ h)).1 _ _ _ hd
    exact hlift hcs hh hnext hmet
  | failed reason =>
    refine hlift rfl (.refl _ h) ((hi h (.refl _ h)).2 reason) ?_
    exact List.forall_mem_append.mpr ⟨hmet, List.forall_mem_singleton.mpr ⟨reason, rfl⟩⟩
  | rolledBack => exact hlift rfl (.refl _ h) hi hmet

theorem Reachable.safe (hf : e.Faithful fits) (hw : Reachable e tasks w) : w.Safe e tasks := by
  induction hw with
  | refl => exact safe_initial hf tasks
  | tail _ hs ih => exact ih.step hs

-- A creation that has ended has added one record and shows it, or it has met a fault, or it was refused.
theorem created_of_safe (hw : w.Safe e tasks) {i : Nat} {k : Kind} {d : Draft} {x : Except Fault Outcome}
    (ht : tasks i = .create k d) (hx : (w.clients i).rest = .done x) :
    (∃ id record c, d.prepare (Schema.registered k) = .ok record ∧ w.commits.filter (·.client = i) = [c] ∧
      c.Adds ⟨i, id, record⟩ ∧ x = .ok (.created (d.published (Schema.registered k) id))) ∨
    (∃ reason, .database reason ∈ (w.clients i).faults ∧ x = .error (.database reason)) ∨
    ∃ refusal, d.prepare (Schema.registered k) = .error refusal ∧ w.commits.filter (·.client = i) = [] ∧
      x = .error refusal.fault := by
  obtain ⟨h, hcommits, hsafe⟩ := hw
  have ⟨hi, hmet⟩ := hsafe i
  rw [hx, ht] at hi
  obtain ⟨y, hy, rfl⟩ := hi
  have hadds := h.adds_filter i
  rw [hcommits] at hadds
  rcases hy with ⟨id, record, hd, hown, rfl⟩ | ⟨f, hf, rfl⟩ | ⟨refusal, hd, hown, rfl⟩
  · rw [hown] at hadds
    obtain ⟨c, cs, hc, hcs, heq⟩ := List.forall₂_cons_right_iff.mp hadds
    cases List.forall₂_nil_right_iff.mp hcs
    exact .inl ⟨id, record, c, hd, heq, hc, rfl⟩
  · obtain ⟨reason, rfl⟩ := hmet f hf
    exact .inr (.inl ⟨reason, hf, rfl⟩)
  · rw [hown] at hadds
    exact .inr (.inr ⟨refusal, hd, List.forall₂_nil_right_iff.mp hadds, rfl⟩)

theorem exists_adds_of_created (hw : w.Safe e tasks) {i : Nat} {k : Kind} {d : Draft} {a : Entry}
    (ht : tasks i = .create k d) (ha : (w.clients i).rest = .done (.ok (.created a))) :
    ∃ c ∈ w.commits, ∃ record, record.kind = k ∧ c.Adds ⟨i, a.id, record⟩ := by
  rcases created_of_safe hw ht ha with ⟨id, record, c, hd, hc, hadds, hx⟩ | ⟨_, _, hx⟩ | ⟨_, _, _, hx⟩
  case inl =>
    cases hx
    have hmem : c ∈ w.commits := List.mem_of_mem_filter (p := (·.client = i)) (hc ▸ List.mem_singleton_self c)
    exact ⟨c, hmem, record, (Draft.prepare_eq_ok.mp hd).2.1.trans (Schema.kind_registered k), hadds⟩
  all_goals cases hx

-- Any number of clients may take their steps in any order, and any operation may fail. A creation that has ended has
-- committed just the rows of its own record and is answered with that entry, unless one of its own operations has
-- failed or its draft was refused; it is never left without the entry that it has created. No two clients get an
-- entry of a kind under the same number. A page that is found is that of one committed state.
theorem reachable_serves (dialect : Dialect) {tasks : Nat → Task} {w : World}
    (hw : Reachable dialect.engine tasks w) :
    let e := dialect.engine
    (∀ i k d x, tasks i = .create k d → (w.clients i).rest = .done x →
      (∃ id record c, d.prepare (Schema.registered k) = .ok record ∧ w.commits.filter (·.client = i) = [c] ∧
        c.Adds ⟨i, id, record⟩ ∧ x = .ok (.created (d.published (Schema.registered k) id))) ∨
      (∃ reason, .database reason ∈ (w.clients i).faults ∧ x = .error (.database reason)) ∨
      ∃ refusal, d.prepare (Schema.registered k) = .error refusal ∧ w.commits.filter (·.client = i) = [] ∧
        x = .error refusal.fault) ∧
    (∀ i k d reason, tasks i = .create k d → (w.clients i).rest ≠ .done (.error (.internal reason))) ∧
    (∀ c ∈ w.commits, ∀ c' ∈ w.commits, ∀ x y, c.Adds x → c'.Adds y → x.record.kind = y.record.kind →
      x.id = y.id → x.client = y.client) ∧
    (∀ i j k d d' a b, i ≠ j → tasks i = .create k d → tasks j = .create k d' →
      (w.clients i).rest = .done (.ok (.created a)) → (w.clients j).rest = .done (.ok (.created b)) →
        a.id ≠ b.id) ∧
    ∀ i k filter l request page, tasks i = .search k filter l request →
      (w.clients i).rest = .done (.ok (.page page)) →
        ∃ n ≤ w.commits.length, Search.IsPage e ((Store.ofCommits e (w.commits.take n)).get k)
          ⟨Schema.registered k, filter, l⟩ request page := by
  have hsafe := hw.safe dialect.faithful_engine
  have hclients : ∀ c ∈ w.commits, ∀ c' ∈ w.commits, ∀ x y, c.Adds x → c'.Adds y →
      x.record.kind = y.record.kind → x.id = y.id → x.client = y.client := by
    obtain ⟨h, hcommits, _⟩ := hsafe
    rw [← hcommits]
    exact fun c hc c' hc' x y hx hy hk hid => History.client_eq_of_adds hc hc' hx hy hk hid
  dsimp only
  refine ⟨fun i k d x => created_of_safe hsafe, fun i k d reason ht hx => ?_, hclients,
    fun i j k d d' a b hij hti htj ha hb => ?_, fun i k filter l request page ht hx => ?_⟩
  case refine_1 =>
    rcases created_of_safe hsafe ht hx with ⟨_, _, _, _, _, _, hx⟩ | ⟨_, _, hx⟩ | ⟨_, _, _, hx⟩ <;> cases hx
  case refine_2 =>
    obtain ⟨c, hc, record, hk, hadds⟩ := exists_adds_of_created hsafe hti ha
    obtain ⟨c', hc', record', hk', hadds'⟩ := exists_adds_of_created hsafe htj hb
    exact fun hid => hij (hclients c hc c' hc' _ _ hadds hadds' (hk.trans hk'.symm) hid)
  case refine_3 =>
    obtain ⟨h, hcommits, hsafe⟩ := hsafe
    have hi := (hsafe i).1
    rw [hx, ht] at hi
    rcases hi with ⟨_, hx⟩ | ⟨n, page, hn, hpage, hx⟩
    · cases hx
    · cases hx
      rw [hcommits] at hn hpage
      exact ⟨n, hn, hpage⟩

-- Two clients who create the same movie get an entry each, and a third who searches gets a page.
theorem reachable_serves_three :
    let up : Draft := ⟨.ofList [], [⟨"en", .ofList [("name", .str "Up")]⟩]⟩
    let request : PageRequest := ⟨0, 20, []⟩
    let tasks (i : Nat) : Task := if i < 2 then .create .movie up else .search .movie ∅ .any request
    ∃ w, Reachable Dialect.sqlite.engine tasks w ∧
      (∃ a b, (w.clients 0).rest = .done (.ok (.created a)) ∧ (w.clients 1).rest = .done (.ok (.created b)) ∧
        a.id ≠ b.id) ∧
      ∃ page, (w.clients 2).rest = .done (.ok (.page page)) ∧ ∃ n ≤ w.commits.length,
        Search.IsPage Dialect.sqlite.engine ((Store.ofCommits Dialect.sqlite.engine (w.commits.take n)).get .movie)
          ⟨Schema.registered .movie, ∅, .any⟩ request page := by
  intro up request tasks
  have hf := Dialect.sqlite.faithful_engine
  have hok : (up.prepare (Schema.registered .movie)).toOption.isSome := by decide +kernel
  obtain ⟨record, hd⟩ := Option.isSome_iff_exists.mp hok
  have hd := Except.toOption_eq_some.mp hd
  -- One client after the other carries its task through.
  have hcreate {w : World} (hw : Reachable Dialect.sqlite.engine tasks w) {i : Nat}
      (hi : tasks i = .create .movie up) (hbegin : w.clients i = (initial tasks).clients i) :
      w.HasEnd Dialect.sqlite.engine tasks i fun _ => True := by
    obtain ⟨h, hcommits, _⟩ := hw.safe hf
    refine hasEnd_of_canEnd hw ?_
    rw [hbegin, ← hcommits, clients_initial, hi]
    exact (Dialogue.canEnd_create h hf hd).bind (fun _ _ _ _ => trivial) fun _ _ _ => trivial
  have hsearch {w : World} (hw : Reachable Dialect.sqlite.engine tasks w)
      (hbegin : w.clients 2 = (initial tasks).clients 2) :
      w.HasEnd Dialect.sqlite.engine tasks 2 fun x => ∃ page, x = .ok (.page page) := by
    obtain ⟨h, hcommits, _⟩ := hw.safe hf
    refine hasEnd_of_canEnd hw ?_
    rw [hbegin, ← hcommits]
    have horder : request.sort.mapM (OrderTerm.ofKey (Schema.registered .movie)) = .ok [] := rfl
    refine (Dialogue.canEnd_findPage h hf (Search.predicate_of_filters rfl) horder).bind ?_ ?_
    · rintro page _ _ ⟨_, _⟩
      exact ⟨page, rfl⟩
    · rintro _ _ ⟨_, hx⟩
      cases hx
  have hcreated {w : World} (hw : Reachable Dialect.sqlite.engine tasks w) {i : Nat} {x : Except Fault Outcome}
      (hi : tasks i = .create .movie up) (hx : (w.clients i).rest = .done x)
      (hfaults : (w.clients i).faults = []) : ∃ a, x = .ok (.created a) := by
    have hserves := (reachable_serves .sqlite hw).1 i .movie up x hi hx
    rcases hserves with ⟨_, _, _, _, _, _, hx⟩ | ⟨_, hm, _⟩ | ⟨_, hr, _⟩
    · exact ⟨_, hx⟩
    · rw [hfaults] at hm
      cases hm
    · cases hd.symm.trans hr
  obtain ⟨w₁, hw₁, ⟨x, hx, -⟩, hfx, hothers₁⟩ := hcreate (w := initial tasks) .refl (i := 0) rfl rfl
  obtain ⟨w₂, hw₂, ⟨y, hy, -⟩, hfy, hothers₂⟩ := hcreate hw₁ (i := 1) rfl (hothers₁ 1 (by decide))
  obtain ⟨w₃, hw₃, ⟨_, hz, page, rfl⟩, -, hothers₃⟩ :=
    hsearch hw₂ ((hothers₂ 2 (by decide)).trans (hothers₁ 2 (by decide)))
  have hzero : w₃.clients 0 = w₁.clients 0 := (hothers₃ 0 (by decide)).trans (hothers₂ 0 (by decide))
  have hone : w₃.clients 1 = w₂.clients 1 := hothers₃ 1 (by decide)
  obtain ⟨a, rfl⟩ := hcreated hw₁ rfl hx hfx
  obtain ⟨b, rfl⟩ := hcreated hw₂ rfl hy (hfy.trans (congrArg Client.faults (hothers₁ 1 (by decide))))
  rw [← hzero] at hx
  rw [← hone] at hy
  have hserves := reachable_serves .sqlite hw₃
  exact ⟨w₃, hw₃, ⟨a, b, hx, hy, hserves.2.2.2.1 0 1 .movie up up a b (by decide) rfl rfl hx hy⟩, page, hz,
    hserves.2.2.2.2 2 .movie ∅ .any request page rfl hz⟩

end World

end MediaCatalog
