import MediaCatalog.Proofs.Catalog.Isolation
import MediaCatalog.Proofs.Service.Invariant

namespace MediaCatalog

open Sql

-- One store has an entry more than another one, and nothing else.
structure Store.Adds {κ : Type} (e : Engine κ) (s : Store κ) (d : Draft) (r : Record) (s' : Store κ) : Prop where
  others       : ∀ k, k ≠ r.kind → s'.get k = s.get k
  root         : (s'.get r.kind).roots =
    (s.get r.kind).roots ++ [⟨(s.get r.kind).nextId .root, (Insert.root r).held e⟩]
  translations : ∃ rows, (s'.get r.kind).translations = (s.get r.kind).translations ++ rows ∧
    rows.length = d.translations.length ∧
    rows.map (·.columns) = r.translations.map fun u =>
      (Insert.translation r.kind ((s.get r.kind).nextId .root) u).held e

theorem Store.adds_keep {κ : Type} (e : Engine κ) (s : Store κ) {k : Kind} {d : Draft} {r : Record}
    (hd : d.prepare (Schema.registered k) = .ok r) : s.Adds e d r (s.keep e r) where
  others _ hk := s.get_keep_ne e r hk
  root := by rw [get_keep, Tables.roots_keep]
  translations := by
    rw [get_keep]
    have ⟨rows, hrows, hcolumns⟩ := Tables.translations_keep (e := e) (t := s.get r.kind) (r := r) r.translations
    refine ⟨rows, hrows, ?_, hcolumns⟩
    have hlength := congrArg List.length hcolumns
    rw [List.length_map, List.length_map] at hlength
    rw [hlength, (Draft.prepare_eq_ok.mp hd).2.2.2.length_eq]

namespace Service

open Http

-- The reading back of a new entry has failed from a store that holds it.
def Unread {κ : Type} (e : Engine κ) (k : Kind) (id : Int) (a : Response) (x : Trial κ) : Prop :=
  ∃ y f, y.store = x.store ∧
    (ExceptT.run ((Trial.catalog e).findEntry k .any id)).run y = (.error f, x) ∧ a = .fault f ∧ f.status = 500

variable {κ : Type} {e : Engine κ} {fits : FieldType → κ → Prop} (settings : Settings) {r : Request} {k : Kind}

-- Any other request leaves the store as it is.
theorem respond_other (h : e.Faithful fits) (hr : ∀ k d, ¬Creates r k d) (x : Trial κ) :
    ((respond (Trial.catalog e) settings r).run x).1.status ≠ 201 ∧
      ((respond (Trial.catalog e) settings r).run x).2.store = x.store := by
  have hx : (Trial.keeper e).Rests False x.store x := ⟨rfl, False.elim⟩
  have hends := run_respond_of_not_creates (Trial.keeper_lawful e) h settings hr hx
  rw [Trial.catalog_keeper] at hends
  generalize (respond (Trial.catalog e) settings r).run x = out at hends ⊢
  exact ⟨hends.1, hends.2.1⟩

-- What a store holds of a kind is all that the kind shows.
theorem respond_alike {s s' : Store κ} (hs : s.get k = s'.get k) (hm : r.method ≠ "POST") (hk : kind? r = some k)
    (faults : List (Option String)) :
    ((respond (Trial.catalog e) settings r).run (.holding s faults)).1 =
      ((respond (Trial.catalog e) settings r).run (.holding s' faults)).1 :=
  respond_eq (Trial.reader_agreesOn e k) settings hk hm (Trial.same_holding hs faults)

section Creation

variable (h : e.Faithful fits) {d : Draft} (hr : Creates r k d) (x : Trial κ)

include h hr

-- A draft that can be prepared is added as a whole or not at all. Where nothing fails by itself, the engine refuses
-- only values that it does not have.
theorem respond_adds {record : Record} (hd : d.prepare (Schema.registered k) = .ok record) :
    let out := (respond (Trial.catalog e) settings r).run x
    (out.1.status = 500 ∧ out.2.store = x.store ∨
      x.store.Adds e d record out.2.store ∧
        (out.1.status = 201 ∨ Unread e k ((x.store.get k).nextId .root) out.1 out.2)) ∧
    (x.database.isOpen → x.IsFaultless → (x.store.get k).IsOwned e k →
      out.1.status = if record.isTaken e then 201 else 500) := by
  have hk : record.kind = k := (Draft.prepare_eq_ok.mp hd).2.1.trans (Schema.kind_registered k)
  have hof := Draft.isOf_of_prepare (Schema.isUsable_registered k) hd
  have hx : (Trial.keeper e).Rests ((Trial.keeper e).IsReady x) x.store x := ⟨rfl, id⟩
  have hends := (Keeper.ends_create (Trial.keeper_lawful e) h hd).run x hx
  have hadds := Store.adds_keep e x.store hd
  dsimp only
  rw [run_respond_of_creates (Trial.catalog e) settings hr]
  rw [Trial.catalog_keeper] at hends
  generalize (ExceptT.run ((Trial.catalog e).create k d)).run x = out at hends ⊢
  obtain ⟨a | a, y⟩ := out
  case ok =>
    have hstore : y.store = x.store.keep e record := hends.2.2.1
    exact ⟨.inr ⟨hstore ▸ hadds, .inl rfl⟩, fun _ _ _ => (if_pos hends.2.1).symm⟩
  case error =>
    obtain ⟨hstatus, hnot, hend⟩ := hends
    refine ⟨?_, fun hopen hfaultless howned => ?_⟩
    case refine_2 =>
      have htaken : ¬record.isTaken e := fun htaken =>
        hnot ⟨⟨hopen, hfaultless⟩, hk ▸ howned, hk ▸ hof, htaken⟩
      rw [if_neg htaken]
      exact hstatus
    rcases hend with hend | ⟨-, hend, z, hz, hread⟩
    · exact .inl ⟨hstatus, hend.1⟩
    · have hstore : y.store = x.store.keep e record := hend.1
      exact .inr ⟨hstore ▸ hadds, .inr ⟨z, a, hz.1.trans hend.1.symm, hread, rfl, hstatus⟩⟩

omit h in
-- A draft that cannot be prepared is turned down, and nothing is asked of the database.
theorem respond_refuses {refusal : Refusal} (hd : d.prepare (Schema.registered k) = .error refusal) :
    (respond (Trial.catalog e) settings r).run x = (.fault refusal.fault, x) := by
  have hrun := Keeper.run_create_of_error (K := Trial.keeper e) hd x
  rw [Trial.catalog_keeper] at hrun
  rw [run_respond_of_creates (Trial.catalog e) settings hr, hrun]
  rfl

end Creation

-- A request leaves the store as it is or adds one entry as a whole. It is answered by 201 only if it adds one, and
-- an entry that is added is not announced only if it could not be read back. Nothing that is added shows in the
-- entries of another kind. While nothing fails, all that counts is whether a draft can be prepared and whether the
-- engine has its values, as SQLite always does.
theorem respond_all_or_nothing (dialect : Dialect) (settings : Settings) (r : Request)
    (x : Trial dialect.Held) :
    let e := dialect.engine
    let serve := respond (Trial.catalog e) settings
    let out := (serve r).run x
    ((∀ k d, ¬Creates r k d) → out.1.status ≠ 201 ∧ out.2.store = x.store) ∧
    ∀ k d, Creates r k d →
      (out.1.status ≠ 201 ∧ out.2.store = x.store ∨
        ∃ record, d.prepare (Schema.registered k) = .ok record ∧ x.store.Adds e d record out.2.store ∧
          (out.1.status = 201 ∨ Unread e k ((x.store.get k).nextId .root) out.1 out.2)) ∧
      (∀ r' k', r'.method ≠ "POST" → kind? r' = some k' → k' ≠ k → ∀ faults,
        ((serve r').run (.holding out.2.store faults)).1 = ((serve r').run (.holding x.store faults)).1) ∧
      (x.database.isOpen → x.IsFaultless → (x.store.get k).IsOwned e k →
        out.1.status =
          match d.prepare (Schema.registered k) with
          | .ok record => if record.isTaken e then 201 else 500
          | .error _   => 400) := by
  have h := dialect.faithful_engine
  dsimp only
  refine ⟨fun hr => respond_other settings h hr x, fun k d hr => ?_⟩
  -- Other kinds are not concerned, whether the entry is added or not.
  have halike {s : Store dialect.Held} (hs : ∀ k', k' ≠ k → s.get k' = x.store.get k') :
      ∀ r' k', r'.method ≠ "POST" → kind? r' = some k' → k' ≠ k → ∀ faults,
        ((respond (Trial.catalog dialect.engine) settings r').run (.holding s faults)).1 =
          ((respond (Trial.catalog dialect.engine) settings r').run (.holding x.store faults)).1 :=
    fun r' k' hm hk hne faults => respond_alike settings (hs k' hne) hm hk faults
  cases hd : d.prepare (Schema.registered k) with
  | error refusal =>
    rw [respond_refuses settings hr x hd]
    exact ⟨.inl ⟨by simp [Response.fault, Response.json, Refusal.fault, Fault.status], rfl⟩,
      halike fun _ _ => rfl, fun _ _ _ => rfl⟩
  | ok record =>
    have hk : record.kind = k := (Draft.prepare_eq_ok.mp hd).2.1.trans (Schema.kind_registered k)
    obtain ⟨hend, hsure⟩ := respond_adds settings h hr x hd
    refine ⟨?_, ?_, hsure⟩
    · exact hend.imp (fun hx => ⟨by simp [hx.1], hx.2⟩) fun hx => ⟨record, rfl, hx⟩
    · rcases hend with hx | hx
      · exact halike fun _ _ => by rw [hx.2]
      · exact halike fun k' hne => hx.1.others k' (hk.symm ▸ hne)

-- Of a movie with two translations nothing is added where the insertion of the second one fails. Where nothing
-- fails, all of it is added to the two movies that are there, and the series do not show it.
theorem respond_all_or_nothing_up :
    let serve := respond (Trial.catalog Dialect.sqlite.engine) Settings.standard
    let s : Store Dialect.sqlite.Held := ⟨Tables.twoMovies, ∅⟩
    let failed := (serve newMovieInFull).run (.holding s [none, none, none, some "disk I/O error"])
    let added := (serve newMovieInFull).run (.holding s [])
    (failed.1.status ≠ 201 ∧ failed.2.store = s) ∧
      added.1.status = 201 ∧ ∀ r' k', r'.method ≠ "POST" → kind? r' = some k' → k' ≠ .movie → ∀ faults,
        ((serve r').run (.holding added.2.store faults)).1 = ((serve r').run (.holding s faults)).1 := by
  dsimp only
  obtain ⟨d, record, hr, hd⟩ :=
    exists_creates (r := newMovieInFull) (k := .movie) (by decide +kernel) (by decide +kernel)
  have hfailed := (respond_all_or_nothing .sqlite Settings.standard newMovieInFull
    (.holding ⟨Tables.twoMovies, ∅⟩ [none, none, none, some "disk I/O error"])).2 .movie d hr
  have hadded := (respond_all_or_nothing .sqlite Settings.standard newMovieInFull
    (.holding ⟨Tables.twoMovies, ∅⟩ [])).2 .movie d hr
  refine ⟨?_, ?_, hadded.2.1⟩
  · rcases hfailed.1 with hleft | ⟨record', hd', hadds, -⟩
    case inl => exact hleft
    obtain rfl : record = record' := Except.ok.inj (hd.symm.trans hd')
    have hkind : record.kind = .movie := (Draft.prepare_eq_ok.mp hd).2.1
    have hthree := congrArg List.length hadds.root
    rw [hkind, List.length_append, List.length_singleton] at hthree
    exact absurd hthree (by decide +kernel)
  · have htaken : taken? Engine.sqlite newMovieInFull = some record := by
      rw [taken?_sqlite, hr.addition?_eq, hd, Except.toOption]
    rw [hadded.2.2 rfl (fun _ hf => absurd hf List.not_mem_nil) Tables.isSound_twoMovies.owned, hd]
    exact if_pos (taken?_eq_some.mp htaken).2

-- Not all that is not announced is undone: here the reading back of the new entry fails.
theorem respond_adds_unread :
    let x : Trial Engine.Cell := .holding ∅ [none, none, none, none, some "connection reset"]
    let out := (respond (Trial.catalog Engine.sqlite) Settings.standard (newMovie "Up")).run x
    (newMovie "Up").method = "POST" ∧ out.1.status = 500 ∧ out.2.store ≠ x.store := by
  decide +kernel

end Service

end MediaCatalog
