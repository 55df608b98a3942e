import MediaCatalog.Proofs.Catalog.Keeper
import MediaCatalog.Service

namespace MediaCatalog.Service

open Http Sql

variable {σ : Type} {r : Request} {k : Kind} {d : Draft}

section Handled

variable (c : Catalog σ) (settings : Settings)

-- The response to a request whose path takes its method.
def responded (r : Request) (a : Except Fault Response) : Response :=
  let response :=
    match a with
    | .ok response => response
    | .error f     => .fault f
  if r.method = "HEAD" then response.withoutBody else response

theorem run_respond {route : Route} (hr : Route.ofPath? r.path = some route)
    (hm : route.methods.contains r.method = true) (x : σ) :
    (respond c settings r).run x =
      (responded r ((ExceptT.run (handle c settings r route)).run x).1,
        ((ExceptT.run (handle c settings r route)).run x).2) := by
  unfold respond
  simp only [hr, hm, Bool.not_true, Bool.false_eq_true, if_false]
  rfl

theorem status_responded_ne {a : Except Fault Response} (h : ∀ response, a = .ok response → response.status ≠ 201) :
    (responded r a).status ≠ 201 := by
  have hfault (f : Fault) : f.status ≠ 201 := by
    cases f <;> simp [Fault.status]
  cases a with
  | ok response =>
    have := h response rfl
    simp only [responded]
    split <;> exact this
  | error f =>
    simp only [responded]
    split <;> exact hfault f

end Handled

section Creation

-- A request that can be read as one for the creation of an entry.
structure Creates (r : Request) (k : Kind) (d : Draft) : Prop where
  method : r.method = "POST"
  route  : ∃ segment kind, Route.ofPath? r.path = some (.entries segment) ∧
    Escape.segment? segment = some kind ∧ Kind.read kind = .ok k
  draft  : draft r = .ok d

-- The kind that a path is about.
def kind? (r : Request) : Option Kind := do
  match ← Route.ofPath? r.path with
  | .health => none
  | .entries segment | .entry segment _ => (Kind.read (← Escape.segment? segment)).toOption

theorem Creates.kind?_eq (h : Creates r k d) : kind? r = some k := by
  obtain ⟨segment, kind, hroute, hsegment, hkind⟩ := h.route
  simp [kind?, hroute, hsegment, hkind, Except.toOption]

-- The record that a request adds, if it adds one.
def addition? (r : Request) : Option Record := do
  match ← Route.ofPath? r.path with
  | .health | .entry .. => none
  | .entries segment    =>
    let k ← (Kind.read (← Escape.segment? segment)).toOption
    let d ← (draft r).toOption
    let record ← (d.prepare (Schema.registered k)).toOption
    if r.method = "POST" then some record else none

theorem Creates.addition?_eq (h : Creates r k d) :
    addition? r = (d.prepare (Schema.registered k)).toOption := by
  obtain ⟨segment, kind, hroute, hsegment, hkind⟩ := h.route
  cases hd : d.prepare (Schema.registered k) <;>
    simp [addition?, hroute, hsegment, hkind, h.draft, hd, h.method, Except.toOption]

theorem addition?_eq_some {record : Record} : addition? r = some record ↔
    ∃ k d, Creates r k d ∧ d.prepare (Schema.registered k) = .ok record := by
  constructor
  · intro h
    rw [addition?, Option.bind_eq_bind, Option.bind_eq_some_iff] at h
    obtain ⟨route, hroute, h⟩ := h
    cases route with
    | health | entry => cases h
    | entries segment =>
      simp only [Option.bind_eq_bind, Option.bind_eq_some_iff, Except.toOption_eq_some,
        Option.ite_none_right_eq_some, Option.some.injEq] at h
      obtain ⟨kind, hsegment, k, hk, d, hd, record, hrecord, hm, rfl⟩ := h
      exact ⟨k, d, ⟨hm, ⟨segment, kind, hroute, hsegment, hk⟩, hd⟩, hrecord⟩
  · rintro ⟨k, d, hcreates, hrecord⟩
    rw [hcreates.addition?_eq, Except.toOption_eq_some, hrecord]

-- The record that a request adds to a database with an engine.
def taken? {κ : Type} (e : Engine κ) (r : Request) : Option Record :=
  (addition? r).filter (·.isTaken e)

theorem taken?_eq_some {κ : Type} {e : Engine κ} {record : Record} :
    taken? e r = some record ↔ addition? r = some record ∧ record.isTaken e :=
  Option.filter_eq_some_iff

-- SQLite has all values.
theorem isTaken_sqlite (record : Record) : record.isTaken Engine.sqlite :=
  Record.isTaken_eq.mpr ⟨fun _ _ => rfl, fun _ _ => LocalRecord.isTaken_eq.mpr ⟨rfl, fun _ _ => rfl⟩⟩

theorem taken?_sqlite : taken? Engine.sqlite = addition? := by
  funext r
  rw [taken?]
  cases addition? r with
  | none => rfl
  | some record => exact Option.filter_some_pos (isTaken_sqlite record)

theorem exists_creates (hr : (addition? r).isSome) (hk : kind? r = some k) :
    ∃ d record, Creates r k d ∧ d.prepare (Schema.registered k) = .ok record := by
  obtain ⟨record, hrecord⟩ := Option.isSome_iff_exists.mp hr
  obtain ⟨k', d, hcreates, hd⟩ := addition?_eq_some.mp hrecord
  obtain rfl : k' = k := Option.some.inj (hcreates.kind?_eq.symm.trans hk)
  exact ⟨d, record, hcreates, hd⟩

-- How the creation of an entry is answered.
def created (k : Kind) : Except Fault Entry → Response
  | .ok x    => .json 201 [("location", "/api/v1/" ++ k.path ++ "/" ++ Text.decimal x.id)] x.json
  | .error f => .fault f

theorem create_eq (c : Catalog σ) {kind : String} (hd : draft r = .ok d) (hk : Kind.read kind = .ok k) :
    create c kind r = do
      let e ← c.create k d
      return .json 201 [("location", "/api/v1/" ++ k.path ++ "/" ++ Text.decimal e.id)] e.json := by
  unfold create
  simp only [hd, hk, Except.mapError]
  rfl

theorem handle_entries_post (c : Catalog σ) (settings : Settings) {segment kind : String}
    (hm : r.method = "POST") (hs : Escape.segment? segment = some kind) :
    handle c settings r (.entries segment) = create c kind r := by
  simp only [handle, hs, hm, if_true]

theorem run_respond_of_creates (c : Catalog σ) (settings : Settings) (h : Creates r k d) (x : σ) :
    (respond c settings r).run x =
      (created k ((ExceptT.run (c.create k d)).run x).1, ((ExceptT.run (c.create k d)).run x).2) := by
  obtain ⟨segment, kind, hroute, hsegment, hkind⟩ := h.route
  have hmethod : (Route.entries segment).methods.contains r.method = true := by
    simp [h.method, Route.methods]
  have hhead : r.method ≠ "HEAD" := by simp [h.method]
  rw [run_respond c settings hroute hmethod, handle_entries_post c settings h.method hsegment,
    create_eq c h.draft hkind, ExceptT.run_bind, StateT.run_bind]
  cases hr : (ExceptT.run (c.create k d)).run x with
  | mk a y =>
    cases a <;> exact congrArg (·, y) (if_neg hhead)

end Creation

section Others

variable {κ : Type} {K : Keeper κ σ} {e : Engine κ} {fits : FieldType → κ → Prop} (hK : K.Lawful e)
  (h : e.Faithful fits) (settings : Settings) {sure : Prop} {s : Store κ}

include hK

-- What is done for a request other than one for a creation.
theorem ends_search (kind : String) : (search K.catalog settings kind r).Ends (K.Rests sure s)
    (fun a x => a.status ≠ 201 ∧ K.Rests sure s x) fun _ => K.Rests sure s := by
  unfold search
  refine .ofExcept (fun _ _ => .ofExcept (fun query _ => .ofExcept (fun request _ => .ofExcept
    (fun l _ => ?_) ?_) ?_) ?_) ?_
  · exact (Keeper.ends_findPage hK _ _ _ _).bind fun page => .pure fun x hx => ⟨by simp [Response.json], hx⟩
  all_goals exact fun _ _ _ hx => hx

include h

theorem ends_fetch (kind id : String) : (fetch K.catalog settings kind id r).Ends (K.Rests sure s)
    (fun a x => a.status ≠ 201 ∧ K.Rests sure s x) fun _ => K.Rests sure s := by
  unfold fetch
  refine .ofExcept (fun k _ => ?_) fun _ _ _ hx => hx
  dsimp only
  split
  case h_2 => exact .throw fun _ hx => hx
  case h_1 number _ =>
    refine .ofExcept (fun l _ => ?_) fun _ _ _ hx => hx
    have hfind := Keeper.tries_findEntry hK h sure s k l number
    refine (hfind.imp (fun _ hx => hx) (fun _ _ hx => hx) fun _ _ hx => hx.2.2).bind fun o => ?_
    cases o with
    | some x => exact .pure fun x hx => ⟨by simp [Response.json], hx.2⟩
    | none => exact .throw fun x hx => hx.2

omit hK h in
theorem ends_create_unread (kind : String) (hr : ∀ k d, draft r = .ok d → Kind.read kind ≠ .ok k) :
    (create K.catalog kind r).Ends (K.Rests sure s) (fun a x => a.status ≠ 201 ∧ K.Rests sure s x)
      fun _ => K.Rests sure s := by
  unfold create
  refine .ofExcept (fun d hd => .ofExcept (fun k hk => ?_) fun _ _ _ hx => hx) fun _ _ _ hx => hx
  exact absurd hk (hr k d (Except.mapError_eq_ok.mp hd))

theorem ends_handle {route : Route} (hroute : Route.ofPath? r.path = some route)
    (hr : ∀ k d, ¬Creates r k d) : (handle K.catalog settings r route).Ends (K.Rests sure s)
      (fun a x => a.status ≠ 201 ∧ K.Rests sure s x) fun _ => K.Rests sure s := by
  cases route with
  | health =>
    have hcheck := hK.checkHealth sure s
    exact (hcheck.imp (fun _ hx => hx) (fun _ _ hx => hx) fun _ _ hx => hx.2.2).bind fun _ =>
      .pure fun x hx => ⟨by simp [Response.json], hx⟩
  | entries segment =>
    cases hsegment : Escape.segment? segment with
    | none =>
      simp only [handle, hsegment]
      exact .pure fun x hx => ⟨by simp [undecodable, Response.text], hx⟩
    | some kind =>
      simp only [handle, hsegment]
      split
      case isTrue hm =>
        refine ends_create_unread kind fun k d hd hk => hr k d ?_
        exact ⟨hm, ⟨segment, kind, hroute, hsegment, hk⟩, hd⟩
      case isFalse => exact ends_search hK settings kind
  | entry segment number =>
    simp only [handle]
    split
    case h_1 => exact .pure fun x hx => ⟨by simp [undecodable, Response.text], hx⟩
    case h_2 => exact .pure fun x hx => ⟨by simp [undecodable, Response.text], hx⟩
    case h_3 kind id _ _ => exact ends_fetch hK h settings kind id

-- A request that is not for a creation leaves what is committed as it is.
theorem run_respond_of_not_creates (hr : ∀ k d, ¬Creates r k d) {x : σ} (hx : K.Rests sure s x) :
    ((respond K.catalog settings r).run x).1.status ≠ 201 ∧
      K.Rests sure s ((respond K.catalog settings r).run x).2 := by
  cases hroute : Route.ofPath? r.path with
  | none =>
    have hrun : (respond K.catalog settings r).run x = (.empty 404 [], x) := by
      unfold respond
      simp only [hroute]
      rfl
    rw [hrun]
    exact ⟨by simp [Response.empty], hx⟩
  | some route =>
    cases hm : route.methods.contains r.method with
    | false =>
      have hrun : (respond K.catalog settings r).run x =
          (.empty 405 [("allow", String.intercalate "," route.methods)], x) := by
        unfold respond
        simp only [hroute, hm, Bool.not_false, if_true]
        rfl
      rw [hrun]
      exact ⟨by simp [Response.empty], hx⟩
    | true =>
      have hhandle := (ends_handle hK h settings hroute hr).run x hx
      rw [run_respond K.catalog settings hroute hm]
      cases hrun : (ExceptT.run (handle K.catalog settings r route)).run x with
      | mk a y =>
        rw [hrun] at hhandle
        cases a with
        | ok response =>
          refine ⟨status_responded_ne fun _ heq => ?_, hhandle.2⟩
          cases heq
          exact hhandle.1
        | error f => exact ⟨status_responded_ne fun _ heq => (by cases heq), hhandle⟩

end Others

end MediaCatalog.Service
