import MediaCatalog.Proofs.Http.MediaType
import MediaCatalog.Service

namespace MediaCatalog

namespace Http.Request

-- The request with its body said to be JSON.
def asJson (r : Request) : Request :=
  { r with headers := ("content-type", "application/json") :: r.headers }

-- The body of a request is said to be JSON in a way that can be read and is well-formed.
def IsJson (r : Request) : Prop :=
  ∃ t, r.header? "content-type" = some t ∧ isReadable t ∧ MediaType.isJson t

-- What a client may expect to be taken for JSON: a body of no media type, or of one that looks like it.
def LooksJson (r : Request) : Prop :=
  ∀ t, r.header? "content-type" = some t → MediaType.isNearlyJson t

end Http.Request

namespace Service

open Http

-- The body of a request is read, and its media type makes no difference to what is read.
def IsRead (r : Request) : Prop :=
  draft r = draft r.asJson

-- A request is turned down for what it is without its body.
def IsTurnedDown (r : Request) : Prop :=
  ∃ x : Refusal, x.fault.kind = "badRequest" ∧ ∀ body, draft { r with body := body } = .error x

section Draft

variable {r : Request}

theorem draft_of_isJson (h : r.IsJson) (body : String) :
    draft { r with body := body } =
      if bodyLimit < body.utf8ByteSize then .error .bodyLength
      else
        match Draft.read body with
        | .ok d               => .ok d
        | .error .syntaxError => .error .bodySyntax
        | .error .shapeError  => .error .bodyShape := by
  obtain ⟨t, ht, hreadable, hjson⟩ := h
  have hnearly : MediaType.isNearlyJson t := (MediaType.isJson_iff.mp hjson).1
  have hheader : ({ r with body := body } : Request).header? "content-type" = some t := ht
  rw [draft, hheader]
  simp only [hreadable, hnearly, hjson, Bool.not_true, Bool.or_self, Bool.false_eq_true, if_false]
  by_cases hlength : bodyLimit < body.utf8ByteSize
  case pos =>
    simp only [hlength, if_true]
    rfl
  case neg =>
    simp only [hlength, if_false]
    rfl

theorem draft_of_not_isJson (h : ¬r.IsJson) :
    ∃ x, (x = .contentType ∨ x = .bodyMediaType) ∧ ∀ body, draft { r with body := body } = .error x := by
  have hheader (body : String) :
      ({ r with body := body } : Request).header? "content-type" = r.header? "content-type" := rfl
  cases ht : r.header? "content-type" with
  | none =>
    refine ⟨_, .inr rfl, fun body => ?_⟩
    rw [draft, hheader, ht]
    rfl
  | some t =>
    by_cases hlooks : Request.isReadable t ∧ MediaType.isNearlyJson t
    case pos =>
      have hjson : MediaType.isJson t = false :=
        Bool.eq_false_iff.mpr fun hjson => h ⟨t, ht, hlooks.1, hjson⟩
      refine ⟨_, .inr rfl, fun body => ?_⟩
      rw [draft, hheader, ht]
      simp only [hlooks.1, hlooks.2, hjson]
      rfl
    case neg =>
      have hlooks : (!Request.isReadable t || !MediaType.isNearlyJson t) = true := by
        rw [← Bool.not_and, Bool.not_eq_true', Bool.eq_false_iff, Ne, Bool.and_eq_true]
        exact hlooks
      refine ⟨_, .inl rfl, fun body => ?_⟩
      rw [draft, hheader, ht]
      simp only [hlooks]
      rfl

theorem isJson_asJson (r : Request) : r.asJson.IsJson := by
  have hname : Text.asciiLower "content-type" = "content-type" := by decide
  exact ⟨"application/json", by simp [Request.asJson, Request.header?, hname], by decide, by decide⟩

theorem isRead_iff_isJson : IsRead r ↔ r.IsJson := by
  have hasJson := draft_of_isJson (isJson_asJson r) r.body
  constructor
  · intro hread
    by_contra hjson
    have ⟨x, hx, hall⟩ := draft_of_not_isJson hjson
    -- A refusal of the media type is none of a body.
    have hrefused : Except.error x = draft r.asJson := (hall r.body).symm.trans hread
    rw [show draft r.asJson = _ from hasJson] at hrefused
    by_cases hlength : bodyLimit < r.body.utf8ByteSize
    case pos =>
      rw [if_pos hlength] at hrefused
      rcases hx with rfl | rfl <;> cases hrefused
    case neg =>
      rw [if_neg hlength] at hrefused
      rcases hx with rfl | rfl <;> split at hrefused <;> cases hrefused
  · intro hjson
    exact (draft_of_isJson hjson r.body).trans hasJson.symm

theorem isTurnedDown_iff_not_isJson : IsTurnedDown r ↔ ¬r.IsJson := by
  constructor
  · rintro ⟨x, -, hall⟩ hjson
    have hempty : ∃ d, Draft.read "{}" = .ok d := ⟨_, rfl⟩
    obtain ⟨d, hd⟩ := hempty
    have hread := draft_of_isJson hjson "{}"
    rw [if_neg (by decide), hd, hall "{}"] at hread
    cases hread
  · intro hjson
    have ⟨x, _, hall⟩ := draft_of_not_isJson hjson
    exact ⟨x, rfl, hall⟩

-- Only creation looks at the body, and there what is read of it is all that matters.
theorem handle_asJson {σ : Type} (c : Catalog σ) (settings : Settings) (hpost : r.method = "POST") (h : IsRead r)
    {route : Route} (htakes : route.methods.contains r.method) :
    handle c settings r route = handle c settings r.asJson route := by
  have hread : draft r = draft r.asJson := h
  cases route with
  | health | entry =>
    rw [hpost, Route.methods] at htakes
    exact absurd htakes (by decide)
  | entries kind =>
    have hpost' : r.asJson.method = "POST" := hpost
    simp only [handle, create, hpost, hpost', if_true, hread]

theorem respond_asJson {σ : Type} (c : Catalog σ) (settings : Settings) (hpost : r.method = "POST") (h : IsRead r) :
    respond c settings r = respond c settings r.asJson := by
  have hpath : r.asJson.path = r.path := by simp only [Request.path, Request.asJson]
  have hmethod : r.asJson.method = r.method := rfl
  unfold respond
  simp only [hpath, hmethod]
  generalize Route.ofPath? r.path = found
  cases found with
  | none => rfl
  | some route =>
    by_cases htakes : route.methods.contains r.method
    case pos => simp only [htakes, handle_asJson c settings hpost h htakes]
    case neg =>
      simp only [htakes]
      rfl

end Draft

-- A body is read if it is said to be JSON, and else the request is turned down without it. So a client gets what it
-- may expect if it names a media type which, should it look like JSON, can be read, is well-formed, is for
-- applications and has more to it than the suffix.
theorem isRead_as_expected_iff (r : Request) :
    (IsRead r ↔ r.IsJson) ∧ (IsTurnedDown r ↔ ¬r.IsJson) ∧
    (((r.LooksJson → IsRead r) ∧ (¬r.LooksJson → IsTurnedDown r)) ↔
      ∃ t, r.header? "content-type" = some t ∧ (MediaType.isNearlyJson t → Request.isReadable t ∧
        MediaType.IsApplication t ∧ (MediaType.subtype t).map Char.toLower ≠ "+json".toList)) ∧
    ∀ {σ : Type} (c : Catalog σ) (settings : Settings), r.method = "POST" → IsRead r →
      respond c settings r = respond c settings r.asJson := by
  refine ⟨isRead_iff_isJson, isTurnedDown_iff_not_isJson, ?_, respond_asJson⟩
  rw [isRead_iff_isJson, isTurnedDown_iff_not_isJson]
  constructor
  · rintro ⟨hlooks, -⟩
    cases ht : r.header? "content-type" with
    | none =>
      obtain ⟨t, hsome, -⟩ := hlooks fun t hsome => by rw [ht] at hsome; cases hsome
      rw [ht] at hsome
      cases hsome
    | some t =>
      refine ⟨t, rfl, fun hnearly => ?_⟩
      obtain ⟨u, hu, hreadable, hjson⟩ := hlooks fun u hu => by
        rw [ht] at hu
        cases hu
        exact hnearly
      rw [ht] at hu
      cases hu
      exact ⟨hreadable, (MediaType.isJson_iff.mp hjson).2⟩
  · rintro ⟨t, ht, hwell⟩
    refine ⟨fun hlooks => ?_, fun hlooks hjson => hlooks ?_⟩
    · have hnearly := hlooks t ht
      have ⟨hreadable, happlication⟩ := hwell hnearly
      exact ⟨t, ht, hreadable, MediaType.isJson_iff.mpr ⟨hnearly, happlication⟩⟩
    · obtain ⟨u, hu, -, hjson⟩ := hjson
      intro v hv
      cases hu.symm.trans hv
      exact (MediaType.isJson_iff.mp hjson).1

-- A draft that would be read as JSON is turned down without a media type, and also with the suffix under another type
-- than that for applications.
theorem isTurnedDown_untyped :
    let untyped : Request := ⟨"POST", "/api/v1/movies", [], "{}"⟩
    let image : Request := { untyped with headers := [("content-type", "image/svg+json")] }
    (untyped.LooksJson ∧ draft untyped = .error .bodyMediaType ∧ draft untyped.asJson = .ok ⟨∅, []⟩) ∧
    (image.LooksJson ∧ draft image = .error .bodyMediaType ∧ draft image.asJson = .ok ⟨∅, []⟩) := by
  intro untyped image
  have hread (r : Request) : draft { r.asJson with body := "{}" } = .ok ⟨∅, []⟩ :=
    draft_of_isJson (isJson_asJson r) "{}"
  refine ⟨⟨nofun, by rfl, hread untyped⟩, fun t ht => ?_, by rfl, hread image⟩
  cases ht
  decide

end Service

end MediaCatalog
