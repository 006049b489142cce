/-
  QuickApi.Stack.Admission

  The layers inside the deadline, one after the other, up to the router: it is
  entered with a request that every layer has admitted, and whatever it does,
  the layers attempt one well-formed response (`gates_attempt_one_response`).
-/

import QuickApi.RequestBody.Delivery
import QuickApi.Stack.Attempt

namespace QuickApi.Stack

open QuickApi.Lib
open QuickApi.Exposure (OperationalExposure)
open QuickApi.RequestBody (Fits RequestBodyLimit checkDeclared decodedHeaders)
open QuickApi.RequestTimeout (Stage)

variable (finalSigma : List Char → List Char → Bool)

/-- A call that attempts one whole response, whatever happens. -/
def Serves (run : Task Unit) : Prop := ∀ s, run.wp attempt .fresh s Served

/-- A call that attempts one response, as a router does. -/
def Routes (run : Task Unit) : Prop := ∀ s, run.wp attempt .fresh s Routed

-- ============================================================================
-- Admitted requests
-- ============================================================================

/-- The request has no content type where its method takes no body, and an allowed one where its
    method needs one. -/
def ContentTypeEnforcement.Accepts (mw : ContentTypeEnforcement) (scope : Scope) : Prop :=
  (upperText scope.method ∈ noBodyMethods → contentTypeOf finalSigma scope = some none) ∧
    (upperText scope.method ∈ bodyMethods →
      ∃ text, contentTypeOf finalSigma scope = some (some text) ∧
        mediaType finalSigma text ∈ mw.allowedForPath scope.path)

/-- The request meets every policy in front of the router. -/
structure Gates.Admitted (gates : Gates) (scope : CleanScope) (http : scope.type = .http) :
    Prop where
  contentType : gates.contentTypes.Accepts finalSigma scope.toScope
  method : upperText scope.method ∈ gates.methods.allowedMethods.map upperText
  origin : gates.cors.isAllowedOrigin (scope.corsRequest http).origin = true
  notOptions : (scope.corsRequest http).method ≠ Cors.options
  policy : scope.corsResponseHeaders =
    some (gates.cors.runCorsLogic (scope.corsRequest http)).1
  declared : Fits finalSigma (gates.bodyLimit.selectLimit scope.path).maxBodyBytes
    ⟨scope.path, scope.headers⟩
  exposed : gates.exposure.call finalSigma scope.exposure = .downstream

-- ============================================================================
-- Layer by layer
-- ============================================================================

variable {app : App CleanScope} {scope : CleanScope} {g : Stage} {s : Vars}

/-- A layer with a check in front of the application: what the check rejects is answered, and
    `P` is what it lets through. -/
theorem serves_checked {check : Except Exc Unit} {run : Task Unit} {P : Prop}
    (hcheck : (check = .ok () ∧ P) ∨ ∃ exc, check = .error (.http exc []))
    (h : P → ∀ s, run.wp attempt .fresh s Settled) :
    Serves (answerRejections (ofOutcome check >>= fun _ => run)) := by
  intro s
  apply wp_answerRejections_settled
  apply Program.wp_bind.mpr
  obtain ⟨rfl, hP⟩ | ⟨exc, rfl⟩ := hcheck
  · exact h hP s
  · exact rfl

theorem Serves.settles {run : Task Unit} (h : Serves run) (s : Vars) :
    run.wp attempt .fresh s Settled :=
  Program.wp_mono (h s) fun _ _ _ hr => hr.settled

theorem exposureCall_routes (mw : OperationalExposure)
    (h : mw.call finalSigma scope.exposure = .downstream → Routes (app scope)) :
    Routes (exposureCall finalSigma mw app scope) := by
  intro s
  unfold exposureCall
  split
  · next status detail _ =>
      apply Program.wp_mono wp_rejection
      rintro g s ((exc | f) | u) hr
      · exact hr.elim
      · exact trivial
      · exact hr
  · next hdown => exact h hdown s

/-- A failure before the response becomes a response; later ones and cancellations leave. -/
theorem requestErrorCall_serves (http : scope.type = .http) (h : Routes (app scope)) :
    Serves (requestErrorCall app scope) := by
  intro s
  unfold requestErrorCall
  rw [if_neg (not_not.mpr http)]
  apply Program.wp_bind.mpr
  apply wp_wrapped orderly_sendTracked (iff_of_true rfl rfl) (h s)
  intro g s r started hstarted hr
  have hrender (hg : g = .fresh) :
      (unhandledExceptionHandler scope.toScope >>= Response.call).wp attempt g s Served := by
    rw [hg]
    exact wp_respond fun Q hQ => wp_unhandledExceptionHandler quiet_attempt hQ
  rcases r with (exc | (_ | name)) | u
  · obtain rfl : started = false := hstarted.mpr hr
    exact hrender hr
  · exact .inl rfl
  · cases started with
    | true => exact .inr fun hg => Bool.noConfusion (hstarted.mpr hg)
    | false => exact hrender (hstarted.mp rfl)
  · exact hr

/-- The declared length fits, or the request is rejected. -/
theorem checkLength_cases (maxBytes : Nat) (http : scope.type = .http) :
    (checkLength finalSigma maxBytes scope.toScope = .ok () ∧
        Fits finalSigma maxBytes ⟨scope.path, scope.headers⟩) ∨
      ∃ exc, checkLength finalSigma maxBytes scope.toScope = .error (.http exc []) := by
  obtain ⟨headers, hheaders⟩ := Option.ne_none_iff_exists'.mp (decodedHeaders_isSome finalSigma http)
  by_cases hfits : ∀ text, headers.get? "content-length".toList = some text →
      ∃ declared, int text = some declared ∧ 0 ≤ declared ∧ declared ≤ maxBytes
  · have hok := RequestBody.checkDeclared_ok hfits
    refine .inl ⟨?_, headers, hheaders, hfits⟩
    simp only [checkLength, hheaders, hok]
  · obtain ⟨exc, hexc, -⟩ := RequestBody.checkDeclared_error hfits
    refine .inr ⟨exc, ?_⟩
    simp only [checkLength, hheaders, hexc]

theorem bodyLimitCall_serves (mw : RequestBodyLimit) (http : scope.type = .http)
    (h : Fits finalSigma (mw.selectLimit scope.path).maxBodyBytes ⟨scope.path, scope.headers⟩ →
      Serves (app scope)) : Serves (bodyLimitCall finalSigma mw app scope) := by
  unfold bodyLimitCall
  rw [if_neg (not_not.mpr http)]
  apply serves_checked (checkLength_cases finalSigma _ http)
  intro hfits s
  exact wp_wrapped_outcome (orderly_limitWrapper _) ((h hfits).settles s)

/-- A request that CORS lets through has an allowed origin and is no preflight. -/
theorem runCorsLogic_forwarded {opts : Cors.Options} {request : Cors.Request}
    (h : (opts.runCorsLogic request).2 = .forwarded) :
    opts.isAllowedOrigin request.origin = true ∧ request.method ≠ Cors.options := by
  unfold Cors.Options.runCorsLogic at h
  split at h
  · cases h
  · next horigin =>
      dsimp only at h
      split at h
      · cases h
      · split at h
        · cases h
        · next hmethod => exact ⟨by simpa using horigin, hmethod⟩

theorem corsCall_serves (opts : Cors.Options) (http : scope.type = .http)
    (h : ∀ policy, policy = some (opts.runCorsLogic (scope.corsRequest http)).1 →
      opts.isAllowedOrigin (scope.corsRequest http).origin = true →
      (scope.corsRequest http).method ≠ Cors.options →
      Serves (app { scope with corsResponseHeaders := policy })) :
    Serves (corsCall opts app scope) := by
  intro s
  unfold corsCall
  rw [dif_pos http]
  apply wp_wrapped_outcome (orderly_onSend (shape_applyCors _ _))
  apply wp_answerRejections_settled
  cases hverdict : (opts.runCorsLogic (scope.corsRequest http)).2 with
  | rejected exc => exact rfl
  | answered => exact Serves.settles (fun _ => noContent.wp_call) s
  | forwarded =>
      obtain ⟨horigin, hmethod⟩ := runCorsLogic_forwarded hverdict
      exact (h _ rfl horigin hmethod).settles s

theorem MethodWhitelist.check_cases (mw : MethodWhitelist) (scope : Scope) :
    (mw.check scope = .ok () ∧ upperText scope.method ∈ mw.allowedMethods.map upperText) ∨
      ∃ exc, mw.check scope = .error (.http exc []) := by
  dsimp only [MethodWhitelist.check]
  split
  · exact .inr ⟨_, rfl⟩
  · next hmethod => exact .inl ⟨rfl, not_not.mp hmethod⟩

theorem MethodWhitelist.call_serves (mw : MethodWhitelist) (http : scope.type = .http)
    (h : upperText scope.method ∈ mw.allowedMethods.map upperText → Serves (app scope)) :
    Serves (mw.call app scope) := by
  unfold MethodWhitelist.call
  rw [if_neg (not_not.mpr http)]
  apply serves_checked (mw.check_cases scope.toScope)
  exact fun hmethod => (h hmethod).settles

theorem ContentTypeEnforcement.check_cases (mw : ContentTypeEnforcement)
    (http : scope.type = .http) :
    (mw.check finalSigma scope.toScope = .ok () ∧ mw.Accepts finalSigma scope.toScope) ∨
      ∃ exc, mw.check finalSigma scope.toScope = .error (.http exc []) := by
  have hsome : contentTypeOf finalSigma scope.toScope ≠ none := by
    rw [contentTypeOf, Ne, Option.map_eq_none_iff]
    exact decodedHeaders_isSome finalSigma http
  obtain ⟨contentType, hcontentType⟩ := Option.ne_none_iff_exists'.mp hsome
  have hdisjoint : ∀ method ∈ noBodyMethods, method ∉ bodyMethods := by decide +kernel
  simp only [ContentTypeEnforcement.check, Accepts, hcontentType]
  split
  · next hnoBody =>
      cases contentType with
      | some text => exact .inr ⟨_, rfl⟩
      | none => exact .inl ⟨rfl, fun _ => rfl, (absurd · (hdisjoint _ hnoBody))⟩
  · next hnoBody =>
      split
      · cases contentType with
        | none => exact .inr ⟨_, rfl⟩
        | some text =>
            dsimp only
            split
            · exact .inr ⟨_, rfl⟩
            · next hmedia =>
                exact .inl ⟨rfl, (absurd · hnoBody), fun _ => ⟨text, rfl, not_not.mp hmedia⟩⟩
      · next hbody => exact .inl ⟨rfl, (absurd · hnoBody), (absurd · hbody)⟩

theorem ContentTypeEnforcement.call_serves (mw : ContentTypeEnforcement)
    (http : scope.type = .http)
    (h : mw.Accepts finalSigma scope.toScope → Serves (app scope)) :
    Serves (mw.call finalSigma app scope) := by
  unfold ContentTypeEnforcement.call
  rw [if_neg (not_not.mpr http)]
  apply serves_checked (mw.check_cases finalSigma http)
  exact fun haccepts => (h haccepts).settles

-- ============================================================================
-- All layers
-- ============================================================================

theorem Gates.call_serves (gates : Gates) (app : App CleanScope) (scope : CleanScope)
    (http : scope.type = .http)
    (router : ∀ policy, gates.Admitted finalSigma { scope with corsResponseHeaders := policy } http →
      Routes (app { scope with corsResponseHeaders := policy })) :
    Serves (gates.call finalSigma app scope) := by
  apply ContentTypeEnforcement.call_serves finalSigma gates.contentTypes http
  intro haccepts
  apply gates.methods.call_serves http
  intro hmethod
  apply corsCall_serves gates.cors http
  intro policy hpolicy horigin hoptions
  apply bodyLimitCall_serves finalSigma gates.bodyLimit http
  intro hdeclared
  apply requestErrorCall_serves http
  apply exposureCall_routes finalSigma gates.exposure
  intro hexposed
  exact router policy
    ⟨haccepts, hmethod, horigin, hoptions, hpolicy, hdeclared, hexposed⟩

/-- For every router that attempts one response at a time, and raises no `HTTPException` behind
    its start, every request and every answer of the two channels: the layers attempt one
    well-formed response; they return behind a whole one only; no `HTTPException` leaves them,
    and without any response nothing but a cancellation does.  The router is called with the
    request itself, which every layer has admitted, and before anything is sent. -/
theorem gates_attempt_one_response (gates : Gates) (app : App CleanScope) (scope : CleanScope)
    (http : scope.type = .http)
    (router : ∀ policy, gates.Admitted finalSigma { scope with corsResponseHeaders := policy } http →
      Routes (app { scope with corsResponseHeaders := policy })) :
    Serves (gates.call finalSigma app scope) := gates.call_serves finalSigma app scope http router

/-- The defaults of the settings. -/
def Gates.default : Gates where
  contentTypes := ⟨["application/json".toList], []⟩
  methods := ⟨["GET".toList, "POST".toList]⟩
  cors := { origin := .one ['*'], methods := [], allowedHeaders := [], exposedHeaders := [] }
  bodyLimit := ⟨{}, []⟩
  exposure := ⟨true, false, false⟩

/-- `GET /items` -/
def CleanScope.listItems : CleanScope where
  type := .http
  client := some ("10.0.0.7".toList, 443)
  scheme := none
  headers := []
  method := "GET".toList
  path := "/items".toList
  rootPath := []
  ascii _ _ he := absurd he List.not_mem_nil

/-- A router that reads once and answers. -/
theorem gates_attempt_one_response_answering :
    CleanScope.listItems.type = .http ∧
      Serves (Gates.default.call (fun _ _ => false) (fun _ => answering noContent)
        CleanScope.listItems) := by
  refine ⟨rfl, ?_⟩
  apply gates_attempt_one_response
  · intro policy _ s
    exact answering_routed noContent
  · rfl

end QuickApi.Stack
