/-
  QuickApi.Config.Wiring

  The layers that `create_app` (`app/config/application.py`) builds from the
  settings.  Accepted settings always build them, and what their CORS layer
  promises in a preflight the other layers keep.
-/

import QuickApi.Config.Environ
import QuickApi.Stack.Stamps

namespace QuickApi.Config

open QuickApi.Lib
open QuickApi.Cors (requestMethod requestedHeaders)
open QuickApi.HttpPolicy (HeaderSanitization TrustedProxy forbiddenHeaders proxyNetwork)
open QuickApi.HttpPolicy.HeaderSanitization (Forbidden forbiddenHeaders_ascii mem_iff_encoded)
open QuickApi.RateLimit (RateLimitPolicy)
open QuickApi.Stack (CleanScope Edge Gates)

-- ============================================================================
-- create_app
-- ============================================================================

namespace Settings

variable (s : Settings)

/-- The layers outside the deadline; `none` stands for an exception of a constructor. -/
def edge : Option Edge := do
  let proxies ← TrustedProxy.new (s.list .trustProxy)
    ⟨(s.int .httpMaxSingleHeaderBytes).toNat, (s.int .httpMaxHeaderCount).toNat,
      (s.int .httpMaxTotalHeaderBytes).toNat⟩
  let rateLimit ← (RateLimitPolicy.validate (s.int .rateLimitWindowMs) (s.int .rateLimitMax)
    (s.int .rateLimitMaxClients)).toOption
  return {
    proxies, rateLimit
    docsEnabled := s.bool .docsEnabled
    sanitization := ⟨s.list .corsAllowedHeaders⟩
    limits := {
      maxHeaderCount := (s.int .httpMaxHeaderCount).toNat
      maxSingleHeaderBytes := (s.int .httpMaxSingleHeaderBytes).toNat
      maxTotalHeaderBytes := (s.int .httpMaxTotalHeaderBytes).toNat
      allowChunked := false } }

/-- The layers inside the deadline. -/
def gates : Gates where
  contentTypes := { defaultAllowed := s.list .httpAllowedContentTypes, routeOverrides := [] }
  methods := ⟨s.list .httpAllowedMethods⟩
  cors := {
    origin := .many (s.list .corsOrigins)
    methods := (s.list .corsMethods).map encodeAscii
    allowedHeaders := (s.list .corsAllowedHeaders).map encodeAscii
    exposedHeaders := (s.list .corsExposedHeaders).map encodeAscii
    credentials := s.bool .corsCredentials
    maxAge := s.int .corsMaxAgeSeconds }
  bodyLimit := ⟨⟨(s.int .httpMaxBodyBytes).toNat⟩, []⟩
  exposure := ⟨s.bool .docsEnabled, s.bool .diagnosticsEnabled, s.bool .metricsEnabled⟩

end Settings

variable {parsers : Parsers}

-- ============================================================================
-- Names as bytes
-- ============================================================================

theorem decodeAscii_encodeAscii {text : List Char} (h : ∀ c ∈ text, c.toNat < 128) :
    decodeAscii (encodeAscii text) = some text := by
  have hbyte : ∀ n : Fin 128, UInt8.ofNat n.val < 128 ∧
      Char.ofNat (UInt8.ofNat n.val).toNat = Char.ofNat n.val := by decide +kernel
  have hchar : ∀ c ∈ text, UInt8.ofNat c.toNat < 128 ∧
      Char.ofNat (UInt8.ofNat c.toNat).toNat = c := by
    intro c hc
    obtain ⟨hlt, heq⟩ := hbyte ⟨c.toNat, h c hc⟩
    exact ⟨hlt, heq.trans (Char.ofNat_toNat c)⟩
  have hall : (encodeAscii text).all (· < 128) = true := by
    rw [encodeAscii, List.all_map, List.all_eq_true]
    exact fun c hc => decide_eq_true (hchar c hc).1
  rw [decodeAscii, if_pos hall, encodeAscii, List.map_map]
  congr 1
  conv_rhs => rw [← List.map_id text]
  exact List.map_congr_left fun c hc => (hchar c hc).2

/-- A byte that neither spelling changes. -/
theorem lowerLatin1_headerChar {c : Char} (h : isHeaderChar c = true) :
    Cors.lowerLatin1 [UInt8.ofNat c.toNat] = [UInt8.ofNat c.toNat] := by
  have hall := ascii_class (q := fun c => Cors.lowerLatin1 [UInt8.ofNat c.toNat] =
    [UInt8.ofNat c.toNat]) (by decide +kernel) headerChar_ascii h
  simpa using hall

theorem lowerLatin1_encodeAscii {text : List Char} (h : ∀ c ∈ text, isHeaderChar c = true) :
    Cors.lowerLatin1 (encodeAscii text) = encodeAscii text := by
  induction text with
  | nil => rfl
  | cons c text ih =>
      obtain ⟨hc, hrest⟩ := List.forall_mem_cons.mp h
      have hhead := lowerLatin1_headerChar hc
      have htail := ih hrest
      rw [Cors.lowerLatin1, List.map_singleton, List.singleton_inj] at hhead
      rw [Cors.lowerLatin1] at htail
      rw [encodeAscii, List.map_cons, Cors.lowerLatin1, List.map_cons, hhead]
      exact congrArg (_ :: ·) htail

theorem upperAscii_method {method : List Char} (h : method ∈ httpMethods) :
    Cors.upperAscii (encodeAscii method) = encodeAscii method ∧
      decodeAscii (encodeAscii method) = some method := by
  have hall : ∀ method ∈ httpMethods, Cors.upperAscii (encodeAscii method) = encodeAscii method ∧
      decodeAscii (encodeAscii method) = some method := by decide +kernel
  exact hall method h

-- ============================================================================
-- Lists of accepted settings
-- ============================================================================

/-- The names that a list field has accepted. -/
theorem ListSetting.policyHeaders {text : Option (List Char)} {values : List (List Char)}
    {setting : ListSetting} (hcheck : setting.field.check = validateHeaders)
    (h : setting.field.read parsers text = some values) : ∀ v ∈ values, isPolicyHeader v = true := by
  obtain ⟨entries, -, -, -, hread⟩ := read_cases h
  rw [hcheck] at hread
  obtain ⟨hall, ⟨⟩⟩ := Option.ite_none_right_eq_some.mp hread
  exact List.all_eq_true.mp hall

theorem ListSetting.methods {text : Option (List Char)} {values : List (List Char)}
    {setting : ListSetting} (hcheck : setting.field.check = fun _ => validateMethods)
    (h : setting.field.read parsers text = some values) : ∀ v ∈ values, v ∈ httpMethods := by
  obtain ⟨entries, -, -, -, hread⟩ := read_cases h
  rw [hcheck] at hread
  obtain ⟨hall, ⟨⟩⟩ := Option.ite_none_right_eq_some.mp hread
  intro v hv
  exact List.contains_iff_mem.mp (List.all_eq_true.mp hall v hv)

theorem ListSetting.proxies {text : Option (List Char)} {values : List (List Char)}
    (h : ListSetting.trustProxy.field.read parsers text = some values) :
    ∃ networks, values.mapM proxyNetwork = some networks := by
  obtain ⟨entries, -, -, -, hcheck⟩ := read_cases h
  have hagain := (check_settled parsers .trustProxy).again hcheck
  obtain ⟨networks, hnetworks, -⟩ := Option.map_eq_some_iff.mp hagain
  exact ⟨networks, hnetworks⟩

/-- A header that CORS may promise, as the other layers take it. -/
theorem headerChar_of_policyHeader {v : List Char} (h : isPolicyHeader v = true) :
    (∀ c ∈ v, isHeaderChar c = true) ∧ v ∉ forbiddenHeaders := by
  simp only [isPolicyHeader, Bool.and_eq_true, Bool.not_eq_true', List.all_eq_true] at h
  obtain ⟨⟨⟨-, hchars⟩, hforbidden⟩, -⟩ := h
  refine ⟨hchars, ?_⟩
  intro hmem
  rw [List.contains_iff_mem.mpr hmem] at hforbidden
  cases hforbidden

-- ============================================================================
-- Preflights
-- ============================================================================

/-- A preflight from `origin` that asks for the method `asked`. -/
structure IsPreflight (request : Cors.Request) (origin asked : Bytes) : Prop where
  names : request.namedOrigin = some origin
  asks : request.extractHeaders.get? requestMethod = some asked
  asks_ne : asked ≠ []

/-- The request asks for no method. -/
def AsksNone (request : Cors.Request) : Prop :=
  (request.extractHeaders.get? requestMethod).filter (· ≠ []) = none

theorem mem_optsMethods {opts : Cors.Options} {method : Bytes} :
    method ∈ opts.optsMethods ↔ ∃ m ∈ opts.methods, Cors.upperAscii m = method := by
  rw [Cors.Options.optsMethods, OrderedDict.ofList, OrderedDict.mem_keys_update, List.map_map]
  constructor
  · rintro (h | h)
    · cases h
    · exact List.mem_map.mp h
  · exact fun h => .inr (List.mem_map.mpr h)

/-- A preflight that is answered asks for allowed methods and headers only. -/
theorem runCorsLogic_answered {opts : Cors.Options} {request : Cors.Request}
    {origin asked : Bytes} (h : IsPreflight request origin asked)
    (hanswered : (opts.runCorsLogic request).2 = .answered) :
    opts.isAllowedOrigin request.origin = true ∧ asked ∈ opts.optsMethods ∧
      ∀ item ∈ requestedHeaders request.extractHeaders,
        item ∈ opts.allowedHeaders.map Cors.lowerLatin1 := by
  unfold Cors.Options.runCorsLogic at hanswered
  split at hanswered
  · cases hanswered
  · next horigin =>
      dsimp only at hanswered
      split at hanswered
      · cases hanswered
      · next hrefuses =>
          split at hanswered
          · next hmethod =>
              have hnamed : request.namedOrigin.isSome = true := by
                rw [h.names]
                rfl
              have hfilter : (request.extractHeaders.get? requestMethod).filter (· ≠ []) =
                  some asked := by
                rw [h.asks, Option.filter_some, if_pos (decide_eq_true h.asks_ne)]
              have hnot : ¬ opts.refusesPreflight request.extractHeaders asked = true := by
                intro hrefused
                apply hrefuses
                refine ⟨hnamed, hmethod, ?_⟩
                rw [hfilter]
                exact hrefused
              simp only [Cors.Options.refusesPreflight, Bool.or_eq_true, decide_eq_true_eq,
                List.any_eq_true, not_or, not_not, not_exists, not_and] at hnot
              exact ⟨by simpa using horigin, hnot.1, hnot.2⟩
          · cases hanswered

theorem isAllowedOrigin_congr (opts : Cors.Options) {r r' : Cors.Request}
    (h : r.namedOrigin = r'.namedOrigin) :
    opts.isAllowedOrigin r.origin = opts.isAllowedOrigin r'.origin := by
  have hfilter : r.origin.filter (· ≠ []) = r'.origin.filter (· ≠ []) := h
  rw [Cors.Options.isAllowedOrigin, Cors.Options.isAllowedOrigin, hfilter]

/-- A request with an allowed origin that is no preflight goes on. -/
theorem runCorsLogic_of_allowed {opts : Cors.Options} {request : Cors.Request}
    (horigin : opts.isAllowedOrigin request.origin = true)
    (hmethod : request.method ≠ Cors.options) : (opts.runCorsLogic request).2 = .forwarded := by
  unfold Cors.Options.runCorsLogic
  rw [horigin, if_neg (by decide)]
  dsimp only
  rw [if_neg fun h => hmethod h.2.1, if_neg hmethod]

/-- An `OPTIONS` that is no preflight is answered. -/
theorem runCorsLogic_of_asksNone {opts : Cors.Options} {request : Cors.Request}
    (horigin : opts.isAllowedOrigin request.origin = true)
    (hmethod : request.method = Cors.options) (hasks : AsksNone request) :
    (opts.runCorsLogic request).2 = .answered := by
  unfold AsksNone at hasks
  unfold Cors.Options.runCorsLogic
  rw [horigin, if_neg (by decide)]
  dsimp only
  rw [hasks, if_neg (by simp)]
  exact if_pos hmethod

-- ============================================================================
-- Accepted settings
-- ============================================================================

/-- The constructors of the layers accept what the settings have accepted. -/
theorem edge_of_accepted {environ : Environment} {s : Settings}
    (h : validate parsers environ = some s) :
    ∃ edge, s.edge = some edge ∧ edge.sanitization = ⟨s.list .corsAllowedHeaders⟩ := by
  obtain ⟨hread, hfitting⟩ := validate_iff.mp h
  obtain ⟨networks, hnetworks⟩ := ListSetting.proxies (hread.list .trustProxy)
  have hpolicy := hfitting.rateLimit
  unfold Settings.edge
  rw [TrustedProxy.new, hnetworks]
  cases hvalidate : RateLimitPolicy.validate (s.int .rateLimitWindowMs) (s.int .rateLimitMax)
      (s.int .rateLimitMaxClients) with
  | ok policy => exact ⟨_, rfl, rfl⟩
  | error e =>
      rw [hvalidate] at hpolicy
      cases hpolicy

/-- A method that CORS allows is one of the methods of the server. -/
theorem method_of_asked {environ : Environment} {s : Settings} {asked : Bytes} {method : List Char}
    (h : validate parsers environ = some s) (hasked : asked ∈ s.gates.cors.optsMethods)
    (hmethod : decodeAscii asked = some method) : method ∈ s.list .httpAllowedMethods := by
  obtain ⟨hread, hfitting⟩ := validate_iff.mp h
  obtain ⟨data, hdata, rfl⟩ := mem_optsMethods.mp hasked
  obtain ⟨m, hm, rfl⟩ := List.mem_map.mp hdata
  obtain ⟨hupper, hdecode⟩ :=
    upperAscii_method (ListSetting.methods rfl (hread.list .corsMethods) m hm)
  rw [hupper, hdecode] at hmethod
  obtain rfl := Option.some.inj hmethod
  exact hfitting.methods m hm

/-- A header that CORS allows passes the sanitization. -/
theorem header_of_asked {environ : Environment} {s : Settings} {name : Bytes}
    (h : validate parsers environ = some s)
    (hname : name ∈ s.gates.cors.allowedHeaders.map Cors.lowerLatin1) :
    ∃ v ∈ s.list .corsAllowedHeaders, decodeAscii name = some v ∧ v ∉ forbiddenHeaders := by
  obtain ⟨hread, -⟩ := validate_iff.mp h
  obtain ⟨data, hdata, rfl⟩ := List.mem_map.mp hname
  obtain ⟨v, hv, rfl⟩ := List.mem_map.mp hdata
  have hpolicy := ListSetting.policyHeaders rfl (hread.list .corsAllowedHeaders) v hv
  obtain ⟨hchars, hforbidden⟩ := headerChar_of_policyHeader hpolicy
  refine ⟨v, hv, ?_, hforbidden⟩
  rw [lowerLatin1_encodeAscii hchars]
  exact decodeAscii_encodeAscii fun c hc => headerChar_ascii c (hchars c hc)

/-- The request that a preflight announces: with the method and from the origin it has named. -/
structure Announced (request : Cors.Request) (asked : Bytes) (scope : CleanScope)
    (http : scope.type = .http) : Prop where
  origin : (scope.corsRequest http).namedOrigin = request.namedOrigin
  method : decodeAscii asked = some scope.method

/-- What accepted settings promise in a preflight they keep.  When CORS answers it, the method
    whitelist does not reject the announced request, CORS passes it on (or answers it, if it is an
    `OPTIONS` that asks for no method in turn), and the sanitization neither rejects nor drops a
    header that was asked for. -/
theorem preflight_kept {environ : Environment} {s : Settings}
    (h : validate parsers environ = some s) :
    ∃ edge, s.edge = some edge ∧
      ∀ request origin asked, IsPreflight request origin asked →
        (s.gates.cors.runCorsLogic request).2 = .answered →
        (∀ scope http, Announced request asked scope http →
          s.gates.methods.check scope.toScope = .ok () ∧
            ((scope.corsRequest http).method ≠ Cors.options →
              (s.gates.cors.runCorsLogic (scope.corsRequest http)).2 = .forwarded) ∧
            ((scope.corsRequest http).method = Cors.options →
              AsksNone (scope.corsRequest http) →
              (s.gates.cors.runCorsLogic (scope.corsRequest http)).2 = .answered)) ∧
        ∀ line, lowerBytes line.1 ∈ requestedHeaders request.extractHeaders →
          ¬ Forbidden line ∧
            ∀ raw : Stack.Scope, raw.type = .http → ∀ cleaned,
              Stack.cleanScope edge.sanitization raw = .ok cleaned →
                line ∈ raw.headers → line ∈ cleaned.headers := by
  obtain ⟨edge, hedge, hsanitization⟩ := edge_of_accepted h
  refine ⟨edge, hedge, ?_⟩
  intro request origin asked hpreflight hanswered
  obtain ⟨horigin, hasked, hheaders⟩ := runCorsLogic_answered hpreflight hanswered
  constructor
  · intro scope http hannounced
    have hmethod := method_of_asked h hasked hannounced.method
    rw [← isAllowedOrigin_congr _ hannounced.origin] at horigin
    exact ⟨if_neg (not_not.mpr (List.mem_map_of_mem hmethod)), runCorsLogic_of_allowed horigin,
      runCorsLogic_of_asksNone horigin⟩
  · intro line hline
    obtain ⟨v, hv, hdecode, hforbidden⟩ := header_of_asked h (hheaders _ hline)
    constructor
    · intro hline'
      exact hforbidden ((mem_iff_encoded forbiddenHeaders_ascii hdecode).mpr hline')
    · intro raw http cleaned hcleaned hmem
      have hallows : edge.sanitization.allows line = true := by
        rw [hsanitization, HeaderSanitization.allows, List.any_eq_true]
        exact ⟨v, List.mem_append_right _ hv, decide_eq_true hdecode⟩
      obtain ⟨cleaned', hcleaned', hscope, -⟩ | ⟨exc, hexc⟩ :=
        Stack.cleanScope_cases edge.sanitization http
      · rw [hcleaned] at hcleaned'
        obtain rfl := Except.ok.inj hcleaned'
        rw [hscope]
        exact List.mem_filter.mpr ⟨hmem, hallows⟩
      · rw [hcleaned] at hexc
        cases hexc

/-- A preflight for a `PUT` with `X-Basket`. -/
def Deployment.preflight : Cors.Request where
  method := Cors.options
  headers := [(Cors.originName, encodeAscii "https://shop.example.com".toList),
    (requestMethod, encodeAscii "PUT".toList),
    (Cors.requestHeaders, encodeAscii "x-basket".toList)]
  ascii := by decide +kernel

theorem Deployment.preflight_answered : (validate Deployment.libraries Deployment.environ).map
    (fun s => (s.gates.cors.runCorsLogic Deployment.preflight).2) = some .answered := by
  decide +kernel

/-- The `PUT` that it announces. -/
def Deployment.put : CleanScope where
  type := .http
  client := some ("10.0.0.7".toList, 443)
  scheme := none
  headers := [(Cors.originName, encodeAscii "https://shop.example.com".toList),
    (encodeAscii "X-Basket".toList, encodeAscii "7".toList)]
  method := "PUT".toList
  path := "/items/1".toList
  rootPath := []
  ascii _ := by decide +kernel

theorem preflight_kept_deployment : ∃ s,
    validate Deployment.libraries Deployment.environ = some s ∧
      ∃ edge, s.edge = some edge ∧
        s.gates.methods.check Deployment.put.toScope = .ok () ∧
        (s.gates.cors.runCorsLogic (Deployment.put.corsRequest rfl)).2 = .forwarded ∧
        ¬ Forbidden (encodeAscii "X-Basket".toList, encodeAscii "7".toList) := by
  obtain ⟨s, hs, hanswered⟩ := Option.map_eq_some_iff.mp Deployment.preflight_answered
  obtain ⟨edge, hedge, hkept⟩ := preflight_kept hs
  have hpreflight : IsPreflight Deployment.preflight
      (encodeAscii "https://shop.example.com".toList) (encodeAscii "PUT".toList) := by
    constructor <;> decide +kernel
  have hannounced : Announced Deployment.preflight (encodeAscii "PUT".toList) Deployment.put rfl := by
    constructor <;> decide +kernel
  obtain ⟨hrequest, hheaders⟩ := hkept _ _ _ hpreflight hanswered
  obtain ⟨hwhitelist, hcors, -⟩ := hrequest Deployment.put rfl hannounced
  obtain ⟨hforbidden, -⟩ := hheaders (encodeAscii "X-Basket".toList, encodeAscii "7".toList)
    (by decide +kernel)
  exact ⟨s, hs, edge, hedge, hwhitelist, hcors (by decide +kernel), hforbidden⟩

end QuickApi.Config
