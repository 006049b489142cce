/-
  QuickApi.Cors.Responses

  What the middleware makes of every response: the one origin, the merged
  `vary`, nothing for an origin that is not allowed, and nothing new the second
  time.
-/

import QuickApi.Cors.Policy

namespace QuickApi.Cors

open QuickApi.Lib

-- ============================================================================
-- The merged vary
-- ============================================================================

/-- What `vary` becomes: the wildcard where a token is one, and else every token once up to
    case, the ones that were there first. -/
structure MergesVary (method : Bytes) (lines : HeaderLines) (value : Bytes) : Prop where
  wildcard : star ∈ varyTokens lines → value = star
  merged : star ∉ varyTokens lines → ∃ kept added,
    itemsOf comma isSpaceLatin1 value = kept ++ added ∧
    (∀ token ∈ kept, token ∈ varyTokens lines) ∧ (∀ name ∈ added, name ∈ requiredVary method) ∧
    ((kept ++ added).map lowerLatin1).Nodup ∧
    (∀ token ∈ varyTokens lines, lowerLatin1 token ∈ kept.map lowerLatin1) ∧
    (∀ name ∈ requiredVary method, lowerLatin1 name ∈ (kept ++ added).map lowerLatin1)

theorem isItem_of_mem_varyTokens {lines : HeaderLines} {token : Bytes}
    (h : token ∈ varyTokens lines) : IsItem comma isSpaceLatin1 token := by
  obtain ⟨value, -, hitem⟩ := List.mem_flatMap.mp h
  exact isItem_of_mem_itemsOf hitem

/-- The names that `vary` has to hold are items, and none is the wildcard. -/
theorem isItem_of_mem_requiredVary {method name : Bytes} (h : name ∈ requiredVary method) :
    IsItem comma isSpaceLatin1 name ∧ lowerLatin1 name ≠ star := by
  have hall : ∀ name ∈ requiredVary options, name ≠ [] ∧ trim isSpaceLatin1 name = name ∧
      comma ∉ name ∧ lowerLatin1 name ≠ star := by decide +kernel
  have hmem : name ∈ requiredVary options := by
    rw [requiredVary] at h ⊢
    rcases List.mem_cons.mp h with rfl | h
    · exact List.mem_cons_self
    · split at h
      · exact List.mem_cons_of_mem _ (by simpa using h)
      · cases h
  obtain ⟨hne, htrim, hcomma, hstar⟩ := hall name hmem
  exact ⟨⟨⟨hne, htrim⟩, hcomma⟩, hstar⟩

theorem lowerLatin1_eq_star_iff {text : Bytes} : lowerLatin1 text = star ↔ text = star := by
  constructor
  · intro h
    obtain ⟨b, rfl, hb⟩ := List.map_eq_singleton_iff.mp h
    have hbyte : ∀ n : Fin 256, (if (65 ≤ UInt8.ofNat n.val ∧ UInt8.ofNat n.val ≤ 90) ∨
          (0xC0 ≤ UInt8.ofNat n.val ∧ UInt8.ofNat n.val ≤ 0xDE ∧ UInt8.ofNat n.val ≠ 0xD7)
        then UInt8.ofNat n.val + 32 else UInt8.ofNat n.val) = 42 →
        UInt8.ofNat n.val = 42 := by decide +kernel
    have hb' := hbyte ⟨b.toNat, b.toNat_lt⟩
    simp only [UInt8.ofNat_toNat] at hb'
    rw [hb' hb, star]
  · rintro rfl
    decide

theorem eq_map_byLower {entries : List (Bytes × Bytes)} {texts : List Bytes}
    (h : ∀ e ∈ entries, e ∈ texts.map byLower) :
    entries = (entries.map Prod.snd).map byLower ∧ ∀ text ∈ entries.map Prod.snd, text ∈ texts := by
  have hform : ∀ e ∈ entries, e = byLower e.2 ∧ e.2 ∈ texts := by
    intro e he
    obtain ⟨text, htext, rfl⟩ := List.mem_map.mp (h e he)
    exact ⟨rfl, htext⟩
  constructor
  · rw [List.map_map]
    exact (List.map_congr_left fun e he => (hform e he).1.symm).trans (List.map_id' entries) |>.symm
  · intro text htext
    obtain ⟨e, he, rfl⟩ := List.mem_map.mp htext
    exact (hform e he).2

theorem map_fst_byLower (texts : List Bytes) :
    (texts.map byLower).map Prod.fst = texts.map lowerLatin1 := by
  rw [List.map_map]
  rfl

/-- The entries of `vary`: tokens that were there, then names that were missing. -/
theorem varyDict_entries (method : Bytes) (lines : HeaderLines) : ∃ kept added : List Bytes,
    (varyDict method lines).entries = (kept ++ added).map byLower ∧
    (∀ token ∈ kept, token ∈ varyTokens lines) ∧ (∀ name ∈ added, name ∈ requiredVary method) ∧
    (∀ token ∈ varyTokens lines, lowerLatin1 token ∈ kept.map lowerLatin1) ∧
    (∀ name ∈ requiredVary method, lowerLatin1 name ∈ (kept ++ added).map lowerLatin1) := by
  let start := OrderedDict.ofList ((varyTokens lines).map byLower)
  obtain ⟨added, hadded, hfrom, hall⟩ :=
    OrderedDict.setDefaults_entries start ((requiredVary method).map byLower)
  have hstart : ∀ e ∈ start.entries, e ∈ (varyTokens lines).map byLower :=
    fun e he => OrderedDict.mem_ofList he
  obtain ⟨hkept, hkeptFrom⟩ := eq_map_byLower hstart
  obtain ⟨hnames, hnamesFrom⟩ := eq_map_byLower hfrom
  have hentries : (varyDict method lines).entries =
      (start.entries.map Prod.snd ++ added.map Prod.snd).map byLower := by
    rw [List.map_append, ← hkept, ← hnames]
    exact hadded
  refine ⟨_, _, hentries, hkeptFrom, hnamesFrom, ?_, ?_⟩
  · intro token htoken
    have hkey : lowerLatin1 token ∈ start.keys := by
      refine OrderedDict.mem_keys_update.mpr (.inr ?_)
      rw [map_fst_byLower]
      exact List.mem_map_of_mem htoken
    rw [OrderedDict.keys, hkept, map_fst_byLower] at hkey
    exact hkey
  · intro name hname
    have hkey : lowerLatin1 name ∈ (varyDict method lines).keys :=
      hall (byLower name) (List.mem_map_of_mem hname)
    rw [OrderedDict.keys, hentries, map_fst_byLower] at hkey
    exact hkey

theorem star_mem_keys_iff {method : Bytes} {lines : HeaderLines} :
    star ∈ (varyDict method lines).keys ↔ star ∈ varyTokens lines := by
  obtain ⟨kept, added, hentries, hkept, hadded, hall, -⟩ := varyDict_entries method lines
  rw [OrderedDict.keys, hentries, map_fst_byLower]
  constructor
  · intro h
    obtain ⟨text, htext, hstar⟩ := List.mem_map.mp h
    rcases List.mem_append.mp htext with htext | htext
    · exact lowerLatin1_eq_star_iff.mp hstar ▸ hkept text htext
    · exact absurd hstar (isItem_of_mem_requiredVary (hadded text htext)).2
  · intro h
    have hstar := hall star h
    rw [lowerLatin1_eq_star_iff.mpr rfl] at hstar
    rw [List.map_append]
    exact List.mem_append_left _ hstar

/-- Without a wildcard the items of the new value are the texts of the dictionary. -/
theorem itemsOf_varyValue {method : Bytes} {lines : HeaderLines} (h : star ∉ varyTokens lines) :
    itemsOf comma isSpaceLatin1 (varyValue method lines) =
      (varyDict method lines).entries.map Prod.snd := by
  obtain ⟨kept, added, hentries, hkept, hadded, -, -⟩ := varyDict_entries method lines
  have htexts : (varyDict method lines).entries.map Prod.snd = kept ++ added := by
    rw [hentries, List.map_map]
    exact List.map_id' _
  have hitems : ∀ item ∈ kept ++ added, IsItem comma isSpaceLatin1 item := by
    intro item hitem
    rcases List.mem_append.mp hitem with hitem | hitem
    · exact isItem_of_mem_varyTokens (hkept item hitem)
    · exact (isItem_of_mem_requiredVary (hadded item hitem)).1
  have hvalue : varyValue method lines = joinComma (kept ++ added) := by
    rw [varyValue, if_neg (mt star_mem_keys_iff.mp h), htexts]
  rw [hvalue, htexts]
  exact itemsOf_intercalate (by decide) (by decide) hitems

theorem mergesVary (method : Bytes) (lines : HeaderLines) :
    MergesVary method lines (varyValue method lines) where
  wildcard h := if_pos (star_mem_keys_iff.mpr h)
  merged h := by
    obtain ⟨kept, added, hentries, hkept, hadded, hall, hrequired⟩ := varyDict_entries method lines
    have hnodup : ((kept ++ added).map lowerLatin1).Nodup := by
      rw [← map_fst_byLower, ← hentries]
      exact (varyDict method lines).nodupKeys
    refine ⟨kept, added, ?_, hkept, hadded, hnodup, hall, hrequired⟩
    rw [itemsOf_varyValue h, hentries, List.map_map]
    exact List.map_id' _

example : varyValue (encodeAscii "GET".toList)
    [(vary, encodeAscii "Accept-Encoding,, origin".toList), (vary, encodeAscii " ORIGIN".toList)] =
      encodeAscii "Accept-Encoding, ORIGIN".toList := by decide +kernel

/-- The merged `vary` merges into itself. -/
theorem varyValue_of_valuesOf {method : Bytes} {lines lines' : HeaderLines}
    (h : valuesOf lines' vary = [varyValue method lines]) :
    varyValue method lines' = varyValue method lines := by
  have htokens : varyTokens lines' = itemsOf comma isSpaceLatin1 (varyValue method lines) := by
    rw [varyTokens, h, List.flatMap_singleton]
  by_cases hstar : star ∈ varyTokens lines
  · have hvalue := (mergesVary method lines).wildcard hstar
    refine ((mergesVary method lines').wildcard ?_).trans hvalue.symm
    rw [htokens, hvalue]
    decide +kernel
  · -- the texts of the dictionary are read back, and nothing is missing from them
    obtain ⟨kept, added, hentries, -, -, -, hrequired⟩ := varyDict_entries method lines
    have htexts : varyTokens lines' = kept ++ added := by
      rw [htokens, itemsOf_varyValue hstar, hentries, List.map_map]
      exact List.map_id' _
    have hnodup : (((kept ++ added).map byLower).map Prod.fst).Nodup := by
      rw [← hentries]
      exact (varyDict method lines).nodupKeys
    have hstart : (OrderedDict.ofList ((varyTokens lines').map byLower)).entries =
        (varyDict method lines).entries := by
      rw [htexts, OrderedDict.ofList_entries_of_nodup hnodup, hentries]
    have hdict : varyDict method lines' = varyDict method lines := by
      refine (OrderedDict.setDefaults_of_mem ?_).trans (OrderedDict.ext hstart)
      intro e he
      obtain ⟨name, hname, rfl⟩ := List.mem_map.mp he
      show lowerLatin1 name ∈ OrderedDict.keys _
      rw [OrderedDict.keys, hstart, hentries, map_fst_byLower]
      exact hrequired name hname
    rw [varyValue, hdict, varyValue]

-- ============================================================================
-- The policy that a request reaches
-- ============================================================================

/-- The names of a policy. -/
def policyNames : List Bytes :=
  [allowOrigin, allowMethods, allowHeaders, exposeHeaders, maxAgeName, allowCredentials]

/-- A policy as the middleware fills it. -/
structure Fills (origin : Option Bytes) (policy : Policy) : Prop where
  names : ∀ name ∈ policy.keys, name ∈ policyNames
  origin : ∀ value, (allowOrigin, value) ∈ policy.entries ↔ origin = some value

theorem fills_empty : Fills none .empty :=
  ⟨fun _ h => (List.not_mem_nil h).elim, fun _ => ⟨fun h => (List.not_mem_nil h).elim, nofun⟩⟩

theorem fills_originPolicy (origin : Option Bytes) : Fills origin (originPolicy origin) := by
  cases origin with
  | none => exact fills_empty
  | some origin =>
      have hentries : (originPolicy (some origin)).entries = [(allowOrigin, origin)] := rfl
      refine ⟨fun name h => ?_, fun value => ?_⟩
      · rw [OrderedDict.keys, hentries] at h
        obtain rfl : name = allowOrigin := by simpa using h
        exact List.mem_cons_self
      · rw [hentries]
        simp [eq_comm]

/-- Another name does not touch the origin of a policy. -/
theorem Fills.set {origin : Option Bytes} {policy : Policy} (h : Fills origin policy) (name : Bytes)
    (hname : name ∈ policyNames ∧ allowOrigin ≠ name) (value : Bytes) :
    Fills origin (policy.set name value) where
  names other hother := (OrderedDict.mem_keys_set.mp hother).elim (h.names other) (· ▸ hname.1)
  origin value' := by rw [← h.origin value', OrderedDict.mem_set_of_ne hname.2]

theorem fills_fillPolicy {origin : Option Bytes} {policy : Policy} (opts : Options)
    (h : Fills origin policy) : Fills origin (opts.fillPolicy policy) := by
  have hmethods := h.set allowMethods (by decide) (joinComma opts.optsMethods)
  have hheaders := hmethods.set allowHeaders (by decide) (joinComma opts.allowedHeaders)
  have hexpose := hheaders.set exposeHeaders (by decide) (joinComma opts.exposedHeaders)
  have hage := hexpose.set maxAgeName (by decide) (encodeAscii (toString opts.maxAge).toList)
  rw [Options.fillPolicy]
  split
  · exact hage.set allowCredentials (by decide) _
  · exact hage

/-- The origin that the middleware allows: one that is named, and is not disallowed. -/
def Options.allowedOrigin (opts : Options) (request : Request) : Option Bytes :=
  if opts.isAllowedOrigin request.origin then request.namedOrigin else none

/-- Whatever the verdict is, the policy holds the origin that is allowed. -/
theorem fills_runCorsLogic (opts : Options) (request : Request) :
    Fills (opts.allowedOrigin request) (opts.runCorsLogic request).1 := by
  rw [Options.allowedOrigin, Options.runCorsLogic]
  cases opts.isAllowedOrigin request.origin with
  | false => exact fills_empty
  | true =>
      have horigin := fills_originPolicy request.namedOrigin
      rw [if_pos rfl, if_neg (by decide)]
      dsimp only
      split
      · exact horigin
      · exact fills_fillPolicy opts horigin

theorem runCorsLogic_of_disallowed {opts : Options} {request : Request}
    (h : opts.isAllowedOrigin request.origin = false) :
    (opts.runCorsLogic request).1 = .empty ∧
      ∃ exc, (opts.runCorsLogic request).2 = .rejected exc := by
  rw [Options.runCorsLogic, h]
  exact ⟨rfl, _, rfl⟩

-- ============================================================================
-- What becomes of a response
-- ============================================================================

theorem vary_notMem_keys {origin : Option Bytes} {policy : Policy} (h : Fills origin policy) :
    vary ∉ policy.keys := fun hmem =>
  absurd (h.names vary hmem) (by decide)

theorem valuesOf_withPolicy_vary {origin : Option Bytes} {policy : Policy} (h : Fills origin policy)
    (method : Bytes) (lines : HeaderLines) :
    valuesOf (withPolicy policy method lines) vary = [varyValue method lines] := by
  rw [withPolicy, valuesOf_assignAll_notMem (vary_notMem_keys h), valuesOf_assign_self]

theorem valuesOf_withPolicy_notMem {policy : Policy} {name : Bytes} (hname : name ∉ policy.keys)
    (hvary : name ≠ vary) (method : Bytes) (lines : HeaderLines) :
    valuesOf (withPolicy policy method lines) name = valuesOf lines name := by
  rw [withPolicy, valuesOf_assignAll_notMem hname, valuesOf_assign_ne hvary]

/-- A second time nothing changes. -/
theorem withPolicy_withPolicy {origin : Option Bytes} {policy : Policy} (h : Fills origin policy)
    (method : Bytes) (lines : HeaderLines) :
    withPolicy policy method (withPolicy policy method lines) = withPolicy policy method lines := by
  have hvary := valuesOf_withPolicy_vary h method lines
  have hassign : assign (withPolicy policy method lines) vary
      (varyValue method (withPolicy policy method lines)) = withPolicy policy method lines := by
    rw [varyValue_of_valuesOf hvary]
    exact assign_of_valuesOf hvary
  have hentries : ∀ e ∈ policy.entries, valuesOf (withPolicy policy method lines) e.1 = [e.2] :=
    fun e he => valuesOf_assignAll_mem policy.nodupKeys he _
  rw [withPolicy, hassign, assignAll_of_valuesOf hentries]

theorem applyCorsResponseHeaders_idem {origin : Option Bytes} {policy : Policy}
    (h : Fills origin policy) (method : Bytes) (message : Message) :
    applyCorsResponseHeaders (some policy) method
      (applyCorsResponseHeaders (some policy) method message) =
      applyCorsResponseHeaders (some policy) method message := by
  cases message with
  | start status lines =>
      exact congrArg (Message.start status) (withPolicy_withPolicy h method lines)
  | body data moreBody => rfl

/-- What a response gets: the one allowed origin, or no origin of its own; for an origin that is
    not allowed nothing beside `vary`; and the merged `vary`, on one line. -/
structure Dresses (opts : Options) (request : Request) (before after : HeaderLines) : Prop where
  allowed : ∀ origin, request.origin = some origin → origin ≠ [] →
    opts.isAllowedOrigin (some origin) = true → valuesOf after allowOrigin = [origin]
  absent : (request.origin = none ∨ request.origin = some []) →
    valuesOf after allowOrigin = valuesOf before allowOrigin
  disallowed : opts.isAllowedOrigin request.origin = false →
    ∀ name ≠ vary, valuesOf after name = valuesOf before name
  vary : ∃ value, valuesOf after vary = [value] ∧ MergesVary request.method before value

theorem dresses_withPolicy (opts : Options) (request : Request) (lines : HeaderLines) :
    Dresses opts request lines
      (withPolicy (opts.runCorsLogic request).1 request.method lines) where
  allowed origin horigin hne hallowed := by
    have hfills := fills_runCorsLogic opts request
    have hnamed : opts.allowedOrigin request = some origin := by
      rw [Options.allowedOrigin, Request.namedOrigin, horigin, if_pos hallowed]
      exact Option.filter_some_pos (by simpa using hne)
    exact valuesOf_assignAll_mem (OrderedDict.nodupKeys _) ((hfills.origin origin).mpr hnamed) _
  absent habsent := by
    have hfills := fills_runCorsLogic opts request
    refine valuesOf_withPolicy_notMem (fun hmem => ?_) (by decide) _ _
    obtain ⟨⟨name, value⟩, hentry, rfl⟩ := List.mem_map.mp hmem
    have hnamed := (hfills.origin value).mp hentry
    rw [Options.allowedOrigin, Request.namedOrigin] at hnamed
    rcases habsent with habsent | habsent
    · simp [habsent] at hnamed
    · simp [habsent] at hnamed
  disallowed hdisallowed name hname := by
    obtain ⟨hpolicy, -⟩ := runCorsLogic_of_disallowed hdisallowed
    rw [hpolicy]
    exact valuesOf_withPolicy_notMem List.not_mem_nil hname _ _
  vary := ⟨_, valuesOf_withPolicy_vary (fills_runCorsLogic opts request) _ _, mergesVary _ _⟩

/-- A message as it is sent, against the message that was handed to `send_wrapper`. -/
inductive Follows (opts : Options) (request : Request) : Message → Message → Prop where
  | start {status : Nat} {before after : HeaderLines} (h : Dresses opts request before after) :
      Follows opts request (.start status before) (.start status after)
  | body (data : Bytes) (moreBody : Bool) :
      Follows opts request (.body data moreBody) (.body data moreBody)

theorem follows_apply (opts : Options) (request : Request) (message : Message) :
    Follows opts request message
      (applyCorsResponseHeaders (some (opts.runCorsLogic request).1) request.method message) := by
  cases message with
  | start status lines => exact .start (dresses_withPolicy opts request lines)
  | body data moreBody => exact .body data moreBody

/-- The messages among the events of a call. -/
def sentOf (events : List Event) : List Message :=
  events.filterMap fun
    | .send message => some message
    | .application => none

/-- The messages that a call hands to `send_wrapper`: those of the application, of the handler and
    of the empty answer. -/
def Options.handed (opts : Options) (app : Request → List Message × Ending)
    (handler : HTTPException → List Message) (request : Request) : List Message :=
  match (opts.runCorsLogic request).2, (app request).2 with
  | .rejected exc, _ => handler exc
  | .answered, _ => noContent
  | .forwarded, .http exc => (app request).1 ++ handler exc
  | .forwarded, _ => (app request).1

theorem sentOf_map_send (f : Message → Message) (messages : List Message) :
    sentOf (messages.map fun message => .send (f message)) = messages.map f := by
  rw [sentOf, List.filterMap_map]
  exact congrFun (List.filterMap_eq_map (f := f)) messages

/-- Every message that is sent is one that was handed over, with the policy on it. -/
theorem sentOf_call (opts : Options) (app : Request → List Message × Ending)
    (handler : HTTPException → List Message) (request : Request) :
    sentOf (opts.call app handler request).1 = (opts.handed app handler request).map
      (applyCorsResponseHeaders (some (opts.runCorsLogic request).1) request.method) := by
  rw [Options.call, Options.handed]
  obtain ⟨policy, verdict⟩ := opts.runCorsLogic request
  obtain ⟨messages, ending⟩ := app request
  have hskip : ∀ events, sentOf (.application :: events) = sentOf events := fun _ => rfl
  have happend : ∀ events events', sentOf (events ++ events') = sentOf events ++ sentOf events' :=
    fun _ _ => List.filterMap_append
  cases verdict with
  | rejected exc => exact sentOf_map_send _ _
  | answered => exact sentOf_map_send _ _
  | forwarded =>
      cases ending with
      | returned => exact (hskip _).trans (sentOf_map_send _ _)
      | error => exact (hskip _).trans (sentOf_map_send _ _)
      | http exc =>
          show sentOf (.application :: _ ++ _) = _
          rw [List.cons_append, hskip, happend, sentOf_map_send, sentOf_map_send, List.map_append]

/-- A disallowed origin does not reach the application; every response, also the 408 of a request
    that has reached the middleware, is dressed by the policy; and to apply the policy twice is
    to apply it once. -/
theorem cors_response_policy (opts : Options) (app : Request → List Message × Ending)
    (handler : HTTPException → List Message) (request : Request) :
    (opts.isAllowedOrigin request.origin = false →
      Event.application ∉ (opts.call app handler request).1) ∧
    List.Forall₂ (Follows opts request) (opts.handed app handler request)
      (sentOf (opts.call app handler request).1) ∧
    (∀ message, Follows opts request message (opts.sendTimeout request true message) ∧
      opts.sendTimeout request false message = message) ∧
    ∀ message reached, opts.sendTimeout request reached (opts.sendTimeout request reached message) =
      opts.sendTimeout request reached message := by
  refine ⟨fun hdisallowed => ?_, ?_, fun message => ⟨follows_apply opts request message, ?_⟩,
    fun message reached => ?_⟩
  · obtain ⟨-, exc, hverdict⟩ := runCorsLogic_of_disallowed hdisallowed
    rw [Options.call]
    rcases hrun : opts.runCorsLogic request with ⟨policy, verdict⟩
    rw [hrun] at hverdict
    obtain rfl : verdict = .rejected exc := hverdict
    simp
  · rw [sentOf_call, List.forall₂_map_right_iff]
    exact List.forall₂_same.mpr fun message _ => follows_apply opts request message
  · cases message <;> rfl
  · cases reached with
    | true => exact applyCorsResponseHeaders_idem (fills_runCorsLogic opts request) _ message
    | false => cases message <;> rfl

def localOrigin : Bytes := encodeAscii "http://localhost:3000".toList

def twoOrigins : Options where
  origin := .many ["https://app.test".toList, "http://localhost:3000".toList]
  methods := [encodeAscii "GET".toList]
  allowedHeaders := []
  exposedHeaders := []

def fromLocal : Request := ⟨encodeAscii "GET".toList, [(originName, localOrigin)], by decide⟩

def fromOther : Request :=
  ⟨encodeAscii "GET".toList, [(originName, encodeAscii "https://other.test".toList)], by decide⟩

def answerOk (_ : Request) : List Message × Ending :=
  ([.start 200 [(vary, encodeAscii "Accept".toList)], .body [] false], .returned)

def answerError (exc : HTTPException) : List Message :=
  [.start exc.statusCode exc.headers, .body exc.detail false]

/-- Of two origins the one that is listed is named in its response, with the merged `vary`, and
    the other does not reach the application. -/
theorem cors_response_policy_listed :
    Event.application ∉ (twoOrigins.call answerOk answerError fromOther).1 ∧
      ∃ lines value, sentOf (twoOrigins.call answerOk answerError fromLocal).1 =
          [.start 200 lines, .body [] false] ∧
        valuesOf lines allowOrigin = [localOrigin] ∧ valuesOf lines vary = [value] ∧
        MergesVary fromLocal.method [(vary, encodeAscii "Accept".toList)] value := by
  obtain ⟨hother, -⟩ := cors_response_policy twoOrigins answerOk answerError fromOther
  obtain ⟨-, hsent, -⟩ := cors_response_policy twoOrigins answerOk answerError fromLocal
  have hdisallowed : twoOrigins.isAllowedOrigin fromOther.origin = false := by decide +kernel
  have hlisted : twoOrigins.isAllowedOrigin (some localOrigin) = true := by
    refine Options.isAllowedOrigin_eq_true_iff.mpr fun value heq _ => .inr ?_
    obtain rfl := Option.some.inj heq
    decide +kernel
  have horigin : fromLocal.origin = some localOrigin := by decide +kernel
  have hhanded : twoOrigins.handed answerOk answerError fromLocal =
      [.start 200 [(vary, encodeAscii "Accept".toList)], .body [] false] := by decide +kernel
  refine ⟨hother hdisallowed, ?_⟩
  rw [hhanded] at hsent
  obtain ⟨first, others, hfirst, hothers, hsent⟩ := List.forall₂_cons_left_iff.mp hsent
  obtain ⟨last, none, hlast, hnone, rfl⟩ := List.forall₂_cons_left_iff.mp hothers
  obtain rfl := List.forall₂_nil_left_iff.mp hnone
  cases hlast
  cases hfirst with
  | start hdressed =>
      obtain ⟨value, hvary, hmerges⟩ := hdressed.vary
      exact ⟨_, value, hsent, hdressed.allowed localOrigin horigin (by decide) hlisted, hvary,
        hmerges⟩

end QuickApi.Cors
