/-
  QuickApi.Stack.Stamps

  The layers outside the deadline: every response that leaves them carries the
  headers that they owe it, the deadline is entered with screened requests
  only, and the context of the task is cleared whatever happens
  (`edge_responses_stamped`).
-/

import QuickApi.Stack.Admission
import QuickApi.Stack.Edge

namespace QuickApi.Stack

open QuickApi.Lib
open QuickApi.Cors (HeaderLines Message)
open QuickApi.HttpPolicy (HTTPException HeaderSanitization TrustedProxy)
open QuickApi.RateLimit (RateLimitDecision RateLimitPolicy)
open QuickApi.RequestTimeout (Stage)

variable (finalSigma : List Char → List Char → Bool)

-- ============================================================================
-- The contract at the edge
-- ============================================================================

/-- What the id generator and the limiter answer in the runs that are looked at. -/
structure Answers where
  requestId : List Char
  decision : RateLimitDecision

/-- The response so far, and whether an id was drawn and the limiter asked. -/
structure Exchange where
  stage : Stage
  identified : Bool
  asked : Bool

/-- Before the first operation. -/
def Exchange.fresh : Exchange := ⟨.fresh, false, false⟩

/-- What the headers of a response owe to the exchange. -/
abbrev Stamping := Exchange → HeaderLines → Prop

/-- The exchange behind an answer; a run with other answers is not looked at further (`none`). -/
def Exchange.answered (answers : Answers) (x : Exchange) : (op : Op) → Ans op → Option Exchange
  | .send message, _ => some { x with stage := (x.stage.next (shape message)).getD x.stage }
  | .admitRequest _, answer =>
      let decision : RateLimitDecision := answer
      if decision = answers.decision then some { x with asked := true } else none
  | .requestId, answer =>
      let requestId : List Char := answer
      if requestId = answers.requestId then some { x with identified := true } else none
  | _, _ => some x

/-- The messages of one response in order, each start stamped; one request id, and one admission
    of the client. -/
def exchange (answers : Answers) (client : List Char) (stamped : Stamping) :
    Contract Op Ans Vars (Option Exchange) where
  allowed g _ op :=
    ∀ x, g = some x →
      match op with
      | .send message => (x.stage.next (shape message)).isSome = true ∧
          ∀ status headers, message = .start status headers → stamped x headers
      | .admitRequest identity => x.asked = false ∧ identity = client
      | .requestId => x.identified = false
      | _ => True
  rely _ s s' := s' = s
  after g op a _ := g.bind fun x => x.answered answers op a

/-- The value of `x-ratelimit-result` -/
def resultValue (decision : RateLimitDecision) : Bytes :=
  encodeAscii (if decision.allowed then "accepted".toList else "rejected".toList)

/-- The response tells the decision, if the limiter was asked. -/
def ResultStamped (answers : Answers) : Stamping := fun x headers =>
  x.asked = true → (resultName, resultValue answers.decision) ∈ headers

/-- The response tells the request id. -/
def IdStamped (answers : Answers) : Stamping := fun _ headers =>
  (requestIdName, encodeUtf8 answers.requestId) ∈ headers

/-- The response has the security headers, where they are due. -/
def SecurityStamped (due : Bool) : Stamping := fun _ headers =>
  due = true → ∀ line ∈ securityHeaders, line ∈ headers

/-- The stamps that the layers up to the security headers owe. -/
def SecuredStamps (answers : Answers) (due : Bool) : Stamping := fun x headers =>
  ResultStamped answers x headers ∧ SecurityStamped due x headers

/-- All stamps. -/
def FullyStamped (answers : Answers) (due : Bool) : Stamping := fun x headers =>
  SecuredStamps answers due x headers ∧ IdStamped answers x headers

/-- A call that may raise an `HTTPException` before its response only. -/
def Early : Stage → Vars → Except Exc Unit → Prop := fun g _ r =>
  ∀ exc headers, r = .error (.http exc headers) → g = .fresh

/-- A call that raises no `HTTPException`. -/
def NoHttp {γ : Type} : γ → Vars → Except Exc Unit → Prop := fun _ _ r =>
  ∀ exc headers, r ≠ .error (.http exc headers)

/-- `Q` in the runs that are looked at. -/
def Traced (Q : Exchange → Vars → Except Exc Unit → Prop) :
    Option Exchange → Vars → Except Exc Unit → Prop := fun g s r => ∀ x, g = some x → Q x s r

variable {answers : Answers} {client : List Char} {stamped : Stamping} {s : Vars}

theorem quiet_exchange : Quiet (exchange answers client stamped) where
  rely _ _ _ h := h
  timestamp g _ := ⟨fun _ _ => trivial, fun _ _ => by cases g <;> rfl⟩
  log g _ _ := ⟨fun _ _ => trivial, fun _ _ => by cases g <;> rfl⟩

/-- A run with other answers. -/
theorem wp_lost {run : Task Unit} {Q : Exchange → Vars → Except Exc Unit → Prop} :
    run.wp (exchange answers client stamped) none s (Traced Q) := by
  show (run s).Conforms _ none (Traced Q)
  induction run s with
  | ret s r =>
      intro x hx
      cases hx
  | call s op k ih =>
      refine ⟨?_, fun a s' _ => ih a s'⟩
      intro x hx
      cases hx

theorem Served.noHttp {g : Stage} {r : Except Exc Unit} (h : Served g s r) : NoHttp g s r := by
  rintro exc headers rfl
  exact h

-- ============================================================================
-- Layers that see the two channels only
-- ============================================================================

variable {app : App CleanScope} {scope : CleanScope}

/-- A layer that answers rejections stops every `HTTPException`. -/
theorem wp_answerRejections_noHttp {run : Task Unit} {g : Stage}
    (h : run.wp attempt g s Early) : (answerRejections run).wp attempt g s NoHttp :=
  wp_answerRejections h (fun _ _ exc headers hr => hr exc headers rfl) (fun _ _ _ hr => hr.noHttp)
    (fun _ _ _ _ _ hr => nomatch hr) fun _ _ _ _ _ _ hr => nomatch hr

theorem NoHttp.early {g : Stage} {r : Except Exc Unit} (h : NoHttp g s r) :
    Early g s r := fun exc headers hr => absurd hr (h exc headers)

theorem Routed.early {g : Stage} {r : Except Exc Unit} (h : Routed g s r) : Early g s r := by
  rintro exc headers rfl
  exact h

/-- The headers keep the limits. -/
structure HeaderLimits.Keeps (limits : HeaderLimits) (headers : HeaderLines) : Prop where
  count : headers.length ≤ limits.maxHeaderCount
  single : ∀ header ∈ headers, HeaderLimits.size header ≤ limits.maxSingleHeaderBytes
  total : (headers.map HeaderLimits.size).sum ≤ limits.maxTotalHeaderBytes

theorem HeaderLimits.check_cases (limits : HeaderLimits) (headers : HeaderLines) :
    (limits.check headers = .ok () ∧ limits.Keeps headers) ∨
      ∃ exc, limits.check headers = .error (.http exc []) := by
  unfold HeaderLimits.check
  split
  · exact .inr ⟨_, rfl⟩
  · next hcount =>
      split
      · exact .inr ⟨_, rfl⟩
      · next hsingle =>
          split
          · exact .inr ⟨_, rfl⟩
          · next htotal =>
              split
              · exact .inr ⟨_, rfl⟩
              · refine .inl ⟨rfl, Nat.not_lt.mp hcount, ?_, Nat.not_lt.mp htotal⟩
                simpa using hsingle

theorem HeaderLimits.call_noHttp (limits : HeaderLimits) (http : scope.type = .http)
    (h : limits.Keeps scope.headers → (app scope).wp attempt .fresh s Early) :
    (limits.call app scope).wp attempt .fresh s NoHttp := by
  unfold HeaderLimits.call
  rw [if_neg (not_not.mpr http)]
  apply wp_answerRejections_noHttp
  apply Program.wp_bind.mpr
  obtain ⟨hcheck, hkeeps⟩ | ⟨exc, hcheck⟩ := limits.check_cases scope.headers
  · rw [hcheck]
    exact h hkeeps
  · rw [hcheck]
    intro exc headers hr
    rfl

theorem cleanScope_cases (mw : HeaderSanitization) {scope : Scope} (http : scope.type = .http) :
    (∃ cleaned, cleanScope mw scope = .ok cleaned ∧
        cleaned.toScope = { scope with headers := scope.headers.filter mw.allows } ∧
        HeaderSanitization.Conforms HttpPolicy.isNameLine scope.headers) ∨
      ∃ exc, cleanScope mw scope = .error exc := by
  unfold cleanScope
  split
  · next base hrun =>
      have htype : base.type = .http := by
        obtain ⟨detail, herror⟩ | ⟨headers, hok, -⟩ := mw.run_cases http
        · rw [hrun] at herror
          cases herror
        · rw [hrun] at hok
          cases hok
          exact http
      obtain ⟨hconforms, hbase⟩ := run_eq_ok hrun htype
      refine .inl ⟨_, rfl, ?_, hconforms⟩
      show { scope with base } = _
      rw [hbase]
  · exact .inr ⟨_, rfl⟩

theorem sanitizationCall_noHttp (mw : HeaderSanitization) (scope : Scope)
    (http : scope.type = .http)
    (h : ∀ cleaned : CleanScope,
      cleaned.toScope = { scope with headers := scope.headers.filter mw.allows } →
      HeaderSanitization.Conforms HttpPolicy.isNameLine scope.headers →
      (app cleaned).wp attempt .fresh s Early) :
    (sanitizationCall mw app scope).wp attempt .fresh s NoHttp := by
  unfold sanitizationCall
  rw [dif_pos http]
  apply wp_answerRejections_noHttp
  obtain ⟨cleaned, hclean, hscope, hconforms⟩ | ⟨exc, hclean⟩ := cleanScope_cases mw http
  · rw [hclean]
    exact h cleaned hscope hconforms
  · rw [hclean]
    intro exc headers hr
    rfl

-- ============================================================================
-- Layers that stamp responses
-- ============================================================================

/-- A wrapper that appends header lines. -/
theorem appendHeaders_simulates {lines : HeaderLines} {inner outer : Stamping}
    (hstamp : ∀ x headers, inner x headers → outer x (headers ++ lines)) :
    (Wrapper.onSend (appendHeaders lines)).layer.Simulates (exchange answers client inner)
      (exchange answers client outer) fun g' _ g => g' = g := by
  rintro g' t g s op rfl hallowed
  have hshape (message : Message) : shape (appendHeaders lines message) = shape message := by
    cases message <;> rfl
  cases op with
  | send message =>
      refine ⟨?_, ?_⟩
      · intro x hx
        obtain ⟨hnext, hstamped⟩ := hallowed x hx
        refine ⟨?_, ?_⟩
        · show (x.stage.next (shape (appendHeaders lines message))).isSome = true
          rw [hshape]
          exact hnext
        · intro status headers hmessage
          cases message with
          | body data moreBody => cases hmessage
          | start status' headers' =>
              cases hmessage
              exact hstamp x headers' (hstamped status headers' rfl)
      · rintro a s' rfl
        refine ⟨rfl, ?_⟩
        show (g'.bind fun x =>
            some { x with stage := (x.stage.next (shape message)).getD x.stage }) =
          g'.bind fun x => some
            { x with stage := (x.stage.next (shape (appendHeaders lines message))).getD x.stage }
        rw [hshape]
  | receive => exact ⟨hallowed, fun _ _ hs => ⟨hs, rfl⟩⟩
  | admitRequest identity => exact ⟨hallowed, fun _ _ hs => ⟨hs, rfl⟩⟩
  | requestId => exact ⟨hallowed, fun _ _ hs => ⟨hs, rfl⟩⟩
  | timestamp => exact ⟨hallowed, fun _ _ hs => ⟨hs, rfl⟩⟩
  | log record => exact ⟨hallowed, fun _ _ hs => ⟨hs, rfl⟩⟩

/-- What holds behind a call holds behind it through a wrapper that appends header lines. -/
theorem wp_stamped {lines : HeaderLines} (inner : Stamping) {outer : Stamping} {run : Task Unit}
    {g : Option Exchange} {Q : Option Exchange → Vars → Except Exc Unit → Prop}
    (hstamp : ∀ x headers, inner x headers → outer x (headers ++ lines))
    (hrun : run.wp (exchange answers client inner) g s Q) :
    (do
      let outcome ← wrapped (.onSend (appendHeaders lines)) () run
      ofOutcome outcome.1).wp (exchange answers client outer) g s Q := by
  apply Program.wp_bind.mpr
  apply Program.wp_mono (Program.wp_through (appendHeaders_simulates hstamp) hrun rfl)
  rintro g s r ⟨result, t', g', rfl, rfl, hQ⟩
  rcases result with exc | u
  · exact hQ
  · exact hQ

/-- Fewer stamps are easier to owe. -/
theorem exchange_refines {inner outer : Stamping}
    (h : ∀ x headers, inner x headers → outer x headers) :
    (exchange answers client outer).Refines (exchange answers client inner) Eq := by
  rintro g' g s op rfl hallowed
  refine ⟨?_, fun _ _ hs => ⟨hs, rfl⟩⟩
  cases op with
  | send message =>
      intro x hx
      obtain ⟨hnext, hstamped⟩ := hallowed x hx
      exact ⟨hnext, fun status headers hm => h x headers (hstamped status headers hm)⟩
  | receive => exact hallowed
  | admitRequest identity => exact hallowed
  | requestId => exact hallowed
  | timestamp => exact hallowed
  | log record => exact hallowed

/-- An application that attempts one response, where any headers are stamped. -/
theorem exchange_refines_attempt (x : Exchange)
    (h : ∀ stage headers, stamped { x with stage } headers) :
    (exchange answers client stamped).Refines attempt fun stage g => g = some { x with stage } := by
  rintro stage g s op rfl hallowed
  cases op with
  | send message =>
      refine ⟨?_, fun _ _ hs => ⟨hs, rfl⟩⟩
      rintro y hy
      obtain rfl := Option.some.inj hy
      exact ⟨hallowed, fun _ headers _ => h stage headers⟩
  | receive => exact ⟨fun _ _ => trivial, fun _ _ hs => ⟨hs, rfl⟩⟩
  | admitRequest identity => exact absurd hallowed id
  | requestId => exact absurd hallowed id
  | timestamp => exact ⟨fun _ _ => trivial, fun _ _ hs => ⟨hs, rfl⟩⟩
  | log record => exact ⟨fun _ _ => trivial, fun _ _ hs => ⟨hs, rfl⟩⟩

theorem wp_exchange_of_attempt {run : Task Unit} {x : Exchange}
    (h : ∀ stage headers, stamped { x with stage } headers) (hstage : x.stage = .fresh)
    (hrun : run.wp attempt .fresh s NoHttp) :
    run.wp (exchange answers client stamped) (some x) s (Traced NoHttp) := by
  have hx : some x = some { x with stage := .fresh } := by
    rw [← hstage]
  apply Program.wp_mono (Program.wp_refines (exchange_refines_attempt x h) hrun hx)
  rintro g s r ⟨stage, -, hr⟩ y -
  exact hr

-- ============================================================================
-- Responses of the layers themselves
-- ============================================================================

theorem wp_send_stamped {message : Message} {x : Exchange} {n : Stage}
    {Q : Option Exchange → Vars → Except Exc Unit → Prop}
    (hnext : x.stage.next (shape message) = some n)
    (hstamp : ∀ status headers, message = .start status headers → stamped x headers)
    (hok : Q (some { x with stage := n }) s (.ok ()))
    (hfault : ∀ f, Q (some { x with stage := n }) s (.error (.fault f))) :
    (send message).wp (exchange answers client stamped) (some x) s Q := by
  unfold send
  apply Program.wp_bind.mpr
  apply Program.wp_perform.mpr
  refine ⟨?_, ?_⟩
  · intro y hy
    obtain rfl := Option.some.inj hy
    exact ⟨by rw [hnext]; rfl, hstamp⟩
  · rintro a s' rfl
    have hafter : (exchange answers client stamped).after (some x) (.send message) a s' =
        some { x with stage := n } := by
      show some { x with stage := (x.stage.next (shape message)).getD x.stage } = _
      rw [hnext]
      rfl
    rw [hafter]
    obtain f | u := (a : Except Fault Unit)
    · exact hfault f
    · exact hok

/-- A response with its stamps. -/
theorem Response.wp_call_stamped {response : Response} {x : Exchange} (hstage : x.stage = .fresh)
    (hstamp : stamped x response.rawHeaders) :
    response.call.wp (exchange answers client stamped) (some x) s (Traced NoHttp) := by
  unfold Response.call
  apply Program.wp_bind.mpr
  apply wp_send_stamped (n := .streaming) (by rw [hstage]; rfl)
  · intro status headers hmessage
    cases hmessage
    exact hstamp
  · apply wp_send_stamped (n := .finished) rfl
    · intro status headers hmessage
      cases hmessage
    · intro x _ exc headers hr
      cases hr
    · intro f x _ exc headers hr
      cases hr
  · intro f x _ exc headers hr
    cases hr

/-- A rejection tells that it is one. -/
theorem resultStamped_rateLimited (policy : RateLimitPolicy) (status : Nat) (body : Bytes)
    (hrejected : answers.decision.allowed = false) (x : Exchange) :
    ResultStamped answers x
      (jsonHeaders status (rateLimited policy answers.decision).2 body) := by
  intro _
  have hvalue : resultValue answers.decision = encodeAscii "rejected".toList := by
    rw [resultValue, hrejected]
    rfl
  rw [hvalue]
  apply List.mem_append_left
  apply List.mem_append_left
  exact List.mem_cons_of_mem _ (List.mem_cons_self ..)

-- ============================================================================
-- Layer by layer
-- ============================================================================

/-- The limiter does not stop the request. -/
def Passed (answers : Answers) (scope : Scope) : Prop :=
  isFavicon finalSigma scope = true ∨ answers.decision.allowed = true

section Layers

variable {app : App Scope}

/-- The limiter is asked once at most, for the client of the request; whatever response leaves
    tells its decision. -/
theorem rateLimitCall_stamped (policy : RateLimitPolicy) (scope : Scope)
    (http : scope.type = .http) (hclient : getClientIp scope = client) (identified : Bool)
    (h : Passed finalSigma answers scope → (app scope).wp attempt .fresh s NoHttp) :
    (rateLimitCall finalSigma policy app scope).wp
      (exchange answers client (ResultStamped answers)) (some ⟨.fresh, identified, false⟩) s
      (Traced NoHttp) := by
  unfold rateLimitCall
  rw [if_neg (not_not.mpr http)]
  by_cases hfavicon : isFavicon finalSigma scope = true
  · rw [if_pos hfavicon]
    apply wp_exchange_of_attempt ?_ rfl (h (.inl hfavicon))
    intro stage headers hasked
    cases hasked
  · rw [if_neg hfavicon]
    apply Program.wp_bind.mpr
    apply Program.wp_perform.mpr
    refine ⟨?_, ?_⟩
    · intro x hx
      obtain rfl := Option.some.inj hx
      exact ⟨rfl, hclient⟩
    · rintro (decision : RateLimitDecision) s' rfl
      by_cases hdecision : decision = answers.decision
      · subst decision
        have hafter : (exchange answers client (ResultStamped answers)).after
            (some ⟨.fresh, identified, false⟩) (.admitRequest (getClientIp scope))
              answers.decision s' = some ⟨.fresh, identified, true⟩ := if_pos rfl
        rw [hafter]
        cases hallowed : answers.decision.allowed with
        | false =>
            simp only [hallowed, Bool.not_false, if_true]
            apply Program.wp_bind.mpr
            apply wp_httpExceptionHandler quiet_exchange
            intro body
            apply Response.wp_call_stamped rfl
            exact resultStamped_rateLimited policy _ body hallowed _
        | true =>
            simp only [hallowed, Bool.not_true, Bool.false_eq_true, if_false]
            apply wp_stamped fun _ _ => True
            · intro x headers _ _
              apply List.mem_append_right
              rw [resultValue, hallowed]
              exact List.mem_singleton.mpr rfl
            · exact wp_exchange_of_attempt (fun _ _ => trivial) rfl (h (.inr hallowed))
      · have hafter : (exchange answers client (ResultStamped answers)).after
            (some ⟨.fresh, identified, false⟩) (.admitRequest (getClientIp scope))
              decision s' = none := if_neg hdecision
        rw [hafter]
        exact wp_lost

/-- Responses outside the documentation have the security headers. -/
theorem securityHeadersCall_stamped (docsEnabled : Bool) (scope : Scope)
    (http : scope.type = .http) {g : Option Exchange}
    (h : (app scope).wp (exchange answers client (ResultStamped answers)) g s (Traced NoHttp)) :
    (securityHeadersCall finalSigma docsEnabled app scope).wp
      (exchange answers client (SecuredStamps answers (!isDocsPath finalSigma docsEnabled scope)))
      g s (Traced NoHttp) := by
  unfold securityHeadersCall
  rw [if_neg (not_not.mpr http)]
  cases hdocs : isDocsPath finalSigma docsEnabled scope with
  | true =>
      rw [if_pos rfl]
      have hrefines : (exchange answers client (SecuredStamps answers (!true))).Refines
          (exchange answers client (ResultStamped answers)) Eq :=
        exchange_refines fun x headers hresult => ⟨hresult, fun hdue => Bool.noConfusion hdue⟩
      apply Program.wp_mono (Program.wp_refines hrefines h rfl)
      rintro g s r ⟨g', rfl, hr⟩
      exact hr
  | false =>
      rw [if_neg Bool.false_ne_true]
      apply wp_stamped (ResultStamped answers) ?_ h
      intro x headers hresult
      refine ⟨fun hasked => List.mem_append_left _ (hresult hasked), ?_⟩
      exact fun _ line hline => List.mem_append_right _ hline

/-- The client of the context is the one that the limiter is asked for. -/
theorem clientHost_cases (scope : Scope) :
    clientHost scope = .ok (getClientIp scope) ∨
      ∃ f, clientHost scope = .error (.fault f) := by
  unfold clientHost getClientIp
  cases scope.client with
  | some client => exact .inl rfl
  | none =>
      cases scope.clientListed with
      | true => exact .inr ⟨_, rfl⟩
      | false => exact .inl rfl

theorem SecuredStamps.append {due : Bool} {x : Exchange} {headers : HeaderLines}
    (h : SecuredStamps answers due x headers) (lines : HeaderLines) :
    SecuredStamps answers due x (headers ++ lines) := by
  obtain ⟨hresult, hsecurity⟩ := h
  refine ⟨fun hasked => List.mem_append_left _ (hresult hasked), ?_⟩
  exact fun hdue line hline => List.mem_append_left _ (hsecurity hdue line hline)

/-- The context of the request, with the id that is drawn for it. -/
def contextFor (answers : Answers) (scope : Scope) : RequestContextData :=
  ⟨answers.requestId, scope.method, scope.path, getClientIp scope⟩

/-- One id is drawn for the request; its context and every response tell it. -/
theorem requestContextCall_stamped {due : Bool} (scope : Scope) (http : scope.type = .http)
    (h : ∀ vars, vars.requestContext = some (contextFor answers scope) →
      (app { scope with ctx := some (contextFor answers scope) }).wp
        (exchange answers client (SecuredStamps answers due)) (some ⟨.fresh, true, false⟩) vars
        (Traced NoHttp)) :
    (requestContextCall app scope).wp (exchange answers client (FullyStamped answers due))
      (some .fresh) s (Traced NoHttp) := by
  unfold requestContextCall
  rw [if_neg (not_not.mpr http)]
  apply Program.wp_bind.mpr
  apply Program.wp_perform.mpr
  refine ⟨?_, ?_⟩
  · intro x hx
    obtain rfl := Option.some.inj hx
    exact rfl
  · rintro (requestId : List Char) s' rfl
    by_cases hid : requestId = answers.requestId
    · subst requestId
      have hafter : (exchange answers client (FullyStamped answers due)).after (some .fresh)
          .requestId answers.requestId s' = some ⟨.fresh, true, false⟩ := if_pos rfl
      rw [hafter]
      obtain hclient | ⟨f, hclient⟩ := clientHost_cases scope
      · simp only [hclient]
        apply Program.wp_bind.mpr
        apply Program.wp_modify.mpr
        apply wp_stamped (SecuredStamps answers due) ?_ (h _ rfl)
        intro x headers hsecured
        refine ⟨hsecured.append _, ?_⟩
        exact List.mem_append_right _ (List.mem_singleton.mpr rfl)
      · simp only [hclient]
        intro x _ exc headers hr
        cases hr
    · have hafter : (exchange answers client (FullyStamped answers due)).after (some .fresh)
          .requestId requestId s' = none := if_neg hid
      rw [hafter]
      exact wp_lost

end Layers

-- ============================================================================
-- All layers
-- ============================================================================

/-- The scope behind the trusted proxies. -/
def Edge.forwarded (edge : Edge) (scope : Scope) : Scope :=
  { scope with base := edge.proxies.forward scope.base }

theorem Edge.forwarded_type (edge : Edge) (scope : Scope) :
    (edge.forwarded scope).type = scope.type := by
  show (edge.proxies.forward scope.base).type = scope.type
  unfold TrustedProxy.forward
  split
  · unfold TrustedProxy.applyForwarding
    split
    · rfl
    · rfl
  · rfl

/-- The deadline is entered with a request that every layer around it lets through, and in its
    context. -/
structure Edge.Screened (edge : Edge) (answers : Answers) (scope : Scope) (cleaned : CleanScope)
    (vars : Vars) : Prop where
  passed : Passed finalSigma answers (edge.forwarded scope)
  wellFormed : HeaderSanitization.Conforms HttpPolicy.isNameLine (edge.forwarded scope).headers
  filtered : cleaned.toScope =
    { edge.forwarded scope with
      headers := (edge.forwarded scope).headers.filter edge.sanitization.allows
      ctx := some (contextFor answers (edge.forwarded scope)) }
  keeps : edge.limits.Keeps cleaned.headers
  context : vars.requestContext = cleaned.ctx

/-- For every deadline that attempts one response at a time, and raises no `HTTPException` behind
    its start, every request, every answer of the two channels, every id drawn and every decision
    of the limiter: the layers draw one id and ask the limiter once at most, for the client that
    the proxies resolve; they attempt one well-formed response, whose headers tell the id and,
    if the limiter was asked, its decision, with all security headers outside the documentation;
    no `HTTPException` leaves them, and the context of the task is cleared behind them.  The
    deadline is entered with screened requests only. -/
theorem edge_responses_stamped (edge : Edge) (app : App CleanScope) (scope : Scope)
    (http : scope.type = .http) (answers : Answers) (s : Vars)
    (deadline : ∀ cleaned vars, edge.Screened finalSigma answers scope cleaned vars →
      (app cleaned).wp attempt .fresh vars Early) :
    (edge.call finalSigma app scope).wp
      (exchange answers (getClientIp (edge.forwarded scope))
        (FullyStamped answers (!isDocsPath finalSigma edge.docsEnabled scope)))
      (some .fresh) s (fun g s r => s = Vars.cleared ∧ Traced NoHttp g s r) := by
  have hhttp : (edge.forwarded scope).type = .http := (edge.forwarded_type scope).trans http
  let bound : Scope :=
    { edge.forwarded scope with ctx := some (contextFor answers (edge.forwarded scope)) }
  apply Program.wp_finallyDo.mpr
  apply Program.wp_mono (Q := Traced NoHttp) ?_ fun _ _ _ hr => ⟨rfl, hr⟩
  apply requestContextCall_stamped (edge.forwarded scope) hhttp
  intro vars hvars
  apply securityHeadersCall_stamped finalSigma edge.docsEnabled bound hhttp
  apply rateLimitCall_stamped finalSigma edge.rateLimit bound hhttp rfl true
  intro hpassed
  apply sanitizationCall_noHttp edge.sanitization bound hhttp
  intro cleaned hcleaned hconforms
  have hclean : cleaned.type = .http := by
    rw [hcleaned]
    exact hhttp
  apply Program.wp_mono (edge.limits.call_noHttp hclean ?_) fun _ _ _ hr => hr.early
  intro hkeeps
  apply deadline cleaned vars
  refine ⟨hpassed, hconforms, hcleaned, hkeeps, ?_⟩
  rw [hvars, hcleaned]

/-- No proxies and no headers besides, with the default bounds. -/
def Edge.default : Edge where
  proxies := { networks := [] }
  docsEnabled := true
  rateLimit := ⟨60000, 200, 10000, by decide, by decide, by decide⟩
  sanitization := ⟨[]⟩
  limits := {}

/-- A deadline that lets its application read once and answer. -/
theorem edge_responses_stamped_answering :
    CleanScope.listItems.type = .http ∧
      (Edge.default.call (fun _ _ => false) (fun _ => answering noContent)
        CleanScope.listItems.toScope).wp
        (exchange ⟨"7f3a9c01".toList, ⟨true, none, 0⟩⟩
          (getClientIp (Edge.default.forwarded CleanScope.listItems.toScope))
          (FullyStamped ⟨"7f3a9c01".toList, ⟨true, none, 0⟩⟩
            (!isDocsPath (fun _ _ => false) true CleanScope.listItems.toScope)))
        (some .fresh) Vars.cleared fun g s r => s = Vars.cleared ∧ Traced NoHttp g s r := by
  refine ⟨rfl, ?_⟩
  apply edge_responses_stamped
  · rfl
  · intro cleaned vars _
    apply Program.wp_mono (answering_routed noContent)
    exact fun _ _ _ hr => hr.early

end QuickApi.Stack
