/-
  QuickApi.Release.Soundness

  What a decision of the gate rests on.  The exceptions of a policy enter a
  decision only through the flag of the findings they equal, so that a policy
  with one exception more leaves every other finding as it is.
-/

import QuickApi.Release.GateSpec

namespace QuickApi.Release

open QuickApi.Lib Checked

-- ============================================================================
-- The rules mark findings, and do nothing else
-- ============================================================================

/-- The finding, flagged by these rules. -/
def Finding.mark (rules : List Scope) (f : Finding) : Finding :=
  { f with exception := f.scope ∈ rules }

section
variable (finalSigma : Text → Text → Bool) (scan : Scan) (rules : List Scope)

theorem findingOf_mark (entries : List (Text × Text)) (target kind : Text) (raw : Json) :
    findingOf finalSigma scan rules entries target kind raw =
      Finding.mark rules <$> findingOf finalSigma scan [] entries target kind raw := by
  simp only [findingOf, map_bind, apply_ite (Functor.map (Finding.mark rules)), map_pure]
  rfl

theorem mapM_findingOf_mark (entries : List (Text × Text)) (target kind : Text)
    (raws : List Json) :
    raws.mapM (findingOf finalSigma scan rules entries target kind) =
      List.map (Finding.mark rules) <$>
        raws.mapM (findingOf finalSigma scan [] entries target kind) := by
  induction raws with
  | nil => rfl
  | cons raw raws ih =>
      simp only [List.mapM_cons, findingOf_mark finalSigma scan rules, ih, bind_map_left, map_bind,
        map_pure, List.map_cons]

/-- The collected evidence, with the findings flagged by these rules. -/
def Collected.mark (rules : List Scope) (st : Collected) : Collected :=
  { st with findings := st.findings.map (Finding.mark rules) }

theorem collect_mark (st : Collected) (raw : Json) :
    collect finalSigma scan rules (st.mark rules) raw =
      Collected.mark rules <$> collect finalSigma scan [] st raw := by
  simp only [collect, mapM_findingOf_mark finalSigma scan rules, bind_map_left, map_bind, map_pure,
    Collected.mark, List.map_append]

theorem evaluateReport_mark (report : Json) (now : DateTime) :
    evaluateReport finalSigma scan rules report now =
      (fun d => decisionOn now (d.findings.map (Finding.mark rules))) <$>
        evaluateReport finalSigma scan [] report now := by
  have hloop (results : List Json) :
      results.foldlM (collect finalSigma scan rules) ⟨[], false, []⟩ =
        Collected.mark rules <$> results.foldlM (collect finalSigma scan []) ⟨[], false, []⟩ :=
    foldlM_hom (collect_mark finalSigma scan rules) results ⟨[], false, []⟩
  simp only [evaluateReport, evaluateResults, hloop, bind_map_left, map_bind]
  refine bind_congr fun report => bind_congr fun _ => bind_congr fun results =>
    bind_congr fun st => ?_
  rw [apply_ite (Functor.map _)]
  rfl

end

-- ============================================================================
-- Soundness
-- ============================================================================

/-- The evidence behind a decision. -/
structure Sound (finalSigma : Text → Text → Bool) (scan : Scan) (report policy : Json)
    (now : DateTime) (d : Decision) : Prop where
  /-- every vulnerability record of every result, in order -/
  findings : List.Forall₂ Describes (recordsIn (report.get "Results").items) d.findings
  exception : ∀ f ∈ d.findings, f.exception = true ↔ Excepted policy now f.scope
  allowed : d.allowed = true ↔ ∀ f ∈ d.findings, f.severity = "CRITICAL".toList →
    Excepted policy now f.scope ∨ f.developmentOnly = true
  developmentOnly : ∀ f ∈ d.findings, f.developmentOnly = true ↔
    scan.image? = none ∧
      (normalize finalSigma f.scope.packageName, f.scope.installedVersion) ∉ scan.production.entries
  expected : ∀ entry ∈ scan.expected.entries, ∃ result ∈ (report.get "Results").items,
    ListsPackage finalSigma scan result entry
  image : ∀ imageId, scan.image? = some imageId →
    (report.get "Metadata").get "ImageID" = .str imageId ∧
      ∃ result ∈ (report.get "Results").items, ListsOsPackage result
  /-- the rest of the decision follows from the findings -/
  decision : d = decisionOn now d.findings

variable {finalSigma : Text → Text → Bool} {scan : Scan} {rules : List Scope}
  {report policy : Json} {now : DateTime}

theorem checkImage_eq_ok {imageId : Text} (h : checkImage report imageId = .ok ()) :
    (report.get "Metadata").get "ImageID" = .str imageId := by
  obtain ⟨metadata, hmetadata, h⟩ := bind_eq_ok_iff.mp h
  obtain ⟨osInfo, -, h⟩ := bind_eq_ok_iff.mp h
  obtain ⟨hid, -⟩ := guard_eq_ok_iff.mp h
  rw [mapping_eq_ok hmetadata]
  exact Json.eq_str_right_iff.mp (by simpa using hid)

/-- The scopes of the exceptions are what they cover. -/
theorem mem_rules_iff (h : exceptions policy now = .ok rules) (scope : Scope) :
    scope ∈ rules ↔ Excepted policy now scope := by
  obtain ⟨entries, ⟨-, -, hentries⟩, hvalid, -, rfl⟩ := exceptions_eq_ok_iff.mp h
  have hlisted : entriesOf policy = entries := by rw [entriesOf, hentries, Json.items]
  rw [List.mem_map, Excepted, hlisted]
  refine exists_congr fun entry => and_congr_right fun hentry => ?_
  obtain ⟨deadline, hcheck, -, hlt, -⟩ := hvalid entry hentry
  rw [covers_iff hcheck]
  have hunexpired : Unexpired entry now := ⟨deadline, (checkEntry_eq_ok hcheck).2.2, hlt⟩
  exact (and_iff_right hunexpired).symm

theorem decisionOn_allowed_iff (findings : List Finding) :
    (decisionOn now findings).allowed = true ↔
      ∀ f ∈ findings, f.severity = "CRITICAL".toList →
        f.exception = true ∨ f.developmentOnly = true := by
  have hblocks : ∀ f : Finding, ¬ f.blocks = true ↔
      (f.severity = "CRITICAL".toList → f.exception = true ∨ f.developmentOnly = true) := by
    intro f
    rw [Finding.blocks]
    generalize "CRITICAL".toList = critical
    cases f.exception <;> cases f.developmentOnly <;> simp
  rw [decisionOn, List.isEmpty_iff, List.filter_eq_nil_iff]
  exact forall₂_congr fun f _ => hblocks f

theorem evaluate_sound {d : Decision} (h : evaluate finalSigma scan report policy now = .ok d) :
    Sound finalSigma scan report policy now d := by
  obtain ⟨rules, hrules, h⟩ := bind_eq_ok_iff.mp h
  rw [liftError_eq_ok_iff] at h
  obtain ⟨report', hreport, h⟩ := bind_eq_ok_iff.mp h
  obtain rfl := mapping_eq_ok hreport
  obtain ⟨_, hcheck, h⟩ := bind_eq_ok_iff.mp h
  obtain ⟨results, hresults, h⟩ := bind_eq_ok_iff.mp h
  obtain ⟨st, hst, h⟩ := bind_eq_ok_iff.mp h
  obtain ⟨hcover, h⟩ := guard_eq_ok_iff.mp h
  obtain rfl := Except.ok.inj h
  rw [not_or, not_not, List.all_eq_true] at hcover
  obtain ⟨hexpected, hos⟩ := hcover
  have hresults : (report.get "Results").items = results := by
    rw [sequence_eq_ok hresults, Json.items]
  obtain ⟨⟨new, hfindings, hdescribes, hflags⟩, hinventory, hospackages⟩ :=
    foldlM_collect_eq_ok hst
  have hfindings : st.findings = new := hfindings
  have hexception : ∀ f ∈ st.findings, f.exception = true ↔ Excepted policy now f.scope :=
    fun f hf => (hflags f (hfindings ▸ hf)).exception.trans (mem_rules_iff hrules f.scope)
  constructor
  · rw [hresults]
    exact hfindings ▸ hdescribes
  · exact hexception
  · rw [decisionOn_allowed_iff]
    exact forall₂_congr fun f hf => by rw [hexception f hf]
  · exact fun f hf => (hflags f (hfindings ▸ hf)).developmentOnly
  · intro entry hentry
    have hmem : entry ∈ st.inventory := by simpa using hexpected entry hentry
    rw [hresults]
    exact (hinventory entry hmem).resolve_left (List.not_mem_nil)
  · intro imageId himage
    obtain ⟨-, hcheck⟩ := guard_eq_ok_iff.mp hcheck
    rw [himage] at hcheck
    refine ⟨checkImage_eq_ok hcheck, ?_⟩
    rw [hresults]
    have hospackages := hospackages (by simpa [himage] using hos)
    exact hospackages.resolve_left (by simp)
  · rfl

-- ============================================================================
-- One exception more
-- ============================================================================

/-- A policy with one exception more than another. -/
structure AddsException (entry policy policy' : Json) : Prop where
  isDict : mapping policy = .ok policy
  version : policy'.get "version" = policy.get "version"
  entries : ∃ before behind, policy.get "exceptions" = .list (before ++ behind) ∧
    policy'.get "exceptions" = .list (before ++ entry :: behind)

/-- At most the exception flag is set, and only where the exception equals the finding. -/
def ExceptedBy (entry : Json) (f f' : Finding) : Prop :=
  (Covers entry f.scope ∧ f' = { f with exception := true }) ∨ (¬ Covers entry f.scope ∧ f' = f)

/-- Two outcomes that differ at most in findings equal to the exception. -/
def DifferAtMostAt (entry : Json) :
    Except PolicyError Decision → Except PolicyError Decision → Prop
  | .ok d, .ok d' => List.Forall₂ (ExceptedBy entry) d.findings d'.findings
  | .error e, .error e' => e' = e
  | _, _ => False

theorem Finding.excepted_by_mark {entry : Json} {rules rules' : List Scope} (f : Finding)
    (hcovers : ∀ scope, Covers entry scope ↔ scopeOf entry = scope)
    (hrules : ∀ scope, scope ∈ rules' ↔ scope = scopeOf entry ∨ scope ∈ rules) :
    ExceptedBy entry (f.mark rules) (f.mark rules') := by
  by_cases h : Covers entry f.scope
  · refine .inl ⟨h, ?_⟩
    have hmem : f.scope ∈ rules' := (hrules f.scope).mpr (.inl ((hcovers f.scope).mp h).symm)
    simp [Finding.mark, hmem]
  · refine .inr ⟨h, ?_⟩
    have hne : f.scope ≠ scopeOf entry := fun heq => h ((hcovers f.scope).mpr heq.symm)
    have hmem : f.scope ∈ rules' ↔ f.scope ∈ rules := (hrules f.scope).trans (or_iff_right hne)
    simp [Finding.mark, hmem]

/-- The rules of a policy with one exception more. -/
theorem AddsException.rules_iff {entry policy' : Json} {rules' : List Scope}
    (h : AddsException entry policy policy') (hrules' : exceptions policy' now = .ok rules') :
    (∀ scope, Covers entry scope ↔ scopeOf entry = scope) ∧
      ∃ rules, exceptions policy now = .ok rules ∧
        ∀ scope, scope ∈ rules' ↔ scope = scopeOf entry ∨ scope ∈ rules := by
  obtain ⟨before, behind, hentries, hentries'⟩ := h.entries
  obtain ⟨listed, ⟨-, hversion, hlisted⟩, hvalid, hnodup, rfl⟩ := exceptions_eq_ok_iff.mp hrules'
  obtain rfl := Json.list.inj (hentries'.symm.trans hlisted)
  have hsub : (before ++ behind).Sublist (before ++ entry :: behind) :=
    (List.sublist_cons_self entry behind).append_left before
  constructor
  · obtain ⟨deadline, hcheck, -⟩ := hvalid entry (by simp)
    exact covers_iff hcheck
  · refine ⟨(before ++ behind).map scopeOf, exceptions_eq_ok_iff.mpr ⟨_, ⟨h.isDict, ?_, hentries⟩,
      fun e he => hvalid e (hsub.subset he), hnodup.sublist (hsub.map scopeOf), rfl⟩, ?_⟩
    · rw [← h.version, hversion]
    · intro scope
      simp only [List.map_append, List.map_cons, List.mem_append, List.mem_cons]
      exact or_left_comm

theorem evaluate_addsException {entry policy' : Json} {rules' : List Scope}
    (h : AddsException entry policy policy') (hrules' : exceptions policy' now = .ok rules') :
    DifferAtMostAt entry (evaluate finalSigma scan report policy now)
      (evaluate finalSigma scan report policy' now) := by
  obtain ⟨hcovers, rules, hrules, hmem⟩ := h.rules_iff hrules'
  have hrun {policy : Json} {rules : List Scope} (hrules : exceptions policy now = .ok rules) :
      evaluate finalSigma scan report policy now =
        liftError (evaluateReport finalSigma scan rules report now) := by
    rw [evaluate, hrules]
    rfl
  rw [hrun hrules, hrun hrules', evaluateReport_mark finalSigma scan rules,
    evaluateReport_mark finalSigma scan rules']
  cases evaluateReport finalSigma scan [] report now with
  | error e => exact rfl
  | ok d =>
      have hmarks : ∀ findings : List Finding, List.Forall₂ (ExceptedBy entry)
          (findings.map (Finding.mark rules)) (findings.map (Finding.mark rules')) := by
        intro findings
        rw [List.forall₂_map_left_iff, List.forall₂_map_right_iff]
        exact List.forall₂_same.mpr fun f _ => f.excepted_by_mark hcovers hmem
      exact hmarks d.findings

theorem evaluate_error {e : PolicyError}
    (h : evaluate finalSigma scan report policy now = .error e) : RaisedBy policy now e := by
  rcases bind_eq_error_iff.mp h with hpolicy | ⟨rules, -, hreport⟩
  · exact exceptions_error hpolicy
  · exact .inl (liftError_eq_error hreport)

variable (finalSigma scan report policy now)

/-- A decision rests on the evidence, an exception more concerns only the findings it equals, and
    whatever is not decided raises. -/
theorem security_gate_is_sound :
    (∀ d, evaluate finalSigma scan report policy now = .ok d →
      Sound finalSigma scan report policy now d) ∧
    (∀ entry policy' rules', AddsException entry policy policy' →
      exceptions policy' now = .ok rules' →
      DifferAtMostAt entry (evaluate finalSigma scan report policy now)
        (evaluate finalSigma scan report policy' now)) ∧
    (∀ e, evaluate finalSigma scan report policy now = .error e → RaisedBy policy now e) :=
  ⟨fun _ => evaluate_sound, fun _ _ _ => evaluate_addsException, fun _ => evaluate_error⟩

-- ============================================================================
-- A reviewed exception
-- ============================================================================

/-- An exception for a package of the requirements. -/
def reviewedException (expiresOn : String) : Json :=
  .dict
    [("vulnerabilityId".toList, .str "CVE-TEST-1".toList),
      ("packageName".toList, .str "fastapi".toList),
      ("installedVersion".toList, .str "1.0".toList), ("packagePath".toList, .null),
      ("target".toList, .str "/input/requirements.txt".toList),
      ("type".toList, .str "pip".toList), ("owner".toList, .str "maintainer".toList),
      ("reason".toList, .str "Temporary reviewed mitigation".toList),
      ("review".toList, .str "issue/1".toList),
      ("expiresOn".toList, .str expiresOn.toList)]

def policyOf (exceptions : List Json) : Json :=
  .dict [("version".toList, .int 1), ("exceptions".toList, .list exceptions)]

/-- A report with one critical vulnerability. -/
def criticalReport : Json :=
  .dict
    [("SchemaVersion".toList, .int 2), ("ArtifactType".toList, .str "filesystem".toList),
      ("Results".toList, .list [.dict
        [("Target".toList, .str "/input/requirements.txt".toList),
          ("Class".toList, .str "lang-pkgs".toList), ("Type".toList, .str "pip".toList),
          ("Packages".toList, .list [.dict
            [("Name".toList, .str "fastapi".toList), ("Version".toList, .str "1.0".toList)]]),
          ("Vulnerabilities".toList, .list [.dict
            [("VulnerabilityID".toList, .str "CVE-TEST-1".toList),
              ("PkgName".toList, .str "fastapi".toList),
              ("InstalledVersion".toList, .str "1.0".toList),
              ("Severity".toList, .str "CRITICAL".toList)]])]])]

def requirementsScan : Scan where
  expected := ⟨[("fastapi".toList, "1.0".toList)], by decide⟩
  production := ⟨[("fastapi".toList, "1.0".toList)], by decide⟩
  imageId := none

/-- Midnight of a date. -/
def midnight (date : Date) : DateTime := ⟨date, 0, 0, 0, 0⟩

def october : DateTime := midnight ⟨2026, 10, 30, by decide, by decide, by decide⟩

/-- The last fortnight that dates have. -/
def lastFortnight : DateTime := midnight ⟨9999, 12, 15, by decide, by decide, by decide⟩

private def noFinalSigma : Text → Text → Bool := fun _ _ => false

theorem security_gate_is_sound_reviewed :
    (∃ d, evaluate noFinalSigma requirementsScan criticalReport (policyOf []) october = .ok d ∧
      d.allowed = false ∧
      Sound noFinalSigma requirementsScan criticalReport (policyOf []) october d) ∧
    DifferAtMostAt (reviewedException "2026-11-10")
      (evaluate noFinalSigma requirementsScan criticalReport (policyOf []) october)
      (evaluate noFinalSigma requirementsScan criticalReport
        (policyOf [reviewedException "2026-11-10"]) october) ∧
    ∃ e, evaluate noFinalSigma requirementsScan .null (policyOf []) october = .error e ∧
      RaisedBy (policyOf []) october e := by
  have h := security_gate_is_sound noFinalSigma requirementsScan criticalReport (policyOf []) october
  have hnull := security_gate_is_sound noFinalSigma requirementsScan .null (policyOf []) october
  have hadds : AddsException (reviewedException "2026-11-10") (policyOf [])
      (policyOf [reviewedException "2026-11-10"]) := ⟨rfl, rfl, [], [], rfl, rfl⟩
  have hallowed : (evaluate noFinalSigma requirementsScan criticalReport (policyOf [])
      october).map Decision.allowed = .ok false := by rfl
  have hrules : exceptions (policyOf [reviewedException "2026-11-10"]) october =
      .ok [scopeOf (reviewedException "2026-11-10")] := by rfl
  have herror : evaluate noFinalSigma requirementsScan .null (policyOf []) october =
      .error (.valueError ⟨"Expected an object.".toList⟩) := by rfl
  obtain ⟨d, hd, hfalse⟩ := map_eq_ok_iff.mp hallowed
  exact ⟨⟨d, hd, hfalse, h.1 d hd⟩, h.2.1 _ _ _ hadds hrules, _, herror, hnull.2.2 _ herror⟩

/-- Not every report without evidence raises a `ValueError`: behind the last fortnight there is no
    date for the bound on the deadlines. -/
theorem security_gate_raises_otherwise :
    ¬ ∀ (finalSigma : Text → Text → Bool) (scan : Scan) (report policy : Json) (now : DateTime),
      (∃ d, evaluate finalSigma scan report policy now = .ok d ∧
        Sound finalSigma scan report policy now d) ∨
      ∃ v, evaluate finalSigma scan report policy now = .error (.valueError v) := by
  intro h
  have hoverflow : evaluate noFinalSigma requirementsScan .null
      (policyOf [reviewedException "9999-12-31"]) lastFortnight = .error .overflowError := by rfl
  rcases h noFinalSigma requirementsScan .null (policyOf [reviewedException "9999-12-31"])
    lastFortnight with ⟨d, hd, -⟩ | ⟨v, hv⟩
  · rw [hoverflow] at hd
    cases hd
  · rw [hoverflow] at hv
    cases hv

end QuickApi.Release
