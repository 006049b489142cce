/-
  QuickApi.Release.GateSpec

  What the functions of the gate have found out when they return: the fields of
  an exception, of a finding and of a result, and which exceptions a policy has.
-/

import QuickApi.Lib.Readable
import QuickApi.Release.Gate

namespace QuickApi.Release

open QuickApi.Lib Checked

-- ============================================================================
-- Exceptions
-- ============================================================================

/-- The exceptions that a policy lists. -/
def entriesOf (policy : Json) : List Json := (policy.get "exceptions").items

/-- The value of an optional text. -/
def optional : Option Text → Json
  | none => .null
  | some s => .str s

/-- An exception equals a scope in all six fields. -/
structure Covers (entry : Json) (scope : Scope) : Prop where
  vulnerabilityId : entry.get "vulnerabilityId" = .str scope.vulnerabilityId
  packageName : entry.get "packageName" = .str scope.packageName
  installedVersion : entry.get "installedVersion" = .str scope.installedVersion
  packagePath : entry.get "packagePath" = optional scope.packagePath
  target : entry.get "target" = .str scope.target
  type : entry.get "type" = .str scope.type

/-- The date on which an exception expires. -/
def Expires (entry : Json) (deadline : Date) : Prop :=
  ∃ expiry fields, entry.get "expiresOn" = .str expiry ∧ matchDate expiry = some fields ∧
    parseDate fields = .ok deadline

/-- The exception has not expired. -/
def Unexpired (entry : Json) (now : DateTime) : Prop :=
  ∃ deadline, Expires entry deadline ∧ now.instant < deadline.instant

/-- An unexpired exception of the policy equals the scope in all six fields. -/
def Excepted (policy : Json) (now : DateTime) (scope : Scope) : Prop :=
  ∃ entry ∈ entriesOf policy, Unexpired entry now ∧ Covers entry scope

/-- An exception that passes its checks, apart from the one for duplicates. -/
def ValidEntry (now : DateTime) (entry : Json) : Prop :=
  ∃ deadline, checkEntry entry = .ok (entry, deadline) ∧ now.date.toOrdinal + 30 ≤ maxOrdinal ∧
    now.instant < deadline.instant ∧ deadline.instant ≤ now.instant + 30 * microsecondsPerDay

theorem checkField_eq_ok {entry : Json} {field : String} (h : checkField entry field = .ok ()) :
    (field = "packagePath" ∧ (entry.get field).isNull) ∨
      ∃ s, entry.get field = .str s := by
  unfold checkField at h
  split at h
  · next hnull => exact .inl hnull
  · obtain ⟨s, hs, -⟩ := bind_eq_ok_iff.mp h
    exact .inr ⟨s, text_eq_ok hs⟩

theorem deadlineOf_eq_ok {entry : Json} {deadline : Date} (h : deadlineOf entry = .ok deadline) :
    Expires entry deadline := by
  obtain ⟨expiry, hexpiry, h⟩ := bind_eq_ok_iff.mp h
  split at h
  · cases h
  · next fields hfields =>
    split at h
    · cases h
    · next date hdate =>
      obtain rfl := Except.ok.inj h
      exact ⟨expiry, fields, text_eq_ok hexpiry, hfields, hdate⟩

/-- A checked entry is the raw one; its fields are texts, and it has a deadline. -/
theorem checkEntry_eq_ok {raw entry : Json} {deadline : Date}
    (h : checkEntry raw = .ok (entry, deadline)) :
    raw = entry ∧ (∀ field ∈ textFields, checkField entry field = .ok ()) ∧
      Expires entry deadline := by
  obtain ⟨entry', hmapping, h⟩ := bind_eq_ok_iff.mp h
  split at h
  · obtain ⟨_, hfields, h⟩ := bind_eq_ok_iff.mp h
    obtain ⟨deadline', hdeadline, h⟩ := bind_eq_ok_iff.mp h
    obtain ⟨rfl, rfl⟩ := Prod.mk.inj (Except.ok.inj h)
    exact ⟨mapping_eq_ok hmapping, forM_eq_ok hfields, deadlineOf_eq_ok hdeadline⟩
  · cases h

/-- The scope of a checked exception is the only one that it covers. -/
theorem covers_iff {raw entry : Json} {deadline : Date}
    (h : checkEntry raw = .ok (entry, deadline)) (scope : Scope) :
    Covers entry scope ↔ scopeOf entry = scope := by
  obtain ⟨-, hfields, -⟩ := checkEntry_eq_ok h
  have htext : ∀ field ∈ textFields, field ≠ "packagePath" →
      ∃ s, entry.get field = .str s := fun field hmem hne =>
    (checkField_eq_ok (hfields field hmem)).resolve_left fun hnull => hne hnull.1
  obtain ⟨a, ha⟩ := htext "vulnerabilityId" (by decide) (by decide)
  obtain ⟨b, hb⟩ := htext "packageName" (by decide) (by decide)
  obtain ⟨c, hc⟩ := htext "installedVersion" (by decide) (by decide)
  obtain ⟨d, hd⟩ := htext "target" (by decide) (by decide)
  obtain ⟨e, he⟩ := htext "type" (by decide) (by decide)
  have hpath : ∃ path, entry.get "packagePath" = optional path ∧
      acceptedText? (entry.get "packagePath") = path := by
    rcases checkField_eq_ok (hfields "packagePath" (by decide)) with ⟨-, hnull⟩ | ⟨s, hs⟩
    · refine ⟨none, ?_⟩
      generalize entry.get "packagePath" = value at hnull
      cases value <;> simp_all [Json.isNull, optional, acceptedText?]
    · exact ⟨some s, by simp [hs, optional], by simp [hs, acceptedText?]⟩
  obtain ⟨path, hpath, haccepted⟩ := hpath
  have hscope : scopeOf entry = ⟨a, b, c, path, d, e⟩ := by
    simp only [scopeOf, acceptedText, ha, hb, hc, hd, he, haccepted]
    rfl
  rw [hscope]
  constructor
  · intro hcov
    obtain ⟨h1, h2, h3, h4, h5, h6⟩ := hcov
    rw [ha] at h1
    rw [hb] at h2
    rw [hc] at h3
    rw [hpath] at h4
    rw [hd] at h5
    rw [he] at h6
    have h4 : path = scope.packagePath := by
      cases path <;> cases hp : scope.packagePath <;> simp_all [optional]
    cases scope
    simp_all
  · rintro rfl
    exact ⟨ha, hb, hc, hpath, hd, he⟩

theorem liftError_eq_ok_iff {α : Type} {x : Except ValueError α} {a : α} :
    liftError x = .ok a ↔ x = .ok a := by
  cases x <;> simp [liftError]

/-- A rule is added where the exception is valid and its scope is new. -/
theorem addRule_eq_ok_iff {now : DateTime} {rules rules' : List Scope} {raw : Json} :
    addRule now rules raw = .ok rules' ↔
      ValidEntry now raw ∧ scopeOf raw ∉ rules ∧ rules' = rules ++ [scopeOf raw] := by
  constructor
  · intro h
    obtain ⟨⟨entry, deadline⟩, hentry, h⟩ := bind_eq_ok_iff.mp h
    rw [liftError_eq_ok_iff] at hentry
    obtain ⟨rfl, -⟩ := checkEntry_eq_ok hentry
    obtain ⟨hoverflow, h⟩ := guard_eq_ok_iff.mp h
    obtain ⟨hdeadline, h⟩ := guard_eq_ok_iff.mp h
    obtain ⟨hnew, h⟩ := guard_eq_ok_iff.mp h
    have hdeadline := not_not.mp hdeadline
    refine ⟨⟨deadline, hentry, ?_, hdeadline⟩, hnew, (Except.ok.inj h).symm⟩
    exact not_lt.mp fun hlt => hoverflow ⟨hdeadline.1, hlt⟩
  · rintro ⟨⟨deadline, hentry, hmax, hdeadline⟩, hnew, rfl⟩
    refine bind_eq_ok_iff.mpr ⟨(raw, deadline), liftError_eq_ok_iff.mpr hentry, ?_⟩
    refine guard_eq_ok_iff.mpr ⟨fun hlt => not_lt.mpr hmax hlt.2, ?_⟩
    exact guard_eq_ok_iff.mpr ⟨not_not.mpr hdeadline, guard_eq_ok_iff.mpr ⟨hnew, rfl⟩⟩

/-- The loop over the exceptions, from any rules. -/
theorem foldlM_addRule_eq_ok_iff {now : DateTime} {entries : List Json} {rules rules' : List Scope}
    (hrules : rules.Nodup) :
    entries.foldlM (addRule now) rules = .ok rules' ↔
      (∀ entry ∈ entries, ValidEntry now entry) ∧ (rules ++ entries.map scopeOf).Nodup ∧
        rules' = rules ++ entries.map scopeOf := by
  induction entries generalizing rules with
  | nil => simp [hrules, pure, Except.pure, eq_comm]
  | cons entry entries ih =>
      rw [List.foldlM_cons, bind_eq_ok_iff, List.forall_mem_cons, List.map_cons,
        List.append_cons rules (scopeOf entry)]
      constructor
      · rintro ⟨mid, hmid, h⟩
        obtain ⟨hvalid, hnew, rfl⟩ := addRule_eq_ok_iff.mp hmid
        have hmid : (rules ++ [scopeOf entry]).Nodup :=
          List.nodup_append_comm.mp (List.nodup_cons.mpr ⟨hnew, hrules⟩)
        obtain ⟨hall, hnodup, rfl⟩ := (ih hmid).mp h
        exact ⟨⟨hvalid, hall⟩, hnodup, rfl⟩
      · rintro ⟨⟨hvalid, hall⟩, hnodup, rfl⟩
        have hmid : (rules ++ [scopeOf entry]).Nodup := (List.nodup_append.mp hnodup).1
        have hnew : scopeOf entry ∉ rules :=
          (List.nodup_cons.mp (List.nodup_append_comm.mp hmid)).1
        exact ⟨_, addRule_eq_ok_iff.mpr ⟨hvalid, hnew, rfl⟩, (ih hmid).mpr ⟨hall, hnodup, rfl⟩⟩

/-- The head of a policy. -/
def PolicyHead (policy : Json) (entries : List Json) : Prop :=
  mapping policy = .ok policy ∧ (policy.get "version").eq (.int 1) = true ∧
    policy.get "exceptions" = .list entries

/-- The exceptions of a policy are accepted if all of them are valid and no scope is repeated; the
    rules are their scopes. -/
theorem exceptions_eq_ok_iff {policy : Json} {now : DateTime} {rules : List Scope} :
    exceptions policy now = .ok rules ↔
      ∃ entries, PolicyHead policy entries ∧ (∀ entry ∈ entries, ValidEntry now entry) ∧
        (entries.map scopeOf).Nodup ∧ rules = entries.map scopeOf := by
  constructor
  · intro h
    obtain ⟨entries, hentries, h⟩ := bind_eq_ok_iff.mp h
    rw [liftError_eq_ok_iff] at hentries
    obtain ⟨policy', hpolicy, hentries⟩ := bind_eq_ok_iff.mp hentries
    obtain rfl := mapping_eq_ok hpolicy
    obtain ⟨hversion, hentries⟩ := guard_eq_ok_iff.mp hentries
    have hhead : PolicyHead policy entries :=
      ⟨hpolicy, by simpa using hversion, sequence_eq_ok hentries⟩
    exact ⟨entries, hhead, by simpa using (foldlM_addRule_eq_ok_iff List.nodup_nil).mp h⟩
  · rintro ⟨entries, ⟨hpolicy, hversion, hentries⟩, h⟩
    refine bind_eq_ok_iff.mpr ⟨entries, liftError_eq_ok_iff.mpr ?_,
      (foldlM_addRule_eq_ok_iff List.nodup_nil).mpr (by simpa using h)⟩
    refine bind_eq_ok_iff.mpr ⟨policy, hpolicy, guard_eq_ok_iff.mpr ⟨by simp [hversion], ?_⟩⟩
    rw [hentries, sequence]

/-- What `exceptions` raises: a `ValueError`, or an `OverflowError` where the bound on the deadlines
    is no date and an exception has not expired. -/
def RaisedBy (policy : Json) (now : DateTime) (e : PolicyError) : Prop :=
  (∃ v, e = .valueError v) ∨
    (e = .overflowError ∧ maxOrdinal < now.date.toOrdinal + 30 ∧
      ∃ entry ∈ entriesOf policy, Unexpired entry now)

theorem liftError_eq_error {α : Type} {x : Except ValueError α} {e : PolicyError}
    (h : liftError x = .error e) : ∃ v, e = .valueError v := by
  cases x with
  | error v => exact ⟨v, (Except.error.inj h).symm⟩
  | ok a => cases h

theorem addRule_error {now : DateTime} {rules : List Scope} {raw : Json} {e : PolicyError}
    (h : addRule now rules raw = .error e) :
    (∃ v, e = .valueError v) ∨
      (e = .overflowError ∧ maxOrdinal < now.date.toOrdinal + 30 ∧ Unexpired raw now) := by
  rcases bind_eq_error_iff.mp h with hcheck | ⟨⟨entry, deadline⟩, hentry, h⟩
  · exact .inl (liftError_eq_error hcheck)
  · obtain ⟨rfl, -, hexpires⟩ := checkEntry_eq_ok (liftError_eq_ok_iff.mp hentry)
    dsimp only at h
    split at h
    · next hoverflow =>
      exact .inr ⟨(Except.error.inj h).symm, hoverflow.2, deadline, hexpires, hoverflow.1⟩
    · split at h
      · exact .inl (liftError_eq_error h)
      · split at h
        · exact .inl (liftError_eq_error h)
        · cases h

theorem exceptions_error {policy : Json} {now : DateTime} {e : PolicyError}
    (h : exceptions policy now = .error e) : RaisedBy policy now e := by
  rcases bind_eq_error_iff.mp h with hhead | ⟨entries, hentries, h⟩
  · exact .inl (liftError_eq_error hhead)
  · rw [liftError_eq_ok_iff] at hentries
    obtain ⟨policy', hpolicy, hentries⟩ := bind_eq_ok_iff.mp hentries
    obtain rfl := mapping_eq_ok hpolicy
    obtain ⟨-, hentries⟩ := guard_eq_ok_iff.mp hentries
    have hlisted : entriesOf policy = entries := by rw [entriesOf, sequence_eq_ok hentries, Json.items]
    refine foldlM_error (fun rules entry hentry e he => ?_) h
    rcases addRule_error he with hvalue | ⟨hoverflow, hmax, hunexpired⟩
    · exact .inl hvalue
    · exact .inr ⟨hoverflow, hmax, entry, hlisted ▸ hentry, hunexpired⟩

-- ============================================================================
-- Findings
-- ============================================================================

/-- The packages that a result lists. -/
def packagesOf (result : Json) : List Json := (result.get "Packages").items

/-- The vulnerabilities that a result lists. -/
def vulnerabilitiesOf (result : Json) : List Json :=
  (result.getD "Vulnerabilities" (.list [])).items

/-- The vulnerability records of some results, each with its result. -/
def recordsIn (results : List Json) : List (Json × Json) :=
  results.flatMap fun result => (vulnerabilitiesOf result).map (Prod.mk result)

/-- What a finding repeats of a vulnerability record. -/
structure Describes (record : Json × Json) (f : Finding) : Prop where
  vulnerabilityId : record.2.get "VulnerabilityID" = .str f.scope.vulnerabilityId
  packageName : record.2.get "PkgName" = .str f.scope.packageName
  installedVersion : record.2.get "InstalledVersion" = .str f.scope.installedVersion
  packagePath : record.2.get "PkgPath" = optional f.scope.packagePath
  target : record.1.get "Target" = .str f.scope.target
  type : record.1.get "Type" = .str f.scope.type
  severity : record.2.get "Severity" = .str f.severity
  fixedVersion : record.2.get "FixedVersion" = f.fixedVersion

theorem packagePathOf_eq_ok {vulnerability : Json} {path : Option Text}
    (h : packagePathOf vulnerability = .ok path) :
    vulnerability.get "PkgPath" = optional path := by
  simp only [packagePathOf] at h
  split at h
  · next hnull =>
    obtain rfl := Except.ok.inj h
    generalize vulnerability.get "PkgPath" = value at hnull ⊢
    cases value <;> first | rfl | cases hnull
  · obtain ⟨s, hs, rfl⟩ := map_eq_ok_iff.mp h
    exact text_eq_ok hs

section
variable {finalSigma : Text → Text → Bool} {scan : Scan} {rules : List Scope}

/-- The flags of a finding. -/
structure Flagged (finalSigma : Text → Text → Bool) (scan : Scan) (rules : List Scope)
    (f : Finding) : Prop where
  developmentOnly : f.developmentOnly = true ↔
    scan.image? = none ∧
      (normalize finalSigma f.scope.packageName, f.scope.installedVersion) ∉ scan.production.entries
  exception : f.exception = true ↔ f.scope ∈ rules

theorem findingOf_eq_ok {entries : List (Text × Text)} {result raw : Json} {target kind : Text}
    {f : Finding} (htarget : result.get "Target" = .str target)
    (hkind : result.get "Type" = .str kind)
    (h : findingOf finalSigma scan rules entries target kind raw = .ok f) :
    Describes (result, raw) f ∧ Flagged finalSigma scan rules f := by
  obtain ⟨vulnerability, hvulnerability, h⟩ := bind_eq_ok_iff.mp h
  obtain rfl := mapping_eq_ok hvulnerability
  obtain ⟨name, hname, h⟩ := bind_eq_ok_iff.mp h
  obtain ⟨version, hversion, h⟩ := bind_eq_ok_iff.mp h
  obtain ⟨severity, hseverity, h⟩ := bind_eq_ok_iff.mp h
  obtain ⟨-, h⟩ := guard_eq_ok_iff.mp h
  obtain ⟨-, h⟩ := guard_eq_ok_iff.mp h
  obtain ⟨path, hpath, h⟩ := bind_eq_ok_iff.mp h
  obtain ⟨vulnerabilityId, hid, h⟩ := bind_eq_ok_iff.mp h
  obtain ⟨-, h⟩ := guard_eq_ok_iff.mp h
  obtain rfl := Except.ok.inj h
  constructor
  · exact
      { vulnerabilityId := text_eq_ok hid
        packageName := text_eq_ok hname
        installedVersion := text_eq_ok hversion
        packagePath := packagePathOf_eq_ok hpath
        target := htarget
        type := hkind
        severity := text_eq_ok hseverity
        fixedVersion := rfl }
  · exact ⟨by simp, by simp⟩

-- ============================================================================
-- Results
-- ============================================================================

/-- A result for Python packages lists this package, by its normalized name. -/
def ListsPackage (finalSigma : Text → Text → Bool) (scan : Scan) (result : Json)
    (entry : Text × Text) : Prop :=
  result.get "Class" = .str "lang-pkgs".toList ∧ result.get "Type" = .str scan.pythonKind ∧
    ∃ package ∈ packagesOf result, ∃ name, package.get "Name" = .str name ∧
      normalize finalSigma name = entry.1 ∧ package.get "Version" = .str entry.2

/-- A result for OS packages lists some package. -/
def ListsOsPackage (result : Json) : Prop :=
  result.get "Class" = .str "os-pkgs".toList ∧ packagesOf result ≠ []

theorem packageEntry_eq_ok {kind : Text} {raw : Json} {entry : Text × Text}
    (hkind : kind ≠ "debian".toList) (h : packageEntry kind raw = .ok entry) :
    raw.get "Name" = .str entry.1 ∧ raw.get "Version" = .str entry.2 := by
  obtain ⟨package, hpackage, h⟩ := bind_eq_ok_iff.mp h
  obtain rfl := mapping_eq_ok hpackage
  obtain ⟨name, hname, h⟩ := bind_eq_ok_iff.mp h
  obtain ⟨version, hversion, h⟩ := bind_eq_ok_iff.mp h
  obtain ⟨version', hversion', hv⟩ := bind_eq_ok_iff.mp hversion
  rw [if_neg hkind] at hv
  obtain rfl := Except.ok.inj hv
  obtain rfl := Except.ok.inj h
  exact ⟨text_eq_ok hname, text_eq_ok hversion'⟩

theorem pythonKind_ne_debian (scan : Scan) : scan.pythonKind ≠ "debian".toList := by
  unfold Scan.pythonKind
  split <;> decide

/-- What one result adds to the collected evidence. -/
structure Collects (finalSigma : Text → Text → Bool) (scan : Scan) (rules : List Scope)
    (results : List Json) (st st' : Collected) : Prop where
  findings : ∃ new, st'.findings = st.findings ++ new ∧
    List.Forall₂ Describes (recordsIn results) new ∧ ∀ f ∈ new, Flagged finalSigma scan rules f
  inventory : ∀ entry ∈ st'.inventory,
    entry ∈ st.inventory ∨ ∃ result ∈ results, ListsPackage finalSigma scan result entry
  osPackages : st'.osPackages = true →
    st.osPackages = true ∨ ∃ result ∈ results, ListsOsPackage result

theorem collect_eq_ok {st st' : Collected} {raw : Json}
    (h : collect finalSigma scan rules st raw = .ok st') :
    Collects finalSigma scan rules [raw] st st' := by
  obtain ⟨result, hresult, h⟩ := bind_eq_ok_iff.mp h
  obtain rfl := mapping_eq_ok hresult
  obtain ⟨target, htarget, h⟩ := bind_eq_ok_iff.mp h
  obtain ⟨kind, hkind, h⟩ := bind_eq_ok_iff.mp h
  obtain ⟨packages, hpackages, h⟩ := bind_eq_ok_iff.mp h
  obtain ⟨entries, hentries, h⟩ := bind_eq_ok_iff.mp h
  obtain ⟨vulnerabilities, hvulnerabilities, h⟩ := bind_eq_ok_iff.mp h
  obtain ⟨findings, hfindings, h⟩ := bind_eq_ok_iff.mp h
  obtain rfl := Except.ok.inj h
  have hpackages : packagesOf raw = packages := by rw [packagesOf, sequence_eq_ok hpackages, Json.items]
  have hvulnerabilities : vulnerabilitiesOf raw = vulnerabilities := by
    rw [vulnerabilitiesOf, sequence_eq_ok hvulnerabilities, Json.items]
  have hentries := mapM_eq_ok_iff.mp hentries
  have hfindings := (mapM_eq_ok_iff.mp hfindings).imp fun _ _ hf =>
    findingOf_eq_ok (text_eq_ok htarget) (text_eq_ok hkind) hf
  constructor
  · refine ⟨findings, rfl, ?_, ?_⟩
    · rw [recordsIn, List.flatMap_singleton, hvulnerabilities, List.forall₂_map_left_iff]
      exact hfindings.imp fun _ _ hf => hf.1
    · intro f hf
      obtain ⟨_, -, hspec⟩ := exists_of_forall₂_right hfindings hf
      exact hspec.2
  · intro entry hentry
    dsimp only at hentry
    split at hentry
    · next hclass =>
      refine (List.mem_append.mp hentry).imp_right fun hentry => ?_
      obtain ⟨pair, hpair, rfl⟩ := List.mem_map.mp hentry
      obtain ⟨package, hpackage, hpair⟩ := exists_of_forall₂_right hentries hpair
      obtain ⟨hname, hversion⟩ := packageEntry_eq_ok (hclass.2 ▸ pythonKind_ne_debian scan) hpair
      exact ⟨raw, List.mem_singleton_self raw, Json.eq_str_right_iff.mp hclass.1,
        hclass.2 ▸ text_eq_ok hkind, package, hpackages ▸ hpackage, pair.1, hname, rfl, hversion⟩
    · exact .inl hentry
  · intro hos
    rcases Bool.or_eq_true_iff.mp hos with hos | hos
    · exact .inl hos
    · obtain ⟨hclass, hentry⟩ := Bool.and_eq_true_iff.mp hos
      refine .inr ⟨raw, List.mem_singleton_self raw, Json.eq_str_right_iff.mp hclass, ?_⟩
      rintro hempty
      rw [hpackages] at hempty
      subst hempty
      cases hentries
      cases hentry

/-- One result behind others. -/
theorem Collects.cons {result : Json} {results : List Json} {st mid st' : Collected}
    (hhead : Collects finalSigma scan rules [result] st mid)
    (htail : Collects finalSigma scan rules results mid st') :
    Collects finalSigma scan rules (result :: results) st st' := by
  constructor
  · obtain ⟨new, hmid, hnew, hflags⟩ := hhead.findings
    obtain ⟨new', hst', hnew', hflags'⟩ := htail.findings
    refine ⟨new ++ new', by rw [hst', hmid, List.append_assoc], ?_, ?_⟩
    · have hrecords : recordsIn (result :: results) = recordsIn [result] ++ recordsIn results := by
        simp [recordsIn]
      rw [hrecords]
      exact List.rel_append hnew hnew'
    · exact fun f hf => (List.mem_append.mp hf).elim (hflags f) (hflags' f)
  · intro entry hentry
    rcases htail.inventory entry hentry with hmid | ⟨result', hmem, hlists⟩
    · refine (hhead.inventory entry hmid).imp_right ?_
      rintro ⟨result', hmem, hlists⟩
      exact ⟨result', List.mem_singleton.mp hmem ▸ List.mem_cons_self, hlists⟩
    · exact .inr ⟨result', List.mem_cons_of_mem _ hmem, hlists⟩
  · intro hos
    rcases htail.osPackages hos with hmid | ⟨result', hmem, hlists⟩
    · refine (hhead.osPackages hmid).imp_right ?_
      rintro ⟨result', hmem, hlists⟩
      exact ⟨result', List.mem_singleton.mp hmem ▸ List.mem_cons_self, hlists⟩
    · exact .inr ⟨result', List.mem_cons_of_mem _ hmem, hlists⟩

/-- The loop over the results. -/
theorem foldlM_collect_eq_ok {results : List Json} {st st' : Collected}
    (h : results.foldlM (collect finalSigma scan rules) st = .ok st') :
    Collects finalSigma scan rules results st st' := by
  induction results generalizing st with
  | nil =>
      obtain rfl := Except.ok.inj h
      exact ⟨⟨[], by simp, .nil, by simp⟩, fun _ h => .inl h, .inl⟩
  | cons result results ih =>
      rw [List.foldlM_cons] at h
      obtain ⟨mid, hmid, h⟩ := bind_eq_ok_iff.mp h
      exact (collect_eq_ok hmid).cons (ih h)

end

end QuickApi.Release
