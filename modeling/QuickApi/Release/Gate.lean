/-
  QuickApi.Release.Gate

  The decision on a scan report (`exceptions` and `evaluate` in
  `scripts/security_policy.py`): which findings there are, which of them are
  excepted, and whether a release is allowed.
-/

import QuickApi.Lib.Calendar
import QuickApi.Lib.OrderedDict
import QuickApi.Release.Evidence

namespace QuickApi.Release

open QuickApi.Lib

-- ============================================================================
-- Exceptions
-- ============================================================================

/-- What `exceptions` can raise. -/
inductive PolicyError where
  | valueError (e : ValueError)
  /-- `OverflowError`, of the addition to `now` -/
  | overflowError
deriving DecidableEq, Repr

def liftError {α : Type} : Except ValueError α → Except PolicyError α
  | .ok a => .ok a
  | .error e => .error (.valueError e)

/-- `SCOPE` -/
def scopeFields : List String :=
  ["vulnerabilityId", "packageName", "installedVersion", "packagePath", "target", "type"]

/-- The values of the scope fields. -/
structure Scope where
  vulnerabilityId : Text
  packageName : Text
  installedVersion : Text
  packagePath : Option Text
  target : Text
  type : Text
deriving DecidableEq, Repr

/-- The text behind a value that `text` has accepted. -/
def acceptedText? : Json → Option Text
  | .str s => some s
  | _ => none

def acceptedText (value : Json) : Text := (acceptedText? value).getD []

/-- `tuple(entry[field] for field in SCOPE)` of a checked entry -/
def scopeOf (entry : Json) : Scope where
  vulnerabilityId := acceptedText (entry.get "vulnerabilityId")
  packageName := acceptedText (entry.get "packageName")
  installedVersion := acceptedText (entry.get "installedVersion")
  packagePath := acceptedText? (entry.get "packagePath")
  target := acceptedText (entry.get "target")
  type := acceptedText (entry.get "type")

/-- The keys of a dict. -/
def keysOf : Json → List Text
  | .dict entries => entries.map Prod.fst
  | _ => []

/-- The body of the loop over the texts of an exception. -/
def checkField (entry : Json) (field : String) : Except ValueError Unit :=
  if field = "packagePath" ∧ (entry.get field).isNull then .ok ()
  else do
    let value ← text (entry.get field)
    if field ∈ scopeFields ∧ ('*' ∈ value ∨ '?' ∈ value) then
      reject "Wildcard exceptions are forbidden."
    else pure ()

/-- The fields of an exception that are texts, apart from its expiry. -/
def textFields : List String := scopeFields ++ ["owner", "reason", "review"]

/-- The keys of an exception. -/
def entryFields : List Text := ("expiresOn" :: textFields).map String.toList

/-- The message of `datetime.strptime(expiry, '%Y-%m-%d')`. -/
def dateMessage (expiry : Text) : DateError → Text
  | .noMatch =>
      "time data '".toList ++ expiry ++ "' does not match format '%Y-%m-%d'".toList
  | .unconverted rest => "unconverted data remains: ".toList ++ rest
  | .yearOutOfRange => "year 0 is out of range".toList
  | .dayOutOfRange => "day is out of range for month".toList

/-- The deadline of an exception, before it is compared with the time. -/
def deadlineOf (entry : Json) : Except ValueError Date := do
  let expiry ← text (entry.get "expiresOn")
  match matchDate expiry with
  | none => reject "Invalid exception expiry."
  | some fields =>
      match parseDate fields with
      | .error e => .error ⟨dateMessage expiry e⟩
      | .ok deadline => pure deadline

/-- The fields and the deadline of an exception. -/
def checkEntry (raw : Json) : Except ValueError (Json × Date) := do
  let entry ← mapping raw
  if keysOf entry ⊆ entryFields ∧ entryFields ⊆ keysOf entry then do
    textFields.forM (checkField entry)
    let deadline ← deadlineOf entry
    pure (entry, deadline)
  else reject "Invalid exception fields."

/-- The body of the loop over the exceptions.  The sum of `now` and 30 days is computed only where
    the deadline lies behind `now`. -/
def addRule (now : DateTime) (rules : List Scope) (raw : Json) :
    Except PolicyError (List Scope) := do
  let (entry, deadline) ← liftError (checkEntry raw)
  if now.instant < deadline.instant ∧ maxOrdinal < now.date.toOrdinal + 30 then
    .error .overflowError
  else if ¬ (now.instant < deadline.instant ∧
      deadline.instant ≤ now.instant + 30 * microsecondsPerDay) then
    liftError (reject "Exception expired or exceeds 30 days.")
  else if scopeOf entry ∈ rules then liftError (reject "Duplicate exception scope.")
  else pure (rules ++ [scopeOf entry])

/-- `exceptions` -/
def exceptions (policy : Json) (now : DateTime) : Except PolicyError (List Scope) := do
  let entries ← liftError do
    let policy ← mapping policy
    if !(policy.get "version").eq (.int 1) then reject "Unsupported exception policy."
    else sequence (policy.get "exceptions")
  entries.foldlM (addRule now) []

-- ============================================================================
-- Findings
-- ============================================================================

/-- `SEVERITIES` -/
def severities : List Text :=
  ["UNKNOWN".toList, "LOW".toList, "MEDIUM".toList, "HIGH".toList, "CRITICAL".toList]

structure Finding where
  scope : Scope
  severity : Text
  developmentOnly : Bool
  exception : Bool
  fixedVersion : Json

structure Decision where
  allowed : Bool
  blocked : List Finding
  findings : List Finding
  evaluatedAt : Text

/-- What a scan is held against, and which image is scanned, if one is. -/
structure Scan where
  expected : OrderedDict Text Text
  production : OrderedDict Text Text
  imageId : Option Text

namespace Scan

/-- The image id, where `if image_id` holds. -/
def image? (scan : Scan) : Option Text := scan.imageId.filter (· ≠ [])

/-- The type of the results that list Python packages. -/
def pythonKind (scan : Scan) : Text :=
  if scan.image?.isSome then "python-pkg".toList else "pip".toList

end Scan

/-- The inventory, whether there are OS packages, and the findings so far. -/
structure Collected where
  inventory : List (Text × Text)
  osPackages : Bool
  findings : List Finding

section
variable (finalSigma : Text → Text → Bool) (scan : Scan) (rules : List Scope)

/-- The checks of the image behind a report. -/
def checkImage (report : Json) (imageId : Text) : Except ValueError Unit := do
  let metadata ← mapping (report.get "Metadata")
  let osInfo ← mapping (metadata.get "OS")
  if !(metadata.get "ImageID").eq (.str imageId) then
    reject "Scan does not identify the qualified image."
  else do
    let family ← text (osInfo.get "Family")
    if family = "unknown".toList ∨ (osInfo.get "EOSL") matches .bool true then
      reject "Unsupported or end-of-life image OS."
    else do
      let _ ← text (osInfo.get "Name")
      pure ()

/-- The entry of a package. -/
def packageEntry (kind : Text) (raw : Json) : Except ValueError (Text × Text) := do
  let package ← mapping raw
  let name ← text (package.get "Name")
  let version ← packageVersion package kind
  pure (name, version)

/-- `package_path` of a vulnerability -/
def packagePathOf (vulnerability : Json) : Except ValueError (Option Text) :=
  let packagePath := vulnerability.get "PkgPath"
  if packagePath.isNull then pure none else some <$> text packagePath

/-- The finding of a vulnerability in a result with these package entries. -/
def findingOf (entries : List (Text × Text)) (target kind : Text) (raw : Json) :
    Except ValueError Finding := do
  let vulnerability ← mapping raw
  let name ← text (vulnerability.get "PkgName")
  let version ← text (vulnerability.get "InstalledVersion")
  let severity ← text (vulnerability.get "Severity")
  if severity ∉ severities then
    .error ⟨"Invalid vulnerability severity in ".toList ++ kind ++ ".".toList⟩
  else if (name, version) ∉ entries then
    .error ⟨"Vulnerability outside ".toList ++ kind ++ " inventory: ".toList ++ name ++
      "@".toList ++ version ++ ".".toList⟩
  else do
    let packagePath ← packagePathOf vulnerability
    let vulnerabilityId ← text (vulnerability.get "VulnerabilityID")
    let normalized := normalize finalSigma name
    if scan.image?.isNone ∧ scan.expected.get? normalized ≠ some version then
      reject "Finding outside declared requirements."
    else
      let scope : Scope :=
        { vulnerabilityId, packageName := name, installedVersion := version, packagePath, target
          type := kind }
      pure
        { scope, severity
          developmentOnly := scan.image?.isNone &&
            (normalized, version) ∉ scan.production.entries
          exception := scope ∈ rules
          fixedVersion := vulnerability.get "FixedVersion" }

/-- The body of the loop over the results. -/
def collect (st : Collected) (raw : Json) : Except ValueError Collected := do
  let result ← mapping raw
  let target ← text (result.get "Target")
  let kind ← text (result.get "Type")
  let packages ← sequence (result.get "Packages")
  let entries ← packages.mapM (packageEntry kind)
  let vulnerabilities ← sequence (result.getD "Vulnerabilities" (.list []))
  let findings ← vulnerabilities.mapM (findingOf finalSigma scan rules entries target kind)
  pure
    { inventory :=
        if (result.get "Class").eq (.str "lang-pkgs".toList) ∧ kind = scan.pythonKind then
          st.inventory ++ entries.map fun e => (normalize finalSigma e.1, e.2)
        else st.inventory
      osPackages := st.osPackages ||
        ((result.get "Class").eq (.str "os-pkgs".toList) && !entries.isEmpty)
      findings := st.findings ++ findings }

/-- A finding that blocks the release. -/
def Finding.blocks (f : Finding) : Bool :=
  f.severity = "CRITICAL".toList && !f.developmentOnly && !f.exception

/-- The checks of a report that do not look at its results. -/
def checkReport (report : Json) : Except ValueError Unit :=
  if !(report.get "SchemaVersion").eq (.int 2) ∨
      !(report.get "ArtifactType").eq (.str (if scan.image?.isSome then
        "container_image".toList else "filesystem".toList)) then
    reject "Unsupported or incomplete scan report."
  else
    match scan.image? with
    | some imageId => checkImage report imageId
    | none => pure ()

/-- The decision on these findings. -/
def decisionOn (now : DateTime) (findings : List Finding) : Decision :=
  let blocked := findings.filter Finding.blocks
  { allowed := blocked.isEmpty, blocked, findings, evaluatedAt := now.isoformat }

/-- The loop over the results, and the decision. -/
def evaluateResults (report : Json) (now : DateTime) : Except ValueError Decision := do
  let results ← sequence (report.get "Results")
  let st ← results.foldlM (collect finalSigma scan rules) ⟨[], false, []⟩
  if ¬ (scan.expected.entries.all (· ∈ st.inventory)) ∨
      (scan.image?.isSome ∧ !st.osPackages) then
    reject "Missing Python requirements or OS inventory coverage."
  else pure (decisionOn now st.findings)

/-- `evaluate` behind `exceptions` -/
def evaluateReport (report : Json) (now : DateTime) : Except ValueError Decision := do
  let report ← mapping report
  checkReport scan report
  evaluateResults finalSigma scan rules report now

end

/-- `evaluate` -/
def evaluate (finalSigma : Text → Text → Bool) (scan : Scan) (report policy : Json)
    (now : DateTime) : Except PolicyError Decision := do
  let rules ← exceptions policy now
  liftError (evaluateReport finalSigma scan rules report now)

end QuickApi.Release
