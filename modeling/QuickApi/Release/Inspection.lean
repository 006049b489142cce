/-
  QuickApi.Release.Inspection

  The inspection of a release candidate (`inspect` in `scripts/release_oci.py`):
  from the catalogue of the archive to the index, the runtime and the build
  metadata attached to it.
-/

import QuickApi.Release.Candidate

namespace QuickApi.Release

open QuickApi.Lib

-- ============================================================================
-- The catalogue
-- ============================================================================

/-- The descriptors of the expected digest. -/
def matchesOf (roots : List Json) (expected : Text) : Except Failure (List Json) := do
  let entries ← roots.mapM fun entry => checked (mapping entry)
  pure (entries.filter fun entry => (entry.get "digest").eq (.str expected))

/-- The descriptor of the candidate index. -/
def selectDescriptor (roots : List Json) : Option Text → Except Failure Json
  | some expected => do
      if !isDigest expected then refuse "Invalid expected OCI candidate digest."
      else do
        match ← matchesOf roots expected with
        | [] => refuse "Approved candidate digest is missing from OCI layout."
        | descriptor :: others =>
            if (descriptor :: others).any fun entry =>
                ["size", "mediaType"].any fun field =>
                  !(entry.get field).eq (descriptor.get field) then
              refuse "Conflicting OCI descriptors for the approved digest."
            else pure descriptor
  | none =>
      match roots with
      | [entry] => checked (mapping entry)
      | _ => refuse "Expected exactly one OCI candidate index."

-- ============================================================================
-- The runtime
-- ============================================================================

/-- `{'architecture': 'amd64', 'os': 'linux'}` -/
def runtimePlatform : Json :=
  .dict [("architecture".toList, .str "amd64".toList), ("os".toList, .str "linux".toList)]

def isRuntime (entry : Json) : Bool := (entry.get "platform").eq runtimePlatform

/-- `source[key]` -/
def item (value : Json) (key : String) : Except Failure Json :=
  match value.get? key with
  | some field => .ok field
  | none => .error (.keyError key.toList)

section
variable (lib : Library) (source : Json) (version : Text) (packages : OrderedDict Text Text)

/-- The checks of the runtime's config. -/
def checkConfig (config : Json) : Except Failure Unit := do
  let settings ← checked (mapping (config.get "config"))
  let labels ← checked (mapping (settings.get "Labels"))
  if !(config.get "os").eq (.str "linux".toList) ∨
      !(config.get "architecture").eq (.str "amd64".toList) then
    differs
  else do
    let sha ← item source "sha"
    if !(labels.get "org.opencontainers.image.revision").eq sha then differs
    else do
      let repository ← item source "repository"
      if !(labels.get "org.opencontainers.image.source").eq repository ∨
          !(labels.get "org.opencontainers.image.version").eq (.str version) then
        differs
      else pure ()
where
  differs : Except Failure Unit :=
    refuse "Runtime platform/source/version differs from the selected candidate."

-- ============================================================================
-- Attestations
-- ============================================================================

inductive Predicate where
  | sbom
  | provenance
deriving DecidableEq, Repr

/-- The predicates that have been found. -/
structure Attestations where
  sbom : Option Json
  provenance : Option Json

namespace Attestations

def get? (attestations : Attestations) : Predicate → Option Json
  | .sbom => attestations.sbom
  | .provenance => attestations.provenance

def set (attestations : Attestations) (predicate : Json) : Predicate → Attestations
  | .sbom => { attestations with sbom := some predicate }
  | .provenance => { attestations with provenance := some predicate }

end Attestations

/-- The kind of a predicate type. -/
def predicateOf (predicateType : Json) : Option Predicate :=
  if predicateType.eq (.str "https://spdx.dev/Document".toList) then some .sbom
  else if predicateType.eq (.str "https://slsa.dev/provenance/v0.2".toList) ∨
      predicateType.eq (.str "https://slsa.dev/provenance/v1".toList) then
    some .provenance
  else none

/-- The bindings of an attestation that are given. -/
def bindingsOf (annotations subject : Json) : List Json :=
  [annotations.get "vnd.docker.reference.digest", subject.get "digest"].filter (!·.isNull)

/-- The checks of an attestation's manifest. -/
def checkBinding (runtime entry attestation : Json) : Except Failure Unit := do
  let annotations ← checked (mapping (entry.getD "annotations" (.dict [])))
  let subject ← checked (mapping (attestation.getD "subject" (.dict [])))
  let bindings := bindingsOf annotations subject
  if bindings.isEmpty ∨ bindings.any (fun value => !value.eq (runtime.get "digest")) ∨
      (!(annotations.get "vnd.docker.reference.type").eq (.str "attestation-manifest".toList) ∧
        !(attestation.get "artifactType").eq
          (.str "application/vnd.docker.attestation.manifest.v1+json".toList)) then
    refuse "Unrecognized or wrongly bound attestation manifest."
  else pure ()

/-- `value in {...}`, of texts -/
def inTexts (value : Json) (texts : List Text) : Except Failure Bool :=
  if value.hashable then .ok (texts.any fun t => value.eq (.str t)) else .error .typeError

/-- The checks of a statement's types. -/
def checkTypes (layer statement : Json) : Except Failure Unit := do
  if !(layer.get "mediaType").eq (.str "application/vnd.in-toto+json".toList) then unsupported
  else do
    let known ← inTexts (statement.get "_type")
      ["https://in-toto.io/Statement/v0.1".toList, "https://in-toto.io/Statement/v1".toList]
    if !known then unsupported
    else do
      let annotations ← checked (mapping (layer.get "annotations"))
      if !(annotations.get "in-toto.io/predicate-type").eq (statement.get "predicateType") then
        unsupported
      else pure ()
where
  unsupported : Except Failure Unit := refuse "Unsupported attestation statement."

/-- The subject of a statement is not the runtime. -/
def subjectDiffers (runtime subject : Json) : Except Failure Bool := do
  let subject ← checked (mapping subject)
  let digest ← checked (mapping (subject.get "digest"))
  pure !(digest.get "sha256").eq (.str ((digestOf runtime).drop 7))

/-- The predicate of a statement enters the attestations. -/
def addPredicate (attestations : Attestations) (statement : Json) :
    Except Failure Attestations := do
  let predicateType := statement.get "predicateType"
  if !predicateType.hashable then .error .typeError
  else
    match predicateOf predicateType with
    | none => refuse "Unsupported or duplicate attestation predicate."
    | some kind =>
        if (attestations.get? kind).isSome then
          refuse "Unsupported or duplicate attestation predicate."
        else do
          let predicate ← checked (mapping (statement.get "predicate"))
          pure (attestations.set predicate kind)

section
variable (blob : Bool → Json → Except Failure Json)

/-- The body of the loop over the layers of an attestation. -/
def addStatement (runtime : Json) (attestations : Attestations) (raw : Json) :
    Except Failure Attestations := do
  let layer ← checked (mapping raw)
  let statement ← blob true layer
  checkTypes layer statement
  let subjects ← checked (sequence (statement.get "subject"))
  if ← subjects.anyM (subjectDiffers runtime) then
    refuse "Attestation subject differs from runtime."
  else addPredicate attestations statement

/-- The body of the loop over the manifests of the index. -/
def addAttestation (runtime : Json) (attestations : Attestations) (entry : Json) :
    Except Failure Attestations :=
  if entry.eq runtime then .ok attestations
  else do
    let attestation ← blob true entry
    checkBinding runtime entry attestation
    let _ ← blob true (attestation.get "config")
    let layers ← checked (sequence (attestation.get "layers"))
    layers.foldlM (addStatement blob runtime) attestations

end

-- ============================================================================
-- The build metadata
-- ============================================================================

/-- The packages of the SBOM that have versions, by their normalized names. -/
def packageOf (raw : Json) : Except Failure (Option (Text × Text)) := do
  let package ← checked (mapping raw)
  if (package.get "versionInfo").truthy then do
    let name ← checked (text (package.get "name"))
    let version ← checked (text (package.get "versionInfo"))
    pure (some (normalize lib.finalSigma name, version))
  else pure none

/-- The checks of the SBOM. -/
def checkSbom (sbom : Json) : Except Failure Unit := do
  let listed ← checked (sequence (sbom.get "packages"))
  let inventory ← listed.mapM (packageOf lib)
  let spdxVersion ← checked (text (sbom.get "spdxVersion"))
  if !"SPDX-2.".toList.isPrefixOf spdxVersion ∨
      !packages.entries.all (fun entry => some entry ∈ inventory) then
    refuse "Missing runtime package inventory in SPDX SBOM."
  else pure ()

/-- A material of the provenance is the source. -/
def isBoundMaterial (sha repository raw : Json) : Except Failure Bool := do
  let material ← checked (mapping raw)
  let uri ← checked (text (material.get "uri"))
  let uri ← sourceUri lib uri
  if (Json.str uri).eq repository then do
    let digest ← checked (mapping (material.get "digest"))
    pure (digest.values.any fun value => value.eq sha)
  else pure false

/-- `materials` -/
def materialsOf (provenance : Json) : Except Failure Json := do
  let definition ← checked (mapping (provenance.getD "buildDefinition" (.dict [])))
  pure (provenance.getD "materials" (definition.getD "resolvedDependencies" (.list [])))

/-- `vcs` -/
def vcsOf (provenance : Json) : Except Failure Json := do
  let metadata ← checked (mapping (provenance.getD "metadata" (.dict [])))
  let buildkit ← checked
    (mapping (metadata.getD "https://mobyproject.org/buildkit@v1#metadata" (.dict [])))
  let vcs := buildkit.getD "vcs" (.dict [])
  let details ← checked (mapping (provenance.getD "runDetails" (.dict [])))
  let metadata ← checked (mapping (details.getD "metadata" (.dict [])))
  let buildkit ← checked (mapping (metadata.getD "buildkit_metadata" (.dict [])))
  pure (buildkit.getD "vcs" vcs)

/-- `bound_vcs` -/
def isBoundVcs (sha repository raw : Json) : Except Failure Bool := do
  let vcs ← checked (mapping raw)
  if (vcs.get "revision").eq sha then do
    let uri ← sourceUri lib (lib.str (vcs.getD "source" (.str [])))
    pure ((Json.str uri).eq repository)
  else pure false

/-- The checks of the provenance. -/
def checkProvenance (provenance : Json) : Except Failure Unit := do
  let sha ← item source "sha"
  let repository ← item source "repository"
  let materials ← materialsOf provenance
  let vcs ← vcsOf provenance
  let materials ← checked (sequence materials)
  let boundMaterial ← materials.anyM (isBoundMaterial lib sha repository)
  let boundVcs ← isBoundVcs lib sha repository vcs
  if !boundMaterial && !boundVcs then
    refuse "Provenance does not identify the selected source."
  else pure ()

-- ============================================================================
-- The inspection
-- ============================================================================

/-- What `inspect` returns. -/
structure Inspected where
  digest : Text
  runtimeDigest : Text
  imageId : Text
  sbom : Json
  provenance : Json

/-- `inspect`, from the descriptor of the index on. -/
def inspectIndex (blob : Bool → Json → Except Failure Json) (descriptor : Json) :
    Except Failure Inspected := do
  let index ← blob true descriptor
  let listed ← checked (sequence (index.get "manifests"))
  let entries ← listed.mapM fun entry => checked (mapping entry)
  match entries.filter isRuntime with
  | [runtime] => do
      let manifest ← blob true runtime
      let config ← blob true (manifest.get "config")
      checkConfig source version config
      let layers ← checked (sequence (manifest.get "layers"))
      layers.forM fun layer => do
        let _ ← blob false layer
      let attestations ← entries.foldlM (addAttestation blob runtime) ⟨none, none⟩
      match attestations.sbom, attestations.provenance with
      | some sbom, some provenance => do
          checkSbom lib packages sbom
          checkProvenance lib source provenance
          pure
            { digest := digestOf descriptor
              runtimeDigest := digestOf runtime
              imageId := digestOf (manifest.get "config")
              sbom, provenance }
      | _, _ => refuse "Candidate requires SPDX SBOM and provenance."
  | _ => refuse "Expected one linux/amd64 runtime."

/-- The descriptor of the index in the catalogue of an archive. -/
def catalogued (candidate : Candidate) (expected : Option Text) : Except Failure Json := do
  let layout ← candidate.read lib "oci-layout".toList
  if !(layout.get "imageLayoutVersion").eq (.str "1.0.0".toList) then
    refuse "Unsupported OCI layout."
  else do
    let root ← candidate.read lib "index.json".toList
    let roots ← checked (sequence (root.get "manifests"))
    if !(root.get "schemaVersion").eq (.int 2) then refuse "Unsupported OCI index schema."
    else selectDescriptor roots expected

/-- `inspect` -/
def inspect (archive : List Member) (expected : Option Text) : Except Failure Inspected := do
  let candidate ← openCandidate archive
  let descriptor ← catalogued lib candidate expected
  inspectIndex lib source version packages (candidate.blob lib) descriptor

end

end QuickApi.Release
