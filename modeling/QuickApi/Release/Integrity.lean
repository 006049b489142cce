/-
  QuickApi.Release.Integrity

  What is known of an archive that the inspection accepts: every blob that is
  reachable from the index has the size and the digest of its descriptor, the
  index has one runtime, and whatever else it lists is bound to that runtime.
-/

import QuickApi.Release.Blobs
import QuickApi.Release.Inspection

namespace QuickApi.Release

open QuickApi.Lib Checked

section
variable (lib : Library) (archive : List Member)

/-- The manifests that an index lists. -/
def manifestsOf (index : Json) : List Json := ((documentOf lib archive index).get "manifests").items

def configOf (manifest : Json) : Json := (documentOf lib archive manifest).get "config"

def layersOf (manifest : Json) : List Json := ((documentOf lib archive manifest).get "layers").items

/-- The descriptors that are reachable from that of an index. -/
inductive Reachable (index : Json) : Json → Prop where
  | index : Reachable index index
  | manifest {entry : Json} : entry ∈ manifestsOf lib archive index → Reachable index entry
  | config {entry : Json} : entry ∈ manifestsOf lib archive index →
      Reachable index (configOf lib archive entry)
  | layer {entry layer : Json} : entry ∈ manifestsOf lib archive index →
      layer ∈ layersOf lib archive entry → Reachable index layer

/-- A manifest is an attestation of the runtime: it says so, it is bound to the runtime and to
    nothing else, and so are the subjects of its statements. -/
structure Attests (runtimeDigest : Text) (entry : Json) : Prop where
  type : (entry.get "annotations").get "vnd.docker.reference.type" =
        .str "attestation-manifest".toList ∨
      (documentOf lib archive entry).get "artifactType" =
        .str "application/vnd.docker.attestation.manifest.v1+json".toList
  bound : bindingsOf (entry.get "annotations") ((documentOf lib archive entry).get "subject") ≠ []
  bindings : ∀ value ∈ bindingsOf (entry.get "annotations")
      ((documentOf lib archive entry).get "subject"), value = .str runtimeDigest
  subjects : ∀ layer ∈ layersOf lib archive entry,
    ∀ subject ∈ ((documentOf lib archive layer).get "subject").items,
      (subject.get "digest").get "sha256" = .str (runtimeDigest.drop 7)

/-- The manifests of an index other than runtimes. -/
def othersOf (index : Json) : List Json :=
  (manifestsOf lib archive index).filter fun entry => !isRuntime entry

/-- The statements of the attestations. -/
def statementsOf (index : Json) : List Json :=
  ((othersOf lib archive index).flatMap (layersOf lib archive)).map (documentOf lib archive)

/-- The kind of the predicate of a statement. -/
def kindOf (statement : Json) : Option Predicate := predicateOf (statement.get "predicateType")

/-- What the inspection has found behind the descriptor of an index. -/
structure Qualified (index : Json) (info : Inspected) : Prop where
  digest : index.get "digest" = .str info.digest
  verified : ∀ descriptor, Reachable lib archive index descriptor →
    Verified lib archive descriptor
  runtime : ∃ runtime, (manifestsOf lib archive index).filter isRuntime = [runtime] ∧
    runtime.get "digest" = .str info.runtimeDigest ∧
    (configOf lib archive runtime).get "digest" = .str info.imageId
  attested : ∀ entry ∈ othersOf lib archive index, Attests lib archive info.runtimeDigest entry
  predicates : ((statementsOf lib archive index).map kindOf).Perm
    [some .sbom, some .provenance]
  sbom : ∀ statement ∈ statementsOf lib archive index, kindOf statement = some .sbom →
    statement.get "predicate" = info.sbom
  provenance : ∀ statement ∈ statementsOf lib archive index,
    kindOf statement = some .provenance → statement.get "predicate" = info.provenance

end

variable {lib : Library} {archive : List Member}

-- ============================================================================
-- Statements
-- ============================================================================

/-- The predicates that have been found. -/
def Attestations.kinds (attestations : Attestations) : List Predicate :=
  [.sbom, .provenance].filter fun kind => (attestations.get? kind).isSome

/-- The attestations are the predicates of these statements, one of each kind at most. -/
structure Found (statements : List Json) (attestations : Attestations) : Prop where
  kinds : (statements.map kindOf).Perm (attestations.kinds.map some)
  predicate : ∀ statement ∈ statements, ∀ kind, kindOf statement = some kind →
    attestations.get? kind = some (statement.get "predicate")

theorem Found.nil : Found [] ⟨none, none⟩ := ⟨.refl _, by simp⟩

theorem Attestations.kinds_set {attestations : Attestations} {kind : Predicate}
    (hnew : attestations.get? kind = none) (predicate : Json) :
    (attestations.set predicate kind).kinds.Perm (kind :: attestations.kinds) := by
  obtain ⟨sbom, provenance⟩ := attestations
  cases kind with
  | sbom =>
      obtain rfl : sbom = none := hnew
      cases provenance <;> exact .refl _
  | provenance =>
      obtain rfl : provenance = none := hnew
      cases sbom with
      | none => exact .refl _
      | some value => exact .swap _ _ _

theorem Attestations.get?_set {attestations : Attestations} (predicate : Json)
    (kind kind' : Predicate) :
    (attestations.set predicate kind).get? kind' =
      if kind' = kind then some predicate else attestations.get? kind' := by
  cases kind <;> cases kind' <;> rfl

/-- One statement more. -/
theorem Found.add {statements : List Json} {attestations : Attestations} {statement : Json}
    {kind : Predicate} (h : Found statements attestations) (hkind : kindOf statement = some kind)
    (hnew : attestations.get? kind = none) :
    Found (statements ++ [statement]) (attestations.set (statement.get "predicate") kind) := by
  constructor
  · have hperm := (Attestations.kinds_set hnew (statement.get "predicate")).map some
    rw [List.map_append, List.map_singleton, hkind]
    exact (List.perm_append_singleton _ _).trans ((h.kinds.cons _).trans hperm.symm)
  · intro statement' hmem kind' hkind'
    rw [Attestations.get?_set]
    rcases List.mem_append.mp hmem with hold | hlast
    · have hfound := h.predicate statement' hold kind' hkind'
      have hne : kind' ≠ kind := by
        rintro rfl
        rw [hnew] at hfound
        cases hfound
      rw [if_neg hne, hfound]
    · obtain rfl := List.mem_singleton.mp hlast
      obtain rfl := Option.some.inj (hkind'.symm.trans hkind)
      rw [if_pos rfl]

theorem addPredicate_eq_ok {attestations attestations' : Attestations} {statement : Json}
    (h : addPredicate attestations statement = .ok attestations') :
    ∃ kind, kindOf statement = some kind ∧ attestations.get? kind = none ∧
      attestations' = attestations.set (statement.get "predicate") kind := by
  simp only [addPredicate] at h
  obtain ⟨-, h⟩ := guard_eq_ok_iff.mp h
  split at h
  · cases h
  · next kind hkind =>
    obtain ⟨hnew, h⟩ := guard_eq_ok_iff.mp h
    obtain ⟨predicate, hpredicate, h⟩ := bind_eq_ok_iff.mp h
    obtain rfl := mapping_eq_ok (checked_eq_ok_iff.mp hpredicate)
    exact ⟨kind, hkind, by simpa using hnew, (Except.ok.inj h).symm⟩

theorem subjectDiffers_eq_false {runtime subject : Json}
    (h : subjectDiffers runtime subject = .ok false) :
    (subject.get "digest").get "sha256" = .str ((digestOf runtime).drop 7) := by
  obtain ⟨subject', hsubject, h⟩ := bind_eq_ok_iff.mp h
  obtain rfl := mapping_eq_ok (checked_eq_ok_iff.mp hsubject)
  obtain ⟨digest, hdigest, h⟩ := bind_eq_ok_iff.mp h
  obtain rfl := mapping_eq_ok (checked_eq_ok_iff.mp hdigest)
  have h := Except.ok.inj h
  exact Json.eq_str_right_iff.mp (by simpa using h)

/-- The layer of a statement is verified, and so are the statement's subjects. -/
def StatementBound (lib : Library) (archive : List Member) (runtime layer : Json) : Prop :=
  Verified lib archive layer ∧
    ∀ subject ∈ ((documentOf lib archive layer).get "subject").items,
      (subject.get "digest").get "sha256" = .str ((digestOf runtime).drop 7)

section
variable {candidate : Candidate} (hopen : openCandidate archive = .ok candidate) {runtime : Json}
include hopen

theorem addStatement_eq_ok {statements : List Json} {attestations attestations' : Attestations}
    {layer : Json} (hfound : Found statements attestations)
    (h : addStatement (candidate.blob lib) runtime attestations layer = .ok attestations') :
    StatementBound lib archive runtime layer ∧
      Found (statements ++ [documentOf lib archive layer]) attestations' := by
  obtain ⟨layer', hlayer, h⟩ := bind_eq_ok_iff.mp h
  obtain rfl := mapping_eq_ok (checked_eq_ok_iff.mp hlayer)
  obtain ⟨statement, hstatement, h⟩ := bind_eq_ok_iff.mp h
  obtain ⟨hverified, hdocument⟩ := blob_eq_ok hopen hstatement
  obtain ⟨_, -, h⟩ := bind_eq_ok_iff.mp h
  obtain ⟨subjects, hsubjects, h⟩ := bind_eq_ok_iff.mp h
  obtain ⟨differs, hdiffers, h⟩ := bind_eq_ok_iff.mp h
  obtain ⟨hsame, h⟩ := guard_eq_ok_iff.mp h
  obtain rfl : differs = false := by simpa using hsame
  rw [hdocument rfl]
  constructor
  · refine ⟨hverified, ?_⟩
    rw [hdocument rfl, sequence_eq_ok (checked_eq_ok_iff.mp hsubjects), Json.items]
    exact fun subject hmem => subjectDiffers_eq_false (anyM_eq_ok_false hdiffers subject hmem)
  · obtain ⟨kind, hkind, hnew, rfl⟩ := addPredicate_eq_ok h
    exact hfound.add hkind hnew

/-- The loop over the layers of an attestation. -/
theorem foldlM_addStatement_eq_ok {layers : List Json} {statements : List Json}
    {attestations attestations' : Attestations} (hfound : Found statements attestations)
    (h : layers.foldlM (addStatement (candidate.blob lib) runtime) attestations =
      .ok attestations') :
    (∀ layer ∈ layers, StatementBound lib archive runtime layer) ∧
      Found (statements ++ layers.map (documentOf lib archive)) attestations' := by
  induction layers generalizing statements attestations with
  | nil =>
      obtain rfl := Except.ok.inj h
      simpa using hfound
  | cons layer layers ih =>
      rw [List.foldlM_cons] at h
      obtain ⟨mid, hmid, h⟩ := bind_eq_ok_iff.mp h
      obtain ⟨hbound, hfound⟩ := addStatement_eq_ok hopen hfound hmid
      obtain ⟨hall, hfound⟩ := ih hfound h
      refine ⟨List.forall_mem_cons.mpr ⟨hbound, hall⟩, ?_⟩
      rw [List.map_cons, List.append_cons]
      exact hfound

end

-- ============================================================================
-- Attestations
-- ============================================================================

theorem checkBinding_eq_ok {runtime entry attestation : Json} {digest : Text}
    (hdigest : runtime.get "digest" = .str digest)
    (h : checkBinding runtime entry attestation = .ok ()) :
    let bindings := bindingsOf (entry.get "annotations") (attestation.get "subject")
    ((entry.get "annotations").get "vnd.docker.reference.type" =
          .str "attestation-manifest".toList ∨
        attestation.get "artifactType" =
          .str "application/vnd.docker.attestation.manifest.v1+json".toList) ∧
      bindings ≠ [] ∧ ∀ value ∈ bindings, value = .str digest := by
  obtain ⟨annotations, hannotations, h⟩ := bind_eq_ok_iff.mp h
  obtain rfl := mapping_eq_ok (checked_eq_ok_iff.mp hannotations)
  obtain ⟨subject, hsubject, h⟩ := bind_eq_ok_iff.mp h
  obtain rfl := mapping_eq_ok (checked_eq_ok_iff.mp hsubject)
  obtain ⟨hcheck, -⟩ := guard_eq_ok_iff.mp h
  have hbindings : bindingsOf (entry.getD "annotations" (.dict []))
      (attestation.getD "subject" (.dict [])) =
        bindingsOf (entry.get "annotations") (attestation.get "subject") := by
    simp only [bindingsOf, Json.getD_get]
  rw [hbindings, Json.getD_get, hdigest] at hcheck
  simp only [not_or, List.isEmpty_iff, List.any_eq_true, not_exists, not_and,
    Bool.not_eq_true', Bool.not_eq_false] at hcheck
  obtain ⟨hbound, hvalues, htype⟩ := hcheck
  refine ⟨?_, hbound, fun value hmem => Json.eq_str_right_iff.mp (hvalues value hmem)⟩
  by_cases hlabel : ((entry.get "annotations").get "vnd.docker.reference.type").eq
      (.str "attestation-manifest".toList) = true
  · exact .inl (Json.eq_str_right_iff.mp hlabel)
  · exact .inr (Json.eq_str_right_iff.mp (htype (by simpa using hlabel)))

/-- The blobs of a manifest are verified. -/
structure ManifestVerified (lib : Library) (archive : List Member) (entry : Json) : Prop where
  manifest : Verified lib archive entry
  config : Verified lib archive (configOf lib archive entry)
  layers : ∀ layer ∈ layersOf lib archive entry, Verified lib archive layer

section
variable {candidate : Candidate} (hopen : openCandidate archive = .ok candidate) {runtime : Json}
  {digest : Text} (hdigest : runtime.get "digest" = .str digest)
include hopen hdigest

theorem addAttestation_eq_ok {statements : List Json} {attestations attestations' : Attestations}
    {entry : Json} (hother : entry.eq runtime = false) (hfound : Found statements attestations)
    (h : addAttestation (candidate.blob lib) runtime attestations entry = .ok attestations') :
    ManifestVerified lib archive entry ∧ Attests lib archive digest entry ∧
      Found (statements ++ (layersOf lib archive entry).map (documentOf lib archive))
        attestations' := by
  rw [addAttestation, hother, if_neg Bool.false_ne_true] at h
  obtain ⟨attestation, hattestation, h⟩ := bind_eq_ok_iff.mp h
  obtain ⟨hmanifest, hdocument⟩ := blob_eq_ok hopen hattestation
  have hdocument := hdocument rfl
  obtain ⟨_, hbinding, h⟩ := bind_eq_ok_iff.mp h
  obtain ⟨config, hconfig, h⟩ := bind_eq_ok_iff.mp h
  obtain ⟨layers, hlayers, h⟩ := bind_eq_ok_iff.mp h
  obtain ⟨htype, hbound, hbindings⟩ := checkBinding_eq_ok hdigest hbinding
  have hlayers : layersOf lib archive entry = layers := by
    rw [layersOf, hdocument, sequence_eq_ok (checked_eq_ok_iff.mp hlayers), Json.items]
  obtain ⟨hstatements, hfound⟩ := foldlM_addStatement_eq_ok hopen hfound h
  have hname : digestOf runtime = digest := by rw [digestOf, hdigest]
  refine ⟨⟨hmanifest, ?_, ?_⟩, ⟨?_, ?_, ?_, ?_⟩, ?_⟩
  · rw [configOf, hdocument]
    exact (blob_eq_ok hopen hconfig).1
  · rw [hlayers]
    exact fun layer hmem => (hstatements layer hmem).1
  · rw [hdocument]
    exact htype
  · rw [hdocument]
    exact hbound
  · rw [hdocument]
    exact hbindings
  · rw [hlayers, ← hname]
    exact fun layer hmem => (hstatements layer hmem).2
  · rw [hlayers]
    exact hfound

/-- The loop over the manifests of the index, where runtimes are those that equal `runtime`. -/
theorem foldlM_addAttestation_eq_ok {entries : List Json}
    (hentries : ∀ entry ∈ entries, entry.eq runtime = isRuntime entry) {statements : List Json}
    {attestations attestations' : Attestations} (hfound : Found statements attestations)
    (h : entries.foldlM (addAttestation (candidate.blob lib) runtime) attestations =
      .ok attestations') :
    (∀ entry ∈ entries.filter fun entry => !isRuntime entry,
      ManifestVerified lib archive entry ∧ Attests lib archive digest entry) ∧
      Found (statements ++ ((entries.filter fun entry => !isRuntime entry).flatMap
        (layersOf lib archive)).map (documentOf lib archive)) attestations' := by
  induction entries generalizing statements attestations with
  | nil =>
      obtain rfl := Except.ok.inj h
      simpa using hfound
  | cons entry entries ih =>
      rw [List.foldlM_cons] at h
      obtain ⟨mid, hmid, h⟩ := bind_eq_ok_iff.mp h
      obtain ⟨hentry, hentries⟩ := List.forall_mem_cons.mp hentries
      cases hruntime : isRuntime entry with
      | true =>
          rw [addAttestation, hentry, hruntime, if_pos rfl] at hmid
          obtain rfl := Except.ok.inj hmid
          rw [List.filter_cons_of_neg (by simp [hruntime])]
          exact ih hentries hfound h
      | false =>
          obtain ⟨hverified, hattests, hfound⟩ :=
            addAttestation_eq_ok hopen hdigest (hentry.trans hruntime) hfound hmid
          obtain ⟨hall, hfound⟩ := ih hentries hfound h
          rw [List.filter_cons_of_pos (by simp [hruntime])]
          refine ⟨List.forall_mem_cons.mpr ⟨⟨hverified, hattests⟩, hall⟩, ?_⟩
          rw [List.flatMap_cons, List.map_append, ← List.append_assoc]
          exact hfound

end

-- ============================================================================
-- The index
-- ============================================================================

/-- A manifest that equals a runtime is one. -/
theorem isRuntime_of_eq {entry runtime : Json} (heq : entry.eq runtime = true)
    (hruntime : isRuntime runtime = true) : isRuntime entry = true := by
  unfold isRuntime runtimePlatform at *
  obtain ⟨fields, hfields⟩ := Json.exists_of_eq_dict hruntime
  exact Json.eq_trans_texts (by simp) (Json.eq_get heq hfields) hruntime

/-- Where there is one runtime, the manifests that equal it are the runtimes. -/
theorem eq_runtime_iff {entries : List Json} {runtime : Json}
    (hruntime : entries.filter isRuntime = [runtime])
    (hunique : ∀ entry ∈ entries, entry.unique = true) :
    ∀ entry ∈ entries, entry.eq runtime = isRuntime entry := by
  intro entry hmem
  have hone : ∀ other, other ∈ entries ∧ isRuntime other = true ↔ other = runtime := by
    intro other
    rw [← List.mem_filter, hruntime, List.mem_singleton]
  obtain ⟨hlisted, hself⟩ := (hone runtime).mpr rfl
  rw [Bool.eq_iff_iff]
  constructor
  · exact fun heq => isRuntime_of_eq heq hself
  · intro h
    obtain rfl := (hone entry).mp ⟨hmem, h⟩
    exact Json.eq_refl entry (hunique entry hmem)

theorem mapM_mapping_eq_ok {entries entries' : List Json}
    (h : entries.mapM (fun entry => checked (mapping entry)) = .ok entries') :
    entries = entries' := by
  have hsame := (mapM_eq_ok_iff.mp h).imp fun _ _ hentry =>
    mapping_eq_ok (checked_eq_ok_iff.mp hentry)
  rwa [List.forall₂_eq_eq_eq] at hsame

theorem manifestsOf_unique {index entry : Json} (hmem : entry ∈ manifestsOf lib archive index) :
    entry.unique = true := by
  have hunique := Json.unique_get (documentOf_unique lib archive index) "manifests"
  unfold manifestsOf at hmem
  cases hlist : (documentOf lib archive index).get "manifests" with
  | list items =>
      rw [hlist] at hmem hunique
      exact Json.unique_of_mem hunique hmem
  | _ => simp [hlist, Json.items] at hmem

theorem inspectIndex_eq_ok {source : Json} {version : Text} {packages : OrderedDict Text Text}
    {candidate : Candidate} (hopen : openCandidate archive = .ok candidate) {index : Json}
    {info : Inspected}
    (h : inspectIndex lib source version packages (candidate.blob lib) index = .ok info) :
    Qualified lib archive index info := by
  obtain ⟨document, hdocument, h⟩ := bind_eq_ok_iff.mp h
  obtain ⟨hindex, hdocument⟩ := blob_eq_ok hopen hdocument
  obtain ⟨entries, hentries, h⟩ := bind_eq_ok_iff.mp h
  obtain ⟨entries', hmapped, h⟩ := bind_eq_ok_iff.mp h
  obtain rfl := mapM_mapping_eq_ok hmapped
  have hentries : manifestsOf lib archive index = entries := by
    rw [manifestsOf, hdocument rfl, sequence_eq_ok (checked_eq_ok_iff.mp hentries), Json.items]
  have hdigest {descriptor : Json} (hverified : Verified lib archive descriptor) :
      descriptor.get "digest" = .str (digestOf descriptor) := by
    obtain ⟨content, -, -, hdigest⟩ := hverified
    rw [digestOf, hdigest]
  split at h
  · next runtime hruntime =>
    obtain ⟨manifest, hmanifest, h⟩ := bind_eq_ok_iff.mp h
    obtain ⟨hverified, hmanifest⟩ := blob_eq_ok hopen hmanifest
    have hmanifest := hmanifest rfl
    obtain ⟨config, hconfig, h⟩ := bind_eq_ok_iff.mp h
    obtain ⟨hconfig, -⟩ := blob_eq_ok hopen hconfig
    obtain ⟨_, -, h⟩ := bind_eq_ok_iff.mp h
    obtain ⟨layers, hlayers, h⟩ := bind_eq_ok_iff.mp h
    obtain ⟨_, hread, h⟩ := bind_eq_ok_iff.mp h
    obtain ⟨attestations, hattestations, h⟩ := bind_eq_ok_iff.mp h
    split at h
    · next sbom provenance hsbom hprovenance =>
      obtain ⟨_, -, h⟩ := bind_eq_ok_iff.mp h
      obtain ⟨_, -, h⟩ := bind_eq_ok_iff.mp h
      obtain rfl := Except.ok.inj h
      have hunique : ∀ entry ∈ entries, entry.unique = true := fun entry hmem =>
        manifestsOf_unique (hentries ▸ hmem)
      obtain ⟨hothers, hfound⟩ := foldlM_addAttestation_eq_ok hopen (hdigest hverified)
        (eq_runtime_iff hruntime hunique) Found.nil hattestations
      have hlayers : layersOf lib archive runtime = layers := by
        rw [layersOf, hmanifest, sequence_eq_ok (checked_eq_ok_iff.mp hlayers), Json.items]
      have hruntimeVerified : ManifestVerified lib archive runtime := by
        refine ⟨hverified, ?_, fun layer hmem => ?_⟩
        · rw [configOf, hmanifest]
          exact hconfig
        · obtain ⟨_, hlayer, -⟩ := bind_eq_ok_iff.mp (forM_eq_ok hread layer (hlayers ▸ hmem))
          exact (blob_eq_ok hopen hlayer).1
      have hmanifests : ∀ entry ∈ entries, ManifestVerified lib archive entry := by
        intro entry hmem
        cases hkind : isRuntime entry with
        | true =>
            have hmem := List.mem_filter.mpr ⟨hmem, hkind⟩
            rw [hruntime, List.mem_singleton] at hmem
            exact hmem ▸ hruntimeVerified
        | false => exact (hothers entry (List.mem_filter.mpr ⟨hmem, by simp [hkind]⟩)).1
      have hstatements : statementsOf lib archive index =
          [] ++ ((entries.filter fun entry => !isRuntime entry).flatMap
            (layersOf lib archive)).map (documentOf lib archive) := by
        rw [statementsOf, othersOf, hentries, List.nil_append]
      rw [← hstatements] at hfound
      have hkinds : attestations.kinds = [.sbom, .provenance] := by
        simp [Attestations.kinds, Attestations.get?, hsbom, hprovenance]
      exact
        { digest := hdigest hindex
          verified := by
            rintro _ (_ | hmem | hmem | ⟨hmem, hlayer⟩)
            · exact hindex
            · exact (hmanifests _ (hentries ▸ hmem)).manifest
            · exact (hmanifests _ (hentries ▸ hmem)).config
            · exact (hmanifests _ (hentries ▸ hmem)).layers _ hlayer
          runtime := by
            refine ⟨runtime, by rw [hentries, hruntime], hdigest hverified, ?_⟩
            rw [configOf, hmanifest]
            exact hdigest hconfig
          attested := fun entry hmem => (hothers entry (by rwa [othersOf, hentries] at hmem)).2
          predicates := by
            have hperm := hfound.kinds
            rw [hkinds] at hperm
            exact hperm
          sbom := fun statement hmem hkind =>
            Option.some.inj ((hfound.predicate statement hmem _ hkind).symm.trans hsbom)
          provenance := fun statement hmem hkind =>
            Option.some.inj ((hfound.predicate statement hmem _ hkind).symm.trans hprovenance) }
    · cases h
  · cases h

end QuickApi.Release
