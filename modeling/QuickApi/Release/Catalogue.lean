/-
  QuickApi.Release.Catalogue

  The catalogue of a candidate.  Where the digest of the index is given, entries
  with other digests do not count: the inspection of an archive with more of
  them returns the same.
-/

import QuickApi.Lib.Readable
import QuickApi.Release.Integrity

namespace QuickApi.Release

open QuickApi.Lib Checked

-- ============================================================================
-- The descriptor of the index
-- ============================================================================

/-- The document of the catalogue. -/
def rootOf (lib : Library) (archive : List Member) : Json :=
  ((stored archive "index.json".toList).bind fun body => (lib.loads body).toOption).getD .null

/-- The entries of the catalogue. -/
def rootsOf (lib : Library) (archive : List Member) : List Json :=
  ((rootOf lib archive).get "manifests").items

/-- The second list has further entries, which are objects with other digests. -/
inductive AddsEntries (digest : Text) : List Json → List Json → Prop where
  | nil : AddsEntries digest [] []
  | keep {roots roots' : List Json} (entry : Json) : AddsEntries digest roots roots' →
      AddsEntries digest (entry :: roots) (entry :: roots')
  | add {roots roots' : List Json} {fields : List (Text × Json)} :
      (Json.dict fields).get "digest" ≠ .str digest → AddsEntries digest roots roots' →
      AddsEntries digest roots (.dict fields :: roots')

theorem matchesOf_cons (entry : Json) (roots : List Json) (digest : Text) :
    matchesOf (entry :: roots) digest =
      checked (mapping entry) >>= fun entry =>
        (fun others =>
          if (entry.get "digest").eq (.str digest) then entry :: others else others) <$>
            matchesOf roots digest := by
  simp only [matchesOf, List.mapM_cons, bind_assoc, pure_bind, map_bind, map_pure,
    List.filter_cons]

theorem AddsEntries.matchesOf_eq {digest : Text} {roots roots' : List Json}
    (h : AddsEntries digest roots roots') : matchesOf roots' digest = matchesOf roots digest := by
  induction h with
  | nil => rfl
  | keep entry _ ih => rw [matchesOf_cons, matchesOf_cons, ih]
  | @add roots roots' fields hdigest _ ih =>
      have hother : ((Json.dict fields).get "digest").eq (.str digest) = false :=
        Bool.eq_false_iff.mpr fun heq => hdigest (Json.eq_str_right_iff.mp heq)
      rw [matchesOf_cons, ih]
      simp [checked, mapping, hother, bind, Except.bind]

theorem AddsEntries.selectDescriptor_eq {digest : Text} {roots roots' : List Json}
    (h : AddsEntries digest roots roots') :
    selectDescriptor roots' (some digest) = selectDescriptor roots (some digest) := by
  simp only [selectDescriptor, h.matchesOf_eq]

theorem matchesOf_eq_ok {roots entries : List Json} {digest : Text}
    (h : matchesOf roots digest = .ok entries) :
    ∀ entry ∈ entries, entry ∈ roots ∧ entry.get "digest" = .str digest := by
  obtain ⟨mapped, hmapped, h⟩ := bind_eq_ok_iff.mp h
  obtain rfl := mapM_mapping_eq_ok hmapped
  obtain rfl := Except.ok.inj h
  intro entry hmem
  obtain ⟨hmem, hdigest⟩ := List.mem_filter.mp hmem
  exact ⟨hmem, Json.eq_str_right_iff.mp hdigest⟩

/-- The descriptor is an entry of the catalogue, with the expected digest if one is given. -/
theorem selectDescriptor_eq_ok {roots : List Json} {expected : Option Text} {index : Json}
    (h : selectDescriptor roots expected = .ok index) :
    index ∈ roots ∧ ∀ digest, expected = some digest → index.get "digest" = .str digest := by
  cases expected with
  | none =>
      refine ⟨?_, by simp⟩
      simp only [selectDescriptor] at h
      split at h
      · obtain rfl := mapping_eq_ok (checked_eq_ok_iff.mp h)
        exact List.mem_singleton_self _
      · cases h
  | some digest =>
      obtain ⟨-, h⟩ := guard_eq_ok_iff.mp h
      obtain ⟨entries, hentries, h⟩ := bind_eq_ok_iff.mp h
      split at h
      · cases h
      · next descriptor others =>
        obtain ⟨-, h⟩ := guard_eq_ok_iff.mp h
        obtain rfl := Except.ok.inj h
        obtain ⟨hmem, hdigest⟩ := matchesOf_eq_ok hentries descriptor List.mem_cons_self
        exact ⟨hmem, fun _ heq => Option.some.inj heq ▸ hdigest⟩

theorem rootOf_eq {lib : Library} {archive : List Member} {body : Bytes} {root : Json}
    (hstored : stored archive "index.json".toList = some body)
    (hdecode : decode lib body = .ok root) : rootOf lib archive = root := by
  obtain ⟨value, hvalue, hmapping⟩ := bind_eq_ok_iff.mp hdecode
  obtain rfl := mapping_eq_ok (checked_eq_ok_iff.mp hmapping)
  rw [rootOf, hstored, Option.bind_some, hvalue]
  rfl

-- ============================================================================
-- Archives that differ in their catalogue
-- ============================================================================

/-- The members differ at most in their content, and only if they are the catalogue. -/
def Alike (m m' : Member) : Prop :=
  m'.name = m.name ∧ m'.kind = m.kind ∧ (m.entryName ≠ "index.json".toList → m' = m)

/-- The archives differ at most in the content of `index.json`. -/
def SameButCatalogue (archive archive' : List Member) : Prop := List.Forall₂ Alike archive archive'

/-- The second archive has a catalogue with further entries, which are objects with other
    digests; it is no larger than documents may be. -/
structure AddsToCatalogue (lib : Library) (digest : Text) (archive archive' : List Member) :
    Prop where
  same : SameButCatalogue archive archive'
  readable : ∃ body root, stored archive' "index.json".toList = some body ∧
    body.length ≤ metadataLimit ∧ decode lib body = .ok root
  schemaVersion : (rootOf lib archive').get "schemaVersion" =
    (rootOf lib archive).get "schemaVersion"
  entries : ∃ roots roots', (rootOf lib archive).get "manifests" = .list roots ∧
    (rootOf lib archive').get "manifests" = .list roots' ∧ AddsEntries digest roots roots'

section
variable {archive archive' : List Member}

theorem SameButCatalogue.filesOf (h : SameButCatalogue archive archive') :
    SameButCatalogue (filesOf archive) (filesOf archive') := by
  induction h with
  | nil => exact .nil
  | @cons m m' archive archive' hm _ ih =>
      have hdir : m'.isBlobDirectory = m.isBlobDirectory := by
        obtain ⟨name, kind, content⟩ := m
        obtain ⟨name', kind', content'⟩ := m'
        obtain ⟨rfl, rfl, -⟩ := hm
        rfl
      unfold Release.filesOf at ih ⊢
      cases hkind : m.isBlobDirectory with
      | true =>
          rw [List.filter_cons_of_neg (by simp [hkind]),
            List.filter_cons_of_neg (by simp [hdir, hkind])]
          exact ih
      | false =>
          rw [List.filter_cons_of_pos (by simp [hkind]),
            List.filter_cons_of_pos (by simp [hdir, hkind])]
          exact .cons hm ih

theorem SameButCatalogue.wellFormed (h : SameButCatalogue archive archive')
    (hwell : WellFormed archive) : WellFormed archive' := by
  have hfiles := h.filesOf
  have hentry : ∀ {m m' : Member}, m'.name = m.name → m'.entryName = m.entryName := by
    intro m m' hname
    rw [Member.entryName, Member.entryName, hname]
  constructor
  · intro m' hmem
    obtain ⟨m, hmem, hname, hkind, -⟩ := exists_of_forall₂_right hfiles hmem
    rw [hkind, hentry hname]
    exact hwell.allowlisted m hmem
  · have hnames : (Release.filesOf archive').map Member.entryName =
        (Release.filesOf archive).map Member.entryName := by
      generalize Release.filesOf archive = files at hfiles
      generalize Release.filesOf archive' = files' at hfiles
      induction hfiles with
      | nil => rfl
      | cons hm _ ih => rw [List.map_cons, List.map_cons, hentry hm.1, ih]
    rw [hnames]
    exact hwell.distinct

theorem SameButCatalogue.find?_eq (h : SameButCatalogue archive archive') {name : Text}
    (hname : name ≠ "index.json".toList) :
    ((Release.filesOf archive').find? fun m => m.entryName = name) =
      (Release.filesOf archive).find? fun m => m.entryName = name := by
  have hfiles := h.filesOf
  generalize Release.filesOf archive = files at hfiles
  generalize Release.filesOf archive' = files' at hfiles
  induction hfiles with
  | nil => rfl
  | @cons m m' files files' hm _ ih =>
      have hentry : m'.entryName = m.entryName := by rw [Member.entryName, Member.entryName, hm.1]
      by_cases hfound : m.entryName = name
      · obtain rfl : m' = m := hm.2.2 (hfound ▸ hname)
        rw [List.find?_cons_of_pos (by simpa using hfound),
          List.find?_cons_of_pos (by simpa using hfound)]
      · have hfound' : m'.entryName ≠ name := hentry ▸ hfound
        rw [List.find?_cons_of_neg (by simpa using hfound'),
          List.find?_cons_of_neg (by simpa using hfound), ih]

end

-- ============================================================================
-- The inspection of the larger catalogue
-- ============================================================================

section
variable {lib : Library} {archive archive' : List Member} {candidate candidate' : Candidate}

theorem blobName_ne_index (digest : Text) : blobName digest ≠ "index.json".toList := by
  intro h
  have hstart {start : Text} (hstart : start.head? = some 'b') (tail : Text) :
      (start ++ tail).head? = some 'b' := by
    rw [List.head?_append, hstart]
    rfl
  have hblob : (blobName digest).head? = some 'b' := hstart (by decide +kernel) _
  have hindex : "index.json".toList.head? = some 'i' := by decide +kernel
  rw [h, hindex] at hblob
  exact absurd hblob (by decide)

theorem blob_congr
    (h : ∀ digest, candidate'.members.get? (blobName digest) =
      candidate.members.get? (blobName digest)) : candidate'.blob lib = candidate.blob lib := by
  have hread (digest : Text) :
      candidate'.read lib (blobName digest) = candidate.read lib (blobName digest) := by
    rw [Candidate.read, Candidate.read, h]
  funext metadata raw
  refine bind_congr fun descriptor => bind_congr fun digest => ?_
  rw [h, hread]

/-- The document of the catalogue is the one that is read. -/
theorem read_index_eq_ok (hopen : openCandidate archive = .ok candidate) {root : Json}
    (h : candidate.read lib "index.json".toList = .ok root) : rootOf lib archive = root := by
  unfold Candidate.read at h
  have hget := get?_of_openCandidate hopen "index.json".toList
  split at h
  · cases h
  · next member hmember =>
    obtain ⟨-, hdecode⟩ := guard_eq_ok_iff.mp h
    have hstored : stored archive "index.json".toList = some member.content := by
      rw [stored, ← hget, hmember]
      rfl
    exact rootOf_eq hstored hdecode

theorem read_index_ok (hopen : openCandidate archive = .ok candidate) {body : Bytes} {root : Json}
    (hstored : stored archive "index.json".toList = some body)
    (hsize : body.length ≤ metadataLimit) (hdecode : decode lib body = .ok root) :
    candidate.read lib "index.json".toList = .ok root := by
  rw [stored, ← get?_of_openCandidate hopen] at hstored
  obtain ⟨member, hmember, rfl⟩ := Option.map_eq_some_iff.mp hstored
  rw [Candidate.read, hmember]
  exact guard_eq_ok_iff.mpr ⟨not_lt.mpr hsize, hdecode⟩

theorem catalogued_eq_ok (hopen : openCandidate archive = .ok candidate) {expected : Option Text}
    {index : Json} (h : catalogued lib candidate expected = .ok index) :
    index ∈ rootsOf lib archive ∧
      ∀ digest, expected = some digest → index.get "digest" = .str digest := by
  obtain ⟨layout, -, h⟩ := bind_eq_ok_iff.mp h
  obtain ⟨-, h⟩ := guard_eq_ok_iff.mp h
  obtain ⟨root, hroot, h⟩ := bind_eq_ok_iff.mp h
  obtain ⟨roots, hroots, h⟩ := bind_eq_ok_iff.mp h
  obtain ⟨-, h⟩ := guard_eq_ok_iff.mp h
  have hroots : rootsOf lib archive = roots := by
    rw [rootsOf, read_index_eq_ok hopen hroot, sequence_eq_ok (checked_eq_ok_iff.mp hroots),
      Json.items]
  rw [hroots]
  exact selectDescriptor_eq_ok h

/-- The catalogue with further entries gives the same descriptor. -/
theorem AddsToCatalogue.catalogued_eq_ok {digest : Text} {index : Json}
    (hadds : AddsToCatalogue lib digest archive archive')
    (hopen : openCandidate archive = .ok candidate)
    (hopen' : openCandidate archive' = .ok candidate')
    (hlayout : candidate'.members.get? "oci-layout".toList =
      candidate.members.get? "oci-layout".toList)
    (h : catalogued lib candidate (some digest) = .ok index) :
    catalogued lib candidate' (some digest) = .ok index := by
  obtain ⟨layout, hread, h⟩ := bind_eq_ok_iff.mp h
  obtain ⟨hversion, h⟩ := guard_eq_ok_iff.mp h
  obtain ⟨root, hroot, h⟩ := bind_eq_ok_iff.mp h
  obtain ⟨listed, hlisted, h⟩ := bind_eq_ok_iff.mp h
  obtain ⟨hschema, h⟩ := guard_eq_ok_iff.mp h
  obtain ⟨body, root', hstored, hsize, hdecode⟩ := hadds.readable
  obtain ⟨roots, roots', hroots, hroots', hentries⟩ := hadds.entries
  have hschemas := hadds.schemaVersion
  rw [read_index_eq_ok hopen hroot] at hroots hschemas
  rw [rootOf_eq hstored hdecode] at hroots' hschemas
  have hsame : listed = roots :=
    Json.list.inj ((sequence_eq_ok (checked_eq_ok_iff.mp hlisted)).symm.trans hroots)
  have hread' : candidate'.read lib "oci-layout".toList = .ok layout := by
    rw [Candidate.read, hlayout]
    exact hread
  have hlisted' : checked (sequence (root'.get "manifests")) = .ok roots' := by
    rw [hroots', sequence, checked]
  refine bind_eq_ok_iff.mpr ⟨layout, hread', guard_eq_ok_iff.mpr ⟨hversion, ?_⟩⟩
  refine bind_eq_ok_iff.mpr ⟨root', read_index_ok hopen' hstored hsize hdecode, ?_⟩
  refine bind_eq_ok_iff.mpr ⟨roots', hlisted', guard_eq_ok_iff.mpr ⟨hschemas ▸ hschema, ?_⟩⟩
  rw [hentries.selectDescriptor_eq, ← hsame]
  exact h

end

section
variable (lib : Library) (source : Json) (version : Text) (packages : OrderedDict Text Text)
  (archive : List Member) (expected : Option Text) (info : Inspected)

/-- What the inspection has accepted is well formed and qualified, and it accepts it with any
    larger catalogue. -/
theorem inspection_is_sound (h : inspect lib source version packages archive expected = .ok info) :
    WellFormed archive ∧
    (∃ index ∈ rootsOf lib archive, Qualified lib archive index info ∧
      ∀ digest, expected = some digest → info.digest = digest) ∧
    ∀ digest archive', expected = some digest → AddsToCatalogue lib digest archive archive' →
      inspect lib source version packages archive' expected = .ok info := by
  obtain ⟨candidate, hopen, h⟩ := bind_eq_ok_iff.mp h
  obtain ⟨index, hindex, hinspect⟩ := bind_eq_ok_iff.mp h
  have hwell : WellFormed archive := (openCandidate_eq_ok hopen).1
  have hqualified := inspectIndex_eq_ok hopen hinspect
  obtain ⟨hmem, hexpected⟩ := catalogued_eq_ok hopen hindex
  refine ⟨hwell, ⟨index, hmem, hqualified, fun digest hdigest => ?_⟩, ?_⟩
  · exact Json.str.inj (hqualified.digest.symm.trans (hexpected digest hdigest))
  · rintro digest archive' rfl hadds
    obtain ⟨candidate', hopen'⟩ := exists_openCandidate (hadds.same.wellFormed hwell)
    have hget {name : Text} (hname : name ≠ "index.json".toList) :
        candidate'.members.get? name = candidate.members.get? name := by
      rw [get?_of_openCandidate hopen', get?_of_openCandidate hopen, hadds.same.find?_eq hname]
    have hindex' := hadds.catalogued_eq_ok hopen hopen' (hget (by decide +kernel)) hindex
    have hblob : candidate'.blob lib = candidate.blob lib :=
      blob_congr fun digest => hget (blobName_ne_index digest)
    refine bind_eq_ok_iff.mpr ⟨candidate', hopen', bind_eq_ok_iff.mpr ⟨index, hindex', ?_⟩⟩
    rw [hblob]
    exact hinspect

end

-- ============================================================================
-- A candidate with one layer, an SBOM and a provenance
-- ============================================================================

section
open Json

private def object (fields : List (String × Json)) : Json :=
  .dict (fields.map fun field => (field.1.toList, field.2))

private def string (s : String) : Json := .str s.toList

/-- A digest in hexadecimal digits. -/
private def hex (digest : Nat) : Text := List.leftpad 64 '0' (Nat.toDigits 16 digest)

private def descriptor (digest size : Nat) (fields : List (String × Json)) : Json :=
  object (("digest", .str ("sha256:".toList ++ hex digest)) :: ("size", .int size) :: fields)

mutual
/-- The text of a document whose texts need no escapes. -/
private def compact : Json → List Char
  | .int n => (toString n).toList
  | .str s => '"' :: s ++ ['"']
  | .list items => '[' :: compactItems items ++ [']']
  | .dict entries => '\x7b' :: compactEntries entries ++ ['\x7d']
  | _ => []

private def compactItems : List Json → List Char
  | [] => []
  | [item] => compact item
  | item :: items => compact item ++ ',' :: compactItems items

private def compactEntries : List (List Char × Json) → List Char
  | [] => []
  | [(key, value)] => '"' :: key ++ '"' :: ':' :: compact value
  | (key, value) :: entries =>
      '"' :: key ++ '"' :: ':' :: compact value ++ ',' :: compactEntries entries
end

private def bytesOf (document : Json) : Bytes := encodeAscii (compact document)

private def commit : Json := .str (List.replicate 40 'a')

private def config : Json :=
  object [("os", string "linux"), ("architecture", string "amd64"),
    ("config", object [("Labels", object
      [("org.opencontainers.image.revision", commit),
        ("org.opencontainers.image.source", string "https://git.test/app"),
        ("org.opencontainers.image.version", string "1.0.0")])])]

private def configDigest : Nat :=
  0xd3b553f743b0fc386e1f779d273e37a50ead9fff483c5111201e7c74b3e9a633

private def layerBody : Bytes := encodeAscii "layer".toList

private def layerDigest : Nat :=
  0xdac1d7cfa95021764849fd102524e141488c5e3a90f861dbb5a12d9ac8584f85

private def manifest : Json :=
  object [("config", descriptor configDigest 238 []),
    ("layers", .list [descriptor layerDigest 5 []])]

private def manifestDigest : Nat :=
  0xc6406b2ac0681dd6a9089aadab6235f5beb7c0defb3a13557053a0297eed2317

private def sbom : Json :=
  object [("_type", string "https://in-toto.io/Statement/v1"),
    ("subject", .list [object [("digest", object [("sha256", .str (hex manifestDigest))])]]),
    ("predicateType", string "https://spdx.dev/Document"),
    ("predicate", object [("spdxVersion", string "SPDX-2.3"),
      ("packages", .list [object [("name", string "fastapi"), ("versionInfo", string "1.0")]])])]

private def sbomDigest : Nat :=
  0x7eecc23d2b517104b26584719b8c5f9fcdeea8198aeb5a9ba29e73a664ddf91d

private def provenance : Json :=
  object [("_type", string "https://in-toto.io/Statement/v1"), ("subject", .list []),
    ("predicateType", string "https://slsa.dev/provenance/v1"),
    ("predicate", object [("materials", .list [object
      [("uri", string "https://git.test/app"), ("digest", object [("sha1", commit)])]])])]

private def provenanceDigest : Nat :=
  0x8e36ab75b04096f3d74b3ed7a8e52ae76d074f5c489408b6af6722a036adcdd2

private def statement (digest size : Nat) (type : String) : Json :=
  descriptor digest size [("mediaType", string "application/vnd.in-toto+json"),
    ("annotations", object [("in-toto.io/predicate-type", string type)])]

private def emptyDigest : Nat :=
  0x44136fa355b3678a1146ad16f7e8649e94fb4fc21fe77e8310c060f61caaff8a

private def attestation : Json :=
  object [("config", descriptor emptyDigest 2 [("data", string "e30=")]),
    ("layers", .list [statement sbomDigest 279 "https://spdx.dev/Document",
      statement provenanceDigest 225 "https://slsa.dev/provenance/v1"])]

private def attestationDigest : Nat :=
  0x33f0a2022a5bfdf85145575e26d01b15520f3dde41f862f0f8bab0401e6aa376

private def index : Json :=
  object [("manifests", .list
    [descriptor manifestDigest 211
        [("platform", object [("architecture", string "amd64"), ("os", string "linux")])],
      descriptor attestationDigest 556 [("annotations", object
        [("vnd.docker.reference.type", string "attestation-manifest"),
          ("vnd.docker.reference.digest", .str ("sha256:".toList ++ hex manifestDigest))])]])]

private def indexDigest : Nat :=
  0xec9a0a235ea79ed80a02a344835d830bcb23afd58dfd1feb05fc784648d28b9c

private def catalogue (others : List Json) : Json :=
  object [("schemaVersion", .int 2),
    ("manifests", .list (others ++ [descriptor indexDigest 427 []]))]

private def layout : Json := object [("imageLayoutVersion", string "1.0.0")]

/-- The layer's descriptor in the catalogue, as a registry may have it. -/
private def further : Json := descriptor layerDigest 5 []

private def blobs : List (Bytes × Nat) :=
  [(bytesOf config, configDigest), (layerBody, layerDigest), (bytesOf manifest, manifestDigest),
    (bytesOf sbom, sbomDigest), (bytesOf provenance, provenanceDigest),
    (bytesOf attestation, attestationDigest), (bytesOf index, indexDigest)]

private def file (name : String) (content : Bytes) : Member := ⟨name.toList, .file, content⟩

private def candidateArchive (others : List Json) : List Member :=
  ⟨"blobs".toList, .directory, []⟩ :: file "oci-layout" (bytesOf layout) ::
    file "./index.json" (bytesOf (catalogue others)) ::
    blobs.map fun blob => ⟨"blobs/sha256/".toList ++ hex blob.2, .file, blob.1⟩

private def documents : List Json :=
  [object [], config, manifest, sbom, provenance, attestation, index, layout, catalogue [],
    catalogue [further]]

/-- `json.loads` of the documents -/
private def loadsDocument (body : Bytes) : Except Failure Json :=
  match (documents.findIdx? fun document => bytesOf document = body).bind (documents[·]?) with
  | some document => .ok document
  | none => .error .other

private theorem loadsDocument_unique {body : Bytes} {value : Json}
    (h : loadsDocument body = .ok value) : value.unique = true := by
  have hunique : ∀ document ∈ documents, document.unique = true := by decide +kernel
  unfold loadsDocument at h
  split at h
  · next document hfound =>
    obtain rfl := Except.ok.inj h
    obtain ⟨i, -, hi⟩ := Option.bind_eq_some_iff.mp hfound
    exact hunique document (List.mem_of_getElem? hi)
  · cases h

/-- The library, as far as this candidate needs it. -/
private def candidateLibrary : Library where
  loads := loadsDocument
  loads_unique := loadsDocument_unique
  sha256 body :=
    (((bytesOf (object []), emptyDigest) :: blobs).find? fun blob => blob.1 = body).elim []
      fun blob => hex blob.2
  urlsplit _ := .ok ⟨"https".toList, "git.test".toList, "/app".toList, [], []⟩
  urlunsplit url := url.scheme ++ "://".toList ++ url.netloc ++ url.path
  str value := match value with | .str s => s | _ => []
  finalSigma _ _ := false

private def candidateSource : Json :=
  object [("sha", commit), ("repository", string "https://git.test/app")]

private def candidatePackages : OrderedDict Text Text :=
  ⟨[("fastapi".toList, "1.0".toList)], List.nodup_singleton _⟩

private def inspected (others : List Json) : Except Failure Inspected :=
  inspect candidateLibrary candidateSource "1.0.0".toList candidatePackages
    (candidateArchive others) (some ("sha256:".toList ++ hex indexDigest))

private theorem decode_catalogue {others : List Json} {i : Nat}
    (hindex : (documents.findIdx? fun document =>
      bytesOf document = bytesOf (catalogue others)) = some i)
    (hdocument : documents[i]? = some (catalogue others)) :
    decode candidateLibrary (bytesOf (catalogue others)) = .ok (catalogue others) := by
  have hloads : candidateLibrary.loads (bytesOf (catalogue others)) = .ok (catalogue others) := by
    simp only [candidateLibrary, loadsDocument, hindex, Option.bind_some, hdocument]
  exact bind_eq_ok_iff.mpr ⟨_, hloads, rfl⟩

private theorem catalogue_get (others : List Json) :
    (catalogue others).get "schemaVersion" = .int 2 ∧
      (catalogue others).get "manifests" = .list (others ++ [descriptor indexDigest 427 []]) := by
  constructor <;> simp [catalogue, object, Json.get, Json.get?, List.lookup_cons]

private theorem further_get : further.get "digest" = .str ("sha256:".toList ++ hex layerDigest) := by
  simp [further, descriptor, object, Json.get, Json.get?]

private theorem sameButCatalogue (others others' : List Json) :
    SameButCatalogue (candidateArchive others) (candidateArchive others') := by
  have hsame (files : List Member) : List.Forall₂ Alike files files :=
    List.forall₂_same.mpr fun _ _ => ⟨rfl, rfl, fun _ => rfl⟩
  have hindex (content content' : Bytes) :
      Alike (file "./index.json" content) (file "./index.json" content') := by
    refine ⟨rfl, rfl, fun hne => absurd ?_ hne⟩
    have hentry : dropPrefix "./".toList "./index.json".toList = "index.json".toList := by
      decide +kernel
    exact hentry
  unfold SameButCatalogue candidateArchive
  exact List.rel_append (hsame [_, _]) (.cons (hindex _ _) (hsame _))

private theorem addsToCatalogue_further :
    AddsToCatalogue candidateLibrary ("sha256:".toList ++ hex indexDigest) (candidateArchive [])
      (candidateArchive [further]) := by
  have hstored : stored (candidateArchive []) "index.json".toList =
    some (bytesOf (catalogue [])) := by decide +kernel
  have hstored' : stored (candidateArchive [further]) "index.json".toList =
    some (bytesOf (catalogue [further])) := by decide +kernel
  have hdecode := @decode_catalogue [] 8 (by decide +kernel) rfl
  have hdecode' := @decode_catalogue [further] 9 (by decide +kernel) rfl
  have hroot := rootOf_eq hstored hdecode
  have hroot' := rootOf_eq hstored' hdecode'
  have hother : further.get "digest" ≠ .str ("sha256:".toList ++ hex indexDigest) := by
    rw [further_get, Ne, Json.str.injEq]
    decide +kernel
  constructor
  · exact sameButCatalogue [] [further]
  · exact ⟨_, _, hstored', by decide +kernel, hdecode'⟩
  · rw [hroot, hroot', (catalogue_get []).1, (catalogue_get [further]).1]
  · rw [hroot, hroot']
    exact ⟨_, _, (catalogue_get []).2, (catalogue_get [further]).2,
      .add hother (.keep _ .nil)⟩

theorem inspection_is_sound_further :
    ∃ info, inspected [] = .ok info ∧ WellFormed (candidateArchive []) ∧
      (∃ index ∈ rootsOf candidateLibrary (candidateArchive []),
        Qualified candidateLibrary (candidateArchive []) index info) ∧
      inspected [further] = .ok info := by
  have hok : (inspected []).toOption.isSome = true := by decide +kernel
  cases hinfo : inspected [] with
  | error e =>
      rw [hinfo] at hok
      cases hok
  | ok info =>
      obtain ⟨hwell, ⟨index, hmem, hqualified, -⟩, hfurther⟩ :=
        inspection_is_sound candidateLibrary candidateSource "1.0.0".toList candidatePackages
          (candidateArchive []) _ info hinfo
      exact ⟨info, rfl, hwell, ⟨index, hmem, hqualified⟩,
        hfurther _ _ rfl addsToCatalogue_further⟩

end

end QuickApi.Release
