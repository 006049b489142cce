/-
  QuickApi.Release.Candidate

  The archive of a release candidate (`Candidate` in `scripts/release_oci.py`):
  which members it may have, and the blobs that descriptors name.
-/

import QuickApi.Lib.Base64
import QuickApi.Lib.OrderedDict
import QuickApi.Release.Evidence

namespace QuickApi.Release

open QuickApi.Lib

-- ============================================================================
-- What is raised, and what Python's library does
-- ============================================================================

/-- What `inspect` can raise. -/
inductive Failure where
  | valueError (e : ValueError)
  | keyError (key : Text)
  /-- `TypeError`, of a list or a dict that is looked up in a set -/
  | typeError
  /-- whatever else the library raises -/
  | other
deriving DecidableEq, Repr

def checked {α : Type} : Except ValueError α → Except Failure α
  | .ok a => .ok a
  | .error e => .error (.valueError e)

/-- `raise ValueError(message)` -/
def refuse {α : Type} (message : String) : Except Failure α := .error (.valueError ⟨message.toList⟩)

/-- The parts of a URL. -/
structure Url where
  scheme : Text
  netloc : Text
  path : Text
  query : Text
  fragment : Text

/-- The functions of Python's library.  Nothing is assumed of them but what `unique_fields` sees
    to. -/
structure Library where
  /-- `json.loads` with `unique_fields` and `invalid_constant` -/
  loads : Bytes → Except Failure Json
  loads_unique : ∀ {body value}, loads body = .ok value → value.unique = true
  /-- `hashlib.sha256(body).hexdigest()` -/
  sha256 : Bytes → Text
  urlsplit : Text → Except Failure Url
  urlunsplit : Url → Text
  /-- `str(value)` -/
  str : Json → Text
  /-- where `lower` writes a final sigma -/
  finalSigma : Text → Text → Bool

/-- `text.removeprefix(start)` -/
def dropPrefix (start text : Text) : Text :=
  if start.isPrefixOf text then text.drop start.length else text

/-- `text.removesuffix(tail)` -/
def dropSuffix (tail text : Text) : Text :=
  if tail.isSuffixOf text then text.take (text.length - tail.length) else text

-- ============================================================================
-- Members
-- ============================================================================

inductive MemberKind where
  | file
  | directory
  | other
deriving DecidableEq, Repr

/-- A member of the archive.  A file has as many bytes as its header says. -/
structure Member where
  name : Text
  kind : MemberKind
  content : Bytes
deriving DecidableEq

def Member.size (member : Member) : Nat := member.content.length

def isHexDigest (hex : Text) : Bool :=
  hex.length == 64 && hex.all fun c => ('a' ≤ c && c ≤ 'f') || ('0' ≤ c && c ≤ '9')

/-- `DIGEST.fullmatch(digest)` -/
def isDigest (digest : Text) : Bool :=
  "sha256:".toList.isPrefixOf digest && isHexDigest (digest.drop 7)

/-- The digest of a descriptor whose blob has been read. -/
def digestOf (descriptor : Json) : Text :=
  match descriptor.get "digest" with
  | .str digest => digest
  | _ => []

/-- The name of the member that stores the blob of a digest. -/
def blobName (digest : Text) : Text := "blobs/sha256/".toList ++ digest.drop 7

/-- The names that members may have. -/
def allowlisted (name : Text) : Bool :=
  name == "index.json".toList || name == "oci-layout".toList ||
    ("blobs/sha256/".toList.isPrefixOf name && isHexDigest (name.drop 13))

/-- The name of a member in the candidate. -/
def Member.entryName (member : Member) : Text := dropPrefix "./".toList member.name

/-- One of the two directories of blobs. -/
def Member.isBlobDirectory (member : Member) : Bool :=
  member.kind = .directory &&
    (member.entryName.rdropWhile (· == '/')) ∈ ["blobs".toList, "blobs/sha256".toList]

/-- The members of a candidate, by their names. -/
structure Candidate where
  members : OrderedDict Text Member

/-- The body of the loop over the members. -/
def addMember (candidate : Candidate) (member : Member) : Except Failure Candidate :=
  if member.isBlobDirectory then .ok candidate
  else if member.kind ≠ .file ∨ !allowlisted member.entryName ∨
      member.entryName ∈ candidate.members.keys then
    refuse "Unsafe, duplicate or unsupported OCI archive entry."
  else .ok ⟨candidate.members.set member.entryName member⟩

/-- `Candidate(path)` -/
def openCandidate (archive : List Member) : Except Failure Candidate :=
  archive.foldlM addMember ⟨.empty⟩

-- ============================================================================
-- Documents and blobs
-- ============================================================================

section
variable (lib : Library)

/-- `decode` -/
def decode (body : Bytes) : Except Failure Json := do
  let value ← lib.loads body
  checked (mapping value)

def metadataLimit : Nat := 16 * 1024 * 1024

def inlineLimit : Nat := 24 * 1024 * 1024

/-- `source_uri` -/
def sourceUri (uri : Text) : Except Failure Text := do
  let parsed ← lib.urlsplit (dropPrefix "git+".toList uri)
  pure (lib.urlunsplit
    { parsed with path := dropSuffix ".git".toList parsed.path, query := [], fragment := [] })

namespace Candidate

/-- `read` -/
def read (candidate : Candidate) (name : Text) : Except Failure Json :=
  match candidate.members.get? name with
  | none => .error (.keyError name)
  | some member =>
      if metadataLimit < member.size then refuse "Oversized OCI metadata."
      else decode lib member.content

/-- The bytes in the descriptor itself. -/
def inlineBody (descriptor : Json) : Except Failure Bytes :=
  match descriptor.get "data" with
  | .str encoded =>
      if encoded = [] ∨ inlineLimit < encoded.length then refuse "Oversized inline OCI metadata."
      else
        match b64decode encoded with
        | .error e => refuse e.message
        | .ok body => .ok body
  | _ => refuse "Oversized inline OCI metadata."

/-- `blob`; nothing is read where `metadata` does not hold. -/
def blob (candidate : Candidate) (metadata : Bool) (raw : Json) : Except Failure Json := do
  let descriptor ← checked (mapping raw)
  let digest ← checked (text (descriptor.get "digest"))
  if !isDigest digest then refuse "Invalid OCI descriptor digest."
  else
    match candidate.members.get? (blobName digest) with
    | none => do
        let body ← inlineBody descriptor
        if !(Json.int body.length).eq (descriptor.get "size") ∨
            "sha256:".toList ++ lib.sha256 body ≠ digest then
          refuse "Inline OCI descriptor size/digest differs."
        else if metadata then decode lib body
        else pure (.dict [])
    | some member =>
        if !(Json.int member.size).eq (descriptor.get "size") then
          refuse "OCI descriptor size differs."
        else if "sha256:".toList ++ lib.sha256 member.content ≠ digest then
          refuse "OCI blob digest differs."
        else if metadata then candidate.read lib (blobName digest)
        else pure (.dict [])

end Candidate

end

end QuickApi.Release
