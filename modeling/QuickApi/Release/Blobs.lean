/-
  QuickApi.Release.Blobs

  What is known of the members of a candidate that opens, and of a blob that is
  read from it: it has the size and the digest of its descriptor.
-/

import QuickApi.Lib.Checked
import QuickApi.Release.Candidate

namespace QuickApi.Release

open QuickApi.Lib Checked

-- ============================================================================
-- Blobs and documents
-- ============================================================================

section
variable (lib : Library) (archive : List Member)

/-- The members of the archive, apart from the directories of blobs. -/
def filesOf : List Member := archive.filter fun m => !m.isBlobDirectory

/-- The content of the file with this name. -/
def stored (name : Text) : Option Bytes :=
  ((filesOf archive).find? fun m => m.entryName = name).map Member.content

/-- The content behind a descriptor: that of a member, or else the bytes in the descriptor. -/
def contentOf (descriptor : Json) : Option Bytes :=
  match stored archive (blobName (digestOf descriptor)), descriptor.get "data" with
  | some content, _ => some content
  | none, .str encoded => (b64decode encoded).toOption
  | none, _ => none

/-- The document behind a descriptor. -/
def documentOf (descriptor : Json) : Json :=
  ((contentOf archive descriptor).bind fun body => (lib.loads body).toOption).getD .null

/-- The content behind a descriptor has the size and the digest that the descriptor gives. -/
def Verified (descriptor : Json) : Prop :=
  ∃ content, contentOf archive descriptor = some content ∧
    (Json.int content.length).eq (descriptor.get "size") = true ∧
    descriptor.get "digest" = .str ("sha256:".toList ++ lib.sha256 content)

/-- Every member is a regular file with a name of its own that is allowlisted. -/
structure WellFormed : Prop where
  allowlisted : ∀ m ∈ filesOf archive, m.kind = .file ∧ allowlisted m.entryName = true
  distinct : ((filesOf archive).map Member.entryName).Nodup

end

-- ============================================================================
-- Members
-- ============================================================================

variable {lib : Library} {archive : List Member}

theorem checked_eq_ok_iff {α : Type} {x : Except ValueError α} {a : α} :
    checked x = .ok a ↔ x = .ok a := by
  cases x <;> simp [checked]

/-- The loop over the members appends them. -/
theorem foldlM_addMember_eq_ok {candidate candidate' : Candidate}
    (h : archive.foldlM addMember candidate = .ok candidate') :
    (∀ m ∈ filesOf archive, m.kind = .file ∧ allowlisted m.entryName = true) ∧
      candidate'.members.entries =
        candidate.members.entries ++ (filesOf archive).map fun m => (m.entryName, m) := by
  induction archive generalizing candidate with
  | nil =>
      obtain rfl := Except.ok.inj h
      simp [filesOf]
  | cons m archive ih =>
      rw [List.foldlM_cons] at h
      obtain ⟨mid, hmid, h⟩ := bind_eq_ok_iff.mp h
      obtain ⟨hall, hentries⟩ := ih h
      unfold addMember at hmid
      split at hmid
      · next hdir =>
        obtain rfl := Except.ok.inj hmid
        have hfiles : filesOf (m :: archive) = filesOf archive :=
          List.filter_cons_of_neg (by simpa using hdir)
        rw [hfiles]
        exact ⟨hall, hentries⟩
      · next hdir =>
        have hfiles : filesOf (m :: archive) = m :: filesOf archive :=
          List.filter_cons_of_pos (by simpa using hdir)
        obtain ⟨hcheck, hmid⟩ := guard_eq_ok_iff.mp hmid
        obtain rfl := Except.ok.inj hmid
        simp only [not_or, not_not, Bool.not_eq_true', Bool.not_eq_false] at hcheck
        obtain ⟨hkind, hallowed, hnew⟩ := hcheck
        rw [hfiles]
        refine ⟨List.forall_mem_cons.mpr ⟨⟨hkind, hallowed⟩, hall⟩, ?_⟩
        rw [hentries, OrderedDict.set_entries_of_new hnew]
        simp

/-- The members of the candidate are the files of the archive, by their names. -/
theorem openCandidate_eq_ok {candidate : Candidate} (h : openCandidate archive = .ok candidate) :
    WellFormed archive ∧
      candidate.members.entries = (filesOf archive).map fun m => (m.entryName, m) := by
  obtain ⟨hall, hentries⟩ := foldlM_addMember_eq_ok h
  have hentries : candidate.members.entries = (filesOf archive).map fun m => (m.entryName, m) :=
    hentries
  refine ⟨⟨hall, ?_⟩, hentries⟩
  have hnodup := candidate.members.nodupKeys
  rw [hentries, List.map_map] at hnodup
  exact hnodup

/-- A well-formed archive opens. -/
theorem exists_openCandidate (h : WellFormed archive) :
    ∃ candidate, openCandidate archive = .ok candidate := by
  suffices haux : ∀ (archive : List Member) (candidate : Candidate),
      (∀ m ∈ filesOf archive, m.kind = .file ∧ allowlisted m.entryName = true) →
      (candidate.members.keys ++ (filesOf archive).map Member.entryName).Nodup →
      ∃ candidate', archive.foldlM addMember candidate = .ok candidate' from
    haux archive ⟨.empty⟩ h.allowlisted h.distinct
  intro archive
  induction archive with
  | nil => exact fun candidate _ _ => ⟨candidate, rfl⟩
  | cons m archive ih =>
      intro candidate hall hnodup
      rw [List.foldlM_cons]
      by_cases hdir : m.isBlobDirectory = true
      · have hfiles : filesOf (m :: archive) = filesOf archive :=
          List.filter_cons_of_neg (by simpa using hdir)
        rw [hfiles] at hall hnodup
        rw [addMember, if_pos hdir]
        exact ih candidate hall hnodup
      · have hfiles : filesOf (m :: archive) = m :: filesOf archive :=
          List.filter_cons_of_pos (by simpa using hdir)
        rw [hfiles] at hall hnodup
        obtain ⟨⟨hkind, hallowed⟩, hall⟩ := List.forall_mem_cons.mp hall
        rw [List.map_cons, List.append_cons] at hnodup
        have hnew : m.entryName ∉ candidate.members.keys := fun hmem =>
          (List.nodup_append.mp (List.nodup_append.mp hnodup).1).2.2 _ hmem _
            (List.mem_singleton_self _) rfl
        rw [addMember, if_neg hdir, if_neg (by simp [hkind, hallowed, hnew])]
        refine ih _ hall ?_
        have hkeys : (candidate.members.set m.entryName m).keys =
            candidate.members.keys ++ [m.entryName] := by
          simp only [OrderedDict.keys, OrderedDict.set_entries_of_new hnew, List.map_append,
            List.map_singleton]
        rw [hkeys]
        exact hnodup

theorem get?_of_openCandidate {candidate : Candidate} (h : openCandidate archive = .ok candidate)
    (name : Text) :
    candidate.members.get? name = (filesOf archive).find? fun m => m.entryName = name := by
  obtain ⟨-, hentries⟩ := openCandidate_eq_ok h
  rw [OrderedDict.get?_eq_find?, hentries, List.find?_map, Option.map_map]
  exact Option.map_id'

-- ============================================================================
-- Blobs
-- ============================================================================

theorem documentOf_eq {descriptor doc : Json} {content : Bytes}
    (hcontent : contentOf archive descriptor = some content)
    (hdecode : decode lib content = .ok doc) : documentOf lib archive descriptor = doc := by
  obtain ⟨value, hvalue, hmapping⟩ := bind_eq_ok_iff.mp hdecode
  obtain rfl := mapping_eq_ok (checked_eq_ok_iff.mp hmapping)
  simp [documentOf, hcontent, hvalue, Except.toOption]

theorem documentOf_unique (lib : Library) (archive : List Member) (descriptor : Json) :
    (documentOf lib archive descriptor).unique = true := by
  unfold documentOf
  cases hbody : contentOf archive descriptor with
  | none => rfl
  | some body =>
      simp only [Option.bind_some]
      cases hvalue : lib.loads body with
      | error e => rfl
      | ok value => exact lib.loads_unique hvalue

theorem inlineBody_eq_ok {descriptor : Json} {body : Bytes}
    (h : Candidate.inlineBody descriptor = .ok body) :
    ∃ encoded, descriptor.get "data" = .str encoded ∧ b64decode encoded = .ok body := by
  unfold Candidate.inlineBody at h
  split at h
  · next encoded hdata =>
    obtain ⟨-, h⟩ := guard_eq_ok_iff.mp h
    split at h
    · cases h
    · next hbody =>
      obtain rfl := Except.ok.inj h
      exact ⟨encoded, hdata, hbody⟩
  · cases h

/-- The blob of a descriptor is verified; where it is metadata, its document is read. -/
theorem blob_eq_ok {candidate : Candidate} (hopen : openCandidate archive = .ok candidate)
    {metadata : Bool} {raw doc : Json} (h : candidate.blob lib metadata raw = .ok doc) :
    Verified lib archive raw ∧ (metadata = true → documentOf lib archive raw = doc) := by
  obtain ⟨descriptor, hmapping, h⟩ := bind_eq_ok_iff.mp h
  obtain rfl := mapping_eq_ok (checked_eq_ok_iff.mp hmapping)
  obtain ⟨digest, hdigest, h⟩ := bind_eq_ok_iff.mp h
  have hdigest : raw.get "digest" = .str digest := text_eq_ok (checked_eq_ok_iff.mp hdigest)
  have hname : digestOf raw = digest := by rw [digestOf, hdigest]
  obtain ⟨-, h⟩ := guard_eq_ok_iff.mp h
  have hstored : (candidate.members.get? (blobName digest)).map Member.content =
      stored archive (blobName digest) := by
    rw [get?_of_openCandidate hopen, stored]
  -- the two forms of storage
  cases hmember : candidate.members.get? (blobName digest) with
  | none =>
      simp only [hmember] at h
      obtain ⟨body, hbody, h⟩ := bind_eq_ok_iff.mp h
      obtain ⟨encoded, hdata, hdecoded⟩ := inlineBody_eq_ok hbody
      obtain ⟨hcheck, h⟩ := guard_eq_ok_iff.mp h
      simp only [not_or, not_not, Bool.not_eq_true', Bool.not_eq_false] at hcheck
      have hcontent : contentOf archive raw = some body := by
        rw [contentOf, hname, ← hstored, hmember, hdata]
        simp [hdecoded, Except.toOption]
      refine ⟨⟨body, hcontent, hcheck.1, hcheck.2 ▸ hdigest⟩, ?_⟩
      rintro rfl
      exact documentOf_eq hcontent h
  | some member =>
      simp only [hmember] at h
      obtain ⟨hsize, h⟩ := guard_eq_ok_iff.mp h
      obtain ⟨hhash, h⟩ := guard_eq_ok_iff.mp h
      simp only [Bool.not_eq_true', Bool.not_eq_false] at hsize
      have hcontent : contentOf archive raw = some member.content := by
        rw [contentOf, hname, ← hstored, hmember]
        rfl
      refine ⟨⟨member.content, hcontent, hsize, not_not.mp hhash ▸ hdigest⟩, ?_⟩
      rintro rfl
      have h : candidate.read lib (blobName digest) = .ok doc := h
      simp only [Candidate.read, hmember] at h
      obtain ⟨-, h⟩ := guard_eq_ok_iff.mp h
      exact documentOf_eq hcontent h

end QuickApi.Release
