/-
  QuickApi.Release.Evidence

  How the release scripts read untrusted JSON (`scripts/security_policy.py`):
  bounded texts, objects and lists, and the names and versions of packages.
-/

import QuickApi.Lib.Checked
import QuickApi.Lib.Json
import QuickApi.Lib.PythonText
import QuickApi.Lib.UnicodeCase

namespace QuickApi.Release

open QuickApi.Lib

abbrev Text := List Char

/-- `ValueError(message)` -/
structure ValueError where
  message : Text
deriving DecidableEq, Repr

/-- `raise ValueError(message)` -/
def reject {α : Type} (message : String) : Except ValueError α := .error ⟨message.toList⟩

/-- `text` -/
def text : Json → Except ValueError Text
  | .str s =>
      if strip s = [] ∨ 2048 < s.length then reject "Expected bounded nonempty text." else .ok s
  | _ => reject "Expected bounded nonempty text."

/-- `mapping` -/
def mapping : Json → Except ValueError Json
  | .dict entries => .ok (.dict entries)
  | _ => reject "Expected an object."

/-- `sequence` -/
def sequence : Json → Except ValueError (List Json)
  | .list items => .ok items
  | _ => reject "Expected a list."

theorem text_eq_ok {value : Json} {s : Text} (h : text value = .ok s) : value = .str s := by
  unfold text at h
  split at h
  · split at h
    · cases h
    · rw [Except.ok.inj h]
  · cases h

theorem mapping_eq_ok {value entry : Json} (h : mapping value = .ok entry) : value = entry := by
  unfold mapping at h
  split at h
  · exact Except.ok.inj h
  · cases h

theorem sequence_eq_ok {value : Json} {items : List Json} (h : sequence value = .ok items) :
    value = .list items := by
  unfold sequence at h
  split at h
  · rw [Except.ok.inj h]
  · cases h

-- ============================================================================
-- Packages
-- ============================================================================

/-- `re.sub(r'[-_.]+', '-', name)`; `inside` a run of separators nothing is written. -/
def collapseSeparators : Bool → Text → Text
  | _, [] => []
  | inside, c :: rest =>
      if c = '-' ∨ c = '_' ∨ c = '.' then
        if inside then collapseSeparators true rest else '-' :: collapseSeparators true rest
      else c :: collapseSeparators false rest

/-- `normalize` -/
def normalize (finalSigma : Text → Text → Bool) (name : Text) : Text :=
  lower finalSigma (collapseSeparators false name)

/-- `f'{epoch}'` -/
def epochText (epoch : Nat) : Except ValueError Text :=
  if 10 ^ 4300 ≤ epoch then
    reject "Exceeds the limit (4300 digits) for integer string conversion"
  else .ok (Nat.toDigits 10 epoch)

/-- `package_version` -/
def packageVersion (package : Json) (kind : Text) : Except ValueError Text := do
  let version ← text (package.get "Version")
  if kind = "debian".toList then
    match package.getD "Epoch" (.int 0) with
    | .int (.ofNat epoch) =>
        let release := package.get "Release"
        let version ←
          if release.isNull then pure version
          else (fun release => version ++ '-' :: release) <$> text release
        if epoch = 0 then pure version
        else (fun epoch => epoch ++ ':' :: version) <$> epochText epoch
    | _ => reject "Invalid Debian package epoch."
  else pure version

end QuickApi.Release
