/-
  QuickApi.HttpPolicy.Sanitization

  `HeaderSanitizationASGIMiddleware`
  (`app/common/middleware/request_header_sanitization.py`): a request with a
  forbidden, repeated or malformed header is rejected, and headers that are not
  allowed are dropped.
-/

import QuickApi.HttpPolicy.TrustedProxy
import QuickApi.Lib.Readable

namespace QuickApi.HttpPolicy

open QuickApi.Lib

/-- `KEY_ERROR` of `app/common/models/idempotency_model.py` -/
def keyError : List Char :=
  "Idempotency-Key must be one opaque 1–128 character printable ASCII value without whitespace or commas.".toList

structure HTTPException where
  statusCode : Nat
  detail : List Char
deriving DecidableEq, Repr

/-- `HTTPException(status_code=status.HTTP_400_BAD_REQUEST, detail=detail)` -/
def badRequest (detail : List Char) : HTTPException := ⟨400, detail⟩

/-- `ALLOWLIST` -/
def allowlist : List (List Char) :=
  ["host".toList, "connection".toList, "content-type".toList, "content-length".toList,
    "accept".toList, "accept-language".toList, "accept-encoding".toList, "user-agent".toList,
    "referer".toList, "origin".toList, "access-control-request-method".toList,
    "access-control-request-headers".toList, "cookie".toList, "sec-fetch-site".toList,
    "sec-fetch-mode".toList, "sec-fetch-dest".toList, "sec-ch-ua".toList,
    "sec-ch-ua-mobile".toList, "sec-ch-ua-platform".toList, "authorization".toList,
    "x-csrf-token".toList, "x-request-id".toList, "x-api-key".toList, "idempotency-key".toList]

/-- A character of `[A-Za-z0-9-]`. -/
def isNameChar (c : Char) : Bool :=
  ('A' ≤ c && c ≤ 'Z') || ('a' ≤ c && c ≤ 'z') || ('0' ≤ c && c ≤ '9') || c == '-'

/-- `VALID_NAME_RE.match(name)`; `$` also matches before a newline at the end. -/
def validName (name : List Char) : Bool :=
  let body := if name.getLast? = some '\n' then name.dropLast else name
  !body.isEmpty && body.all isNameChar

/-- The middleware, with the headers that the application allows besides. -/
structure HeaderSanitization where
  extraAllowed : List (List Char)

namespace HeaderSanitization

variable (mw : HeaderSanitization)

/-- `self.allowed` -/
def allowed : List (List Char) := allowlist ++ mw.extraAllowed

/-- `seen` and `cleaned_headers` -/
structure Cleaning where
  seen : List (List Char)
  cleanedHeaders : List (Bytes × Bytes)

/-- The body of the loop over the headers. -/
def cleanHeader (st : Cleaning) (header : Bytes × Bytes) : Except HTTPException Cleaning :=
  match decodeAscii header.1, decodeAscii header.2 with
  | some rawName, some value =>
      let name := lowerAscii rawName
      if name ∈ forbiddenHeaders then
        .error (badRequest ("Header '".toList ++ name ++ "' is not allowed.".toList))
      else if name ∈ st.seen then
        .error (badRequest (if name = "idempotency-key".toList then keyError
          else "Duplicate header '".toList ++ name ++ "' is not permitted.".toList))
      else
        let seen := name :: st.seen
        if !validName name then
          .error (badRequest
            ("Header name '".toList ++ name ++ "' contains invalid characters.".toList))
        else if '\r' ∈ value ∨ '\n' ∈ value then
          .error (badRequest "Header value contains prohibited control characters.".toList)
        else if name ∉ mw.allowed then .ok { st with seen }
        else .ok { seen, cleanedHeaders := st.cleanedHeaders ++ [header] }
  | _, _ => .error (badRequest "Header contains non-ASCII bytes.".toList)

/-- The scope that the next application is called with, or the exception behind the response. -/
def run (scope : Scope) : Except HTTPException Scope :=
  if scope.type ≠ .http then .ok scope
  else do
    let st ← scope.headers.foldlM mw.cleanHeader ⟨[], []⟩
    return { scope with headers := st.cleanedHeaders }

-- ============================================================================
-- What gets through
-- ============================================================================

variable {mw}

/-- A header is rejected, or its name is ASCII and not forbidden. -/
theorem cleanHeader_cases (mw : HeaderSanitization) (st : Cleaning) (header : Bytes × Bytes) :
    (∃ detail, mw.cleanHeader st header = .error (badRequest detail)) ∨
    ∃ rawName st', decodeAscii header.1 = some rawName ∧ lowerAscii rawName ∉ forbiddenHeaders ∧
      mw.cleanHeader st header = .ok st' ∧ (st'.cleanedHeaders = st.cleanedHeaders ∨
        st'.cleanedHeaders = st.cleanedHeaders ++ [header]) := by
  unfold cleanHeader
  split
  · next rawName value hname hvalue =>
      dsimp only
      split
      · exact .inl ⟨_, rfl⟩
      · next hforbidden =>
          split
          · exact .inl ⟨_, rfl⟩
          · split
            · exact .inl ⟨_, rfl⟩
            · split
              · exact .inl ⟨_, rfl⟩
              · split
                · exact .inr ⟨rawName, _, hname, hforbidden, rfl, .inl rfl⟩
                · exact .inr ⟨rawName, _, hname, hforbidden, rfl, .inr rfl⟩
  · exact .inl ⟨_, rfl⟩

/-- The name of a header is forbidden, in any spelling. -/
def Forbidden (header : Bytes × Bytes) : Prop :=
  lowerBytes header.1 ∈ forbiddenHeaders.map encodeAscii

theorem encodeAscii_of_decodeAscii {data : Bytes} {text : List Char}
    (h : decodeAscii data = some text) : encodeAscii text = data := by
  simp only [decodeAscii, Option.ite_none_right_eq_some, Option.some.injEq] at h
  obtain ⟨hascii, rfl⟩ := h
  rw [List.all_eq_true] at hascii
  have hbyte : ∀ n : Fin 128, (Char.ofNat n.val).toNat = n.val := by decide +kernel
  rw [encodeAscii, List.map_map]
  conv_rhs => rw [← List.map_id data]
  refine List.map_congr_left fun b hb => ?_
  have hb' : (Char.ofNat b.toNat).toNat = b.toNat :=
    hbyte ⟨b.toNat, of_decide_eq_true (hascii b hb)⟩
  simp [hb']

/-- A text is among some ASCII texts if and only if its bytes are among theirs. -/
theorem mem_iff_encoded {names : List (List Char)} {data : Bytes} {text : List Char}
    (hnames : ∀ name ∈ names, decodeAscii (encodeAscii name) = some name)
    (hdata : decodeAscii data = some text) :
    text ∈ names ↔ data ∈ names.map encodeAscii := by
  constructor
  · intro h
    exact List.mem_map.mpr ⟨text, h, encodeAscii_of_decodeAscii hdata⟩
  · intro h
    obtain ⟨name, hname, hencoded⟩ := List.mem_map.mp h
    have hdecoded := hnames name hname
    rw [hencoded, hdata] at hdecoded
    exact Option.some.inj hdecoded ▸ hname

theorem forbiddenHeaders_ascii :
    ∀ name ∈ forbiddenHeaders, decodeAscii (encodeAscii name) = some name := by
  decide +kernel

theorem forbidden_iff {header : Bytes × Bytes} {rawName : List Char}
    (hname : decodeAscii header.1 = some rawName) :
    Forbidden header ↔ lowerAscii rawName ∈ forbiddenHeaders :=
  (mem_iff_encoded forbiddenHeaders_ascii (decodeAscii_lowerBytes hname)).symm

/-- The loop ends in a bad request, or keeps no forbidden header and met none. -/
theorem foldlM_cleanHeader (mw : HeaderSanitization) (headers : List (Bytes × Bytes))
    (st : Cleaning) :
    (∃ detail, headers.foldlM mw.cleanHeader st = .error (badRequest detail)) ∨
    ∃ st', headers.foldlM mw.cleanHeader st = .ok st' ∧ (∀ header ∈ headers, ¬ Forbidden header) ∧
      ∀ header ∈ st'.cleanedHeaders, header ∈ st.cleanedHeaders ∨ header ∈ headers := by
  induction headers generalizing st with
  | nil => exact .inr ⟨st, rfl, by simp, fun header h => .inl h⟩
  | cons header headers ih =>
      rw [List.foldlM_cons]
      obtain ⟨detail, herror⟩ | ⟨rawName, st', hname, hforbidden, hok, hcleaned⟩ :=
        cleanHeader_cases mw st header
      · exact .inl ⟨detail, by rw [herror]; rfl⟩
      · rw [hok]
        obtain ⟨detail, herror⟩ | ⟨st'', hfold, hnone, hkept⟩ := ih st'
        · exact .inl ⟨detail, herror⟩
        · refine .inr ⟨st'', hfold, ?_, fun kept hk => ?_⟩
          · rintro h (_ | ⟨_, hh⟩)
            · exact fun h => hforbidden ((forbidden_iff hname).mp h)
            · exact hnone h hh
          · obtain hk | hk := hkept kept hk
            · obtain heq | heq := hcleaned
              · rw [heq] at hk
                exact .inl hk
              · rw [heq, List.mem_append, List.mem_singleton] at hk
                obtain hk | rfl := hk
                · exact .inl hk
                · exact .inr List.mem_cons_self
            · exact .inr (List.mem_cons_of_mem _ hk)

/-- A request is rejected, or nothing in it is forbidden and only headers are dropped. -/
theorem run_cases (mw : HeaderSanitization) {scope : Scope} (hhttp : scope.type = .http) :
    (∃ detail, mw.run scope = .error (badRequest detail)) ∨
    ∃ headers, mw.run scope = .ok { scope with headers } ∧
      (∀ header ∈ scope.headers, ¬ Forbidden header) ∧ ∀ header ∈ headers, header ∈ scope.headers := by
  rw [run, if_neg (by simp [hhttp])]
  obtain ⟨detail, herror⟩ | ⟨st, hok, hnone, hkept⟩ := foldlM_cleanHeader mw scope.headers ⟨[], []⟩
  · exact .inl ⟨detail, by rw [herror]; rfl⟩
  · refine .inr ⟨st.cleanedHeaders, by rw [hok]; rfl, hnone, fun header h => ?_⟩
    obtain h | h := hkept header h
    · cases h
    · exact h

end HeaderSanitization

end QuickApi.HttpPolicy
