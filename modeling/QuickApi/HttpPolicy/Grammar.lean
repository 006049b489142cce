/-
  QuickApi.HttpPolicy.Grammar

  The grammar of the headers that pass the sanitization, in terms of the raw
  bytes, and how far the middleware accepts exactly this grammar: `$` in the
  pattern of a name also matches before a newline at its end.
-/

import QuickApi.HttpPolicy.Sanitization

namespace QuickApi.HttpPolicy

open QuickApi.Lib

-- ============================================================================
-- The grammar
-- ============================================================================

/-- An ASCII letter, a digit or a hyphen. -/
def isNameByte (b : UInt8) : Bool :=
  (65 ≤ b && b ≤ 90) || (97 ≤ b && b ≤ 122) || (48 ≤ b && b ≤ 57) || b == 45

/-- A non-empty string of ASCII letters, digits and hyphens. -/
def isName (name : Bytes) : Bool := !name.isEmpty && name.all isNameByte

/-- Such a string, possibly with one newline behind it. -/
def isNameLine (name : Bytes) : Bool :=
  isName (if name.getLast? = some 10 then name.dropLast else name)

namespace HeaderSanitization

/-- One header is ASCII, its name is valid and not forbidden, its value has no line break. -/
structure HeaderOk (valid : Bytes → Bool) (header : Bytes × Bytes) : Prop where
  asciiName : header.1.all (· < 128)
  asciiValue : header.2.all (· < 128)
  validName : valid header.1
  notForbidden : ¬ Forbidden header
  noReturn : 13 ∉ header.2
  noNewline : 10 ∉ header.2

/-- Every header is in order, and no name occurs twice in any spelling. -/
structure Conforms (valid : Bytes → Bool) (headers : List (Bytes × Bytes)) : Prop where
  each : ∀ header ∈ headers, HeaderOk valid header
  once : (headers.map fun header => lowerBytes header.1).Nodup

/-- The lower-cased name is in the allowlist. -/
def allows (mw : HeaderSanitization) (header : Bytes × Bytes) : Bool :=
  mw.allowed.any fun name => decodeAscii (lowerBytes header.1) = some name

-- ============================================================================
-- Bytes and the text they denote
-- ============================================================================

/-- What the checks of a header ask of one character, they ask of its byte. -/
theorem byte_checks {b : UInt8} (h : b < 128) :
    isNameChar (Char.ofNat b.toNat).toLower = isNameByte b ∧
      ((Char.ofNat b.toNat).toLower = '\n' ↔ b = 10) ∧
      (Char.ofNat b.toNat = '\n' ↔ b = 10) ∧ (Char.ofNat b.toNat = '\r' ↔ b = 13) := by
  have hbyte : ∀ n : Fin 128,
      isNameChar (Char.ofNat n.val).toLower = isNameByte (UInt8.ofNat n.val) ∧
      ((Char.ofNat n.val).toLower = '\n' ↔ UInt8.ofNat n.val = 10) ∧
      (Char.ofNat n.val = '\n' ↔ UInt8.ofNat n.val = 10) ∧
      (Char.ofNat n.val = '\r' ↔ UInt8.ofNat n.val = 13) := by decide +kernel
  simpa using hbyte ⟨b.toNat, h⟩

/-- The pattern of a name reads the lower-cased text as the grammar reads the bytes. -/
theorem validName_lowerAscii {data : Bytes} {text : List Char}
    (h : decodeAscii data = some text) : validName (lowerAscii text) = isNameLine data := by
  simp only [decodeAscii, Option.ite_none_right_eq_some, Option.some.injEq] at h
  obtain ⟨hascii, rfl⟩ := h
  have hall : ∀ b ∈ data, b < 128 := by simpa using hascii
  have hlast : (lowerAscii (data.map fun b => Char.ofNat b.toNat)).getLast? = some '\n' ↔
      data.getLast? = some 10 := by
    rw [lowerAscii, List.map_map, List.getLast?_map, Option.map_eq_some_iff]
    constructor
    · rintro ⟨b, hb, heq⟩
      rwa [(byte_checks (hall b (List.mem_of_getLast? hb))).2.1.mp heq] at hb
    · intro hb
      exact ⟨10, hb, by decide⟩
  have hbody : ∀ body : Bytes, (∀ b ∈ body, b < 128) →
      (!(lowerAscii (body.map fun b => Char.ofNat b.toNat)).isEmpty &&
        (lowerAscii (body.map fun b => Char.ofNat b.toNat)).all isNameChar) = isName body := by
    intro body hb
    have hchars : (lowerAscii (body.map fun b => Char.ofNat b.toNat)).all isNameChar =
        body.all isNameByte := by
      rw [lowerAscii, List.map_map, List.all_map, Bool.eq_iff_iff, List.all_eq_true,
        List.all_eq_true]
      exact forall₂_congr fun b hmem => by simp [(byte_checks (hb b hmem)).1]
    rw [hchars, isName]
    simp [lowerAscii]
  unfold validName isNameLine
  by_cases hnewline : data.getLast? = some 10
  · rw [if_pos hnewline, if_pos (hlast.mpr hnewline)]
    have hdrop : (lowerAscii (data.map fun b => Char.ofNat b.toNat)).dropLast =
        lowerAscii (data.dropLast.map fun b => Char.ofNat b.toNat) := by
      simp [lowerAscii, List.map_dropLast]
    rw [hdrop]
    exact hbody _ fun b hb => hall b (List.dropLast_subset _ hb)
  · rw [if_neg hnewline, if_neg (hlast.not.mpr hnewline)]
    exact hbody _ hall

theorem char_mem_decoded {data : Bytes} {text : List Char} {c : Char} {b : UInt8}
    (h : decodeAscii data = some text)
    (hbyte : ∀ b' : UInt8, b' < 128 → (Char.ofNat b'.toNat = c ↔ b' = b)) :
    c ∈ text ↔ b ∈ data := by
  simp only [decodeAscii, Option.ite_none_right_eq_some, Option.some.injEq] at h
  obtain ⟨hascii, rfl⟩ := h
  have hall : ∀ b ∈ data, b < 128 := by simpa using hascii
  rw [List.mem_map]
  constructor
  · rintro ⟨b', hb', heq⟩
    rwa [(hbyte b' (hall b' hb')).mp heq] at hb'
  · intro hb
    exact ⟨b, hb, (hbyte b (hall b hb)).mpr rfl⟩

-- ============================================================================
-- The loop
-- ============================================================================

/-- No header before had the name. -/
def Fresh (st : Cleaning) (header : Bytes × Bytes) : Prop :=
  lowerBytes header.1 ∉ st.seen.map encodeAscii

/-- A header is recorded, and kept if it is allowed. -/
structure Recorded (mw : HeaderSanitization) (st : Cleaning) (header : Bytes × Bytes)
    (st' : Cleaning) : Prop where
  seen : st'.seen.map encodeAscii = lowerBytes header.1 :: st.seen.map encodeAscii
  ascii : ∀ name ∈ st'.seen, decodeAscii (encodeAscii name) = some name
  cleaned : st'.cleanedHeaders =
    st.cleanedHeaders ++ if mw.allows header then [header] else []

theorem decodeAscii_isSome {data : Bytes} : (∃ text, decodeAscii data = some text) ↔
    data.all (· < 128) := by
  unfold decodeAscii
  split
  · next h => simp [h]
  · next h => simp [h]

theorem allows_eq (mw : HeaderSanitization) {header : Bytes × Bytes} {rawName : List Char}
    (hname : decodeAscii header.1 = some rawName) :
    mw.allows header = decide (lowerAscii rawName ∈ mw.allowed) := by
  rw [allows, decodeAscii_lowerBytes hname, Bool.eq_iff_iff]
  simp

/-- The body of the loop accepts exactly the headers that are in order and not repeated. -/
theorem cleanHeader_spec (mw : HeaderSanitization) (st : Cleaning) (header : Bytes × Bytes)
    (hseen : ∀ name ∈ st.seen, decodeAscii (encodeAscii name) = some name) :
    (HeaderOk isNameLine header ∧ Fresh st header ∧
      ∃ st', mw.cleanHeader st header = .ok st' ∧ Recorded mw st header st') ∨
    (¬ (HeaderOk isNameLine header ∧ Fresh st header) ∧
      ∃ detail, mw.cleanHeader st header = .error (badRequest detail)) := by
  unfold cleanHeader
  split
  case h_2 hnone =>
    refine .inr ⟨?_, _, rfl⟩
    rintro ⟨hok, -⟩
    obtain ⟨rawName, hname⟩ := decodeAscii_isSome.mpr hok.asciiName
    obtain ⟨value, hvalue⟩ := decodeAscii_isSome.mpr hok.asciiValue
    exact hnone rawName value hname hvalue
  case h_1 rawName value hname hvalue =>
    have hlower := decodeAscii_lowerBytes hname
    have hforbidden := forbidden_iff hname
    have hrepeated := mem_iff_encoded hseen hlower
    have hvalid := validName_lowerAscii hname
    have hreturn : '\r' ∈ value ↔ 13 ∈ header.2 :=
      char_mem_decoded hvalue fun b hb => (byte_checks hb).2.2.2
    have hnewline : '\n' ∈ value ↔ 10 ∈ header.2 :=
      char_mem_decoded hvalue fun b hb => (byte_checks hb).2.2.1
    dsimp only
    split
    · next h => exact .inr ⟨fun hok => hok.1.notForbidden (hforbidden.mpr h), _, rfl⟩
    · next hnotForbidden =>
        split
        · next h => exact .inr ⟨fun hok => hok.2 (hrepeated.mp h), _, rfl⟩
        · next hfresh =>
            split
            · next h =>
                refine .inr ⟨fun hok => ?_, _, rfl⟩
                have hline := hok.1.validName
                rw [← hvalid] at hline
                simp [hline] at h
            · next hline =>
                split
                · next h =>
                    refine .inr ⟨fun hok => ?_, _, rfl⟩
                    obtain h | h := h
                    · exact hok.1.noReturn (hreturn.mp h)
                    · exact hok.1.noNewline (hnewline.mp h)
                · next hbreaks =>
                    push Not at hbreaks
                    refine .inl ⟨⟨decodeAscii_isSome.mp ⟨_, hname⟩,
                      decodeAscii_isSome.mp ⟨_, hvalue⟩, ?_, hforbidden.not.mpr hnotForbidden,
                      hreturn.not.mp hbreaks.1, hnewline.not.mp hbreaks.2⟩,
                      hrepeated.not.mp hfresh, ?_⟩
                    · rw [← hvalid]
                      simpa using hline
                    · have hascii : ∀ name ∈ lowerAscii rawName :: st.seen,
                          decodeAscii (encodeAscii name) = some name := by
                        rintro name (_ | ⟨_, hmem⟩)
                        · rw [encodeAscii_of_decodeAscii hlower]
                          exact hlower
                        · exact hseen name hmem
                      split
                      · next hdropped =>
                          refine ⟨_, rfl, ?_, hascii, ?_⟩
                          · rw [List.map_cons, encodeAscii_of_decodeAscii hlower]
                          · simp [allows_eq mw hname, hdropped]
                      · next hkept =>
                          refine ⟨_, rfl, ?_, hascii, ?_⟩
                          · rw [List.map_cons, encodeAscii_of_decodeAscii hlower]
                          · rw [allows_eq mw hname, if_pos (by simpa using hkept)]

theorem conforms_cons {valid : Bytes → Bool} {header : Bytes × Bytes}
    {headers : List (Bytes × Bytes)} :
    Conforms valid (header :: headers) ↔ HeaderOk valid header ∧
      (∀ later ∈ headers, lowerBytes later.1 ≠ lowerBytes header.1) ∧ Conforms valid headers := by
  constructor
  · rintro ⟨heach, honce⟩
    rw [List.map_cons, List.nodup_cons] at honce
    refine ⟨heach header List.mem_cons_self, fun later hlater heq => honce.1 ?_,
      fun later hlater => heach later (List.mem_cons_of_mem _ hlater), honce.2⟩
    exact heq ▸ List.mem_map_of_mem hlater
  · rintro ⟨hheader, hlater, heach, honce⟩
    refine ⟨fun later hmem => ?_, ?_⟩
    · obtain rfl | hmem := List.mem_cons.mp hmem
      · exact hheader
      · exact heach later hmem
    · rw [List.map_cons, List.nodup_cons]
      refine ⟨fun hmem => ?_, honce⟩
      obtain ⟨later, hmem, heq⟩ := List.mem_map.mp hmem
      exact hlater later hmem heq

/-- The loop accepts exactly the headers in order without repetition, and keeps the allowed. -/
theorem foldlM_cleanHeader_spec (mw : HeaderSanitization) (headers : List (Bytes × Bytes))
    (st : Cleaning) (hseen : ∀ name ∈ st.seen, decodeAscii (encodeAscii name) = some name) :
    (Conforms isNameLine headers ∧ (∀ header ∈ headers, Fresh st header) ∧
      ∃ st', headers.foldlM mw.cleanHeader st = .ok st' ∧
        st'.cleanedHeaders = st.cleanedHeaders ++ headers.filter mw.allows) ∨
    (¬ (Conforms isNameLine headers ∧ ∀ header ∈ headers, Fresh st header) ∧
      ∃ detail, headers.foldlM mw.cleanHeader st = .error (badRequest detail)) := by
  induction headers generalizing st with
  | nil => exact .inl ⟨⟨by simp, by simp⟩, by simp, st, rfl, by simp⟩
  | cons header headers ih =>
      rw [List.foldlM_cons, conforms_cons]
      obtain ⟨hok, hfresh, st', hstep, hrecorded⟩ | ⟨hbad, detail, hstep⟩ :=
        cleanHeader_spec mw st header hseen
      · -- what the rest must avoid is this name, and the names before
        have hlater : (∀ later ∈ headers, Fresh st' later) ↔
            (∀ later ∈ headers, lowerBytes later.1 ≠ lowerBytes header.1) ∧
              ∀ later ∈ headers, Fresh st later := by
          simp only [Fresh, hrecorded.seen, List.mem_cons, not_or]
          exact ⟨fun h => ⟨fun later hl => (h later hl).1, fun later hl => (h later hl).2⟩,
            fun h later hl => ⟨h.1 later hl, h.2 later hl⟩⟩
        rw [hstep]
        obtain ⟨hconforms, hrest, st'', hfold, hkept⟩ | ⟨hbad, detail, hfold⟩ :=
          ih st' hrecorded.ascii
        · rw [hlater] at hrest
          refine .inl ⟨⟨hok, hrest.1, hconforms⟩, ?_, st'', hfold, ?_⟩
          · rintro later (_ | ⟨_, hl⟩)
            · exact hfresh
            · exact hrest.2 later hl
          · rw [hkept, hrecorded.cleaned, List.append_assoc, List.filter_cons]
            by_cases hallowed : mw.allows header
            · simp [hallowed]
            · simp [hallowed]
        · refine .inr ⟨fun h => hbad ⟨h.1.2.2, hlater.mpr ⟨h.1.2.1, ?_⟩⟩, detail, hfold⟩
          exact fun later hl => h.2 later (List.mem_cons_of_mem _ hl)
      · refine .inr ⟨fun h => hbad ⟨h.1.1, h.2 header List.mem_cons_self⟩, detail, ?_⟩
        rw [hstep]
        rfl

-- ============================================================================
-- The middleware
-- ============================================================================

/-- What the client is answered, or that the next application is called. -/
inductive Answer where
  | downstream
  | response (statusCode : Nat) (message : List Char)
deriving DecidableEq, Repr

/-- `__call__`: the scope as it is left, and the answer. -/
def call (mw : HeaderSanitization) (scope : Scope) : Scope × Answer :=
  match mw.run scope with
  | .ok scope' => (scope', .downstream)
  | .error exc => (scope, .response exc.statusCode exc.detail)

/-- The middleware accepts exactly the grammar of names on the headers of a scope. -/
structure Exact (mw : HeaderSanitization) (scope : Scope) : Prop where
  downstream : (mw.call scope).2 = .downstream ↔ Conforms isName scope.headers
  kept : Conforms isName scope.headers →
    (mw.call scope).1 = { scope with headers := scope.headers.filter mw.allows }
  rejected : ¬ Conforms isName scope.headers →
    (∃ message, (mw.call scope).2 = .response 400 message) ∧ (mw.call scope).1 = scope

theorem call_cases (mw : HeaderSanitization) {scope : Scope} (hhttp : scope.type = .http) :
    (Conforms isNameLine scope.headers ∧ mw.call scope =
      ({ scope with headers := scope.headers.filter mw.allows }, .downstream)) ∨
    (¬ Conforms isNameLine scope.headers ∧
      ∃ message, mw.call scope = (scope, .response 400 message)) := by
  obtain ⟨hconforms, -, st, hfold, hkept⟩ | ⟨hbad, detail, hfold⟩ :=
    foldlM_cleanHeader_spec mw scope.headers ⟨[], []⟩ (by simp)
  · have hrun : mw.run scope =
        .ok { scope with headers := scope.headers.filter mw.allows } := by
      rw [run, if_neg (by simp [hhttp]), hfold]
      simp only [List.nil_append] at hkept
      rw [← hkept]
      rfl
    exact .inl ⟨hconforms, by rw [call, hrun]⟩
  · have hrun : mw.run scope = .error (badRequest detail) := by
      rw [run, if_neg (by simp [hhttp]), hfold]
      rfl
    refine .inr ⟨fun h => hbad ⟨h, by simp [Fresh]⟩, detail, ?_⟩
    rw [call, hrun]
    rfl

/-- A name of the grammar is a name with nothing behind. -/
theorem isName_iff {name : Bytes} :
    isName name = true ↔ isNameLine name = true ∧ name.getLast? ≠ some 10 := by
  unfold isNameLine
  constructor
  · intro h
    have hlast : name.getLast? ≠ some 10 := by
      intro hlast
      rw [isName, Bool.and_eq_true, List.all_eq_true] at h
      exact absurd (h.2 10 (List.mem_of_getLast? hlast)) (by decide)
    exact ⟨by rwa [if_neg hlast], hlast⟩
  · rintro ⟨h, hlast⟩
    rwa [if_neg hlast] at h

theorem conforms_isName_iff {headers : List (Bytes × Bytes)} :
    Conforms isName headers ↔ Conforms isNameLine headers ∧
      ∀ header ∈ headers, header.1.getLast? ≠ some 10 := by
  constructor
  · rintro ⟨heach, honce⟩
    refine ⟨⟨fun header hmem => ?_, honce⟩, fun header hmem =>
      (isName_iff.mp (heach header hmem).validName).2⟩
    exact { heach header hmem with
      validName := (isName_iff.mp (heach header hmem).validName).1 }
  · rintro ⟨⟨heach, honce⟩, hlast⟩
    refine ⟨fun header hmem => ?_, honce⟩
    exact { heach header hmem with
      validName := isName_iff.mpr ⟨(heach header hmem).validName, hlast header hmem⟩ }

/-- The headers that are accepted are exactly those of the grammar, unless one that is accepted
    has a newline behind its name. -/
theorem sanitization_exact_iff (mw : HeaderSanitization) (scope : Scope)
    (hhttp : scope.type = .http) :
    Exact mw scope ↔ (Conforms isNameLine scope.headers →
      ∀ header ∈ scope.headers, header.1.getLast? ≠ some 10) := by
  obtain ⟨hline, hcall⟩ | ⟨hline, message, hcall⟩ := call_cases mw hhttp
  · constructor
    · intro hexact _
      have hconforms := hexact.downstream.mp (by rw [hcall])
      exact (conforms_isName_iff.mp hconforms).2
    · intro hlast
      have hconforms := conforms_isName_iff.mpr ⟨hline, hlast hline⟩
      exact ⟨by simp [hcall, hconforms], fun _ => by rw [hcall], fun h => absurd hconforms h⟩
  · have hconforms : ¬ Conforms isName scope.headers :=
      fun h => hline (conforms_isName_iff.mp h).1
    constructor
    · intro _ h
      exact absurd h hline
    · intro _
      exact ⟨by simp [hcall, hconforms], fun h => absurd h hconforms,
        fun _ => ⟨⟨message, by rw [hcall]⟩, by rw [hcall]⟩⟩

private def plainScope : Scope := ⟨.http, none, some "http".toList,
  [(encodeAscii "Host".toList, encodeAscii "a".toList),
    (encodeAscii "x-unknown".toList, encodeAscii "drop".toList)]⟩

theorem sanitization_exact_iff_plain : Exact ⟨[]⟩ plainScope :=
  (sanitization_exact_iff ⟨[]⟩ plainScope rfl).mpr fun _ =>
    List.forall_mem_cons.mpr ⟨by decide, List.forall_mem_singleton.mpr (by decide)⟩

private def newlineScope : Scope := ⟨.http, none, some "http".toList,
  [(encodeAscii "host".toList ++ [10], encodeAscii "a".toList)]⟩

/-- `host` with a newline behind passes for a name that is not in the allowlist. -/
theorem newline_name_accepted : ¬ Exact ⟨[]⟩ newlineScope := by
  intro hexact
  have hdownstream : (call ⟨[]⟩ newlineScope).2 = .downstream := by decide +kernel
  have hvalid := ((hexact.downstream.mp hdownstream).each _ List.mem_cons_self).validName
  exact absurd hvalid (by decide)

end HeaderSanitization

end QuickApi.HttpPolicy
