/-
  QuickApi.Logging.Privacy

  A record depends on the allowlisted data of its event alone: two events that
  agree there give one record, whatever else they carry.  Its texts stay on one
  line, and no error value makes `safe_event` raise.
-/

import QuickApi.Logging.Events

namespace QuickApi.Logging

open QuickApi.Lib

-- ============================================================================
-- Two errors
-- ============================================================================

/-- `isinstance(value, BaseException)` -/
def Value.isException : Value → Access Bool
  | .object o => o.isException
  | _ => .ok false

/-- The code entry is hashable, and none of those that are kept. -/
def ObjectOf.HasOtherCode (o : Object) : Prop :=
  ∃ code, o.codeEntry = .ok code ∧ code.inCodes = .ok false

/-- Two exceptions that agree in what diagnostics may tell of them. -/
structure SameError (o o' : Object) : Prop where
  typeName : o.typeName = o'.typeName
  code : o.codeEntry = o'.codeEntry ∨ (o.HasOtherCode ∧ o'.HasOtherCode)
  mapped : o.mappedArg = o'.mappedArg
  traceback : o.traceback = o'.traceback

/-- Two values under one key: neither is an exception, or both are and agree. -/
inductive Alike : Value → Value → Prop
  | noErrors {v v' : Value} (h : v.isException = .ok false) (h' : v'.isException = .ok false) :
      Alike v v'
  | errors {o o' : Object} (h : o.isException = .ok true) (h' : o'.isException = .ok true)
      (same : SameError o o') : Alike (.object o) (.object o')

theorem ObjectOf.HasOtherCode.knownCode {o : Object} (h : o.HasOtherCode) :
    o.knownCode = .ok none := by
  obtain ⟨code, hcode, hother⟩ := h
  rw [ObjectOf.knownCode, hcode]
  show (do return if ← code.inCodes then some code else none : Access (Option Value)) = _
  rw [hother]
  rfl

theorem SameError.knownCode {o o' : Object} (h : SameError o o') : o.knownCode = o'.knownCode := by
  obtain hsame | ⟨hother, hother'⟩ := h.code
  · rw [ObjectOf.knownCode, ObjectOf.knownCode, hsame]
  · rw [hother.knownCode, hother'.knownCode]

theorem SameError.diagnose {o o' : Object} (h : SameError o o') (sha256 : Str → Str) :
    o.diagnose sha256 = o'.diagnose sha256 := by
  have hfingerprint : o.fingerprint sha256 = o'.fingerprint sha256 := by
    rw [ObjectOf.fingerprint, ObjectOf.frames, h.traceback]
    rfl
  rw [ObjectOf.diagnose, h.typeName, h.knownCode, h.mapped, hfingerprint]
  rfl

theorem errorDiagnostics_of_noError {v : Value} (h : v.isException = .ok false)
    (sha256 : Str → Str) : errorDiagnostics sha256 v = .ok unknownError := by
  cases v with
  | object o =>
      rw [errorDiagnostics, show o.isException = .ok false from h]
      rfl
  | _ => rfl

theorem Alike.errorDiagnostics {v v' : Value} (h : Alike v v') (sha256 : Str → Str) :
    errorDiagnostics sha256 v = errorDiagnostics sha256 v' := by
  cases h with
  | noErrors h h' => rw [errorDiagnostics_of_noError h, errorDiagnostics_of_noError h']
  | errors h h' same =>
      rw [Logging.errorDiagnostics, Logging.errorDiagnostics, h, h', same.diagnose]

-- ============================================================================
-- Two events
-- ============================================================================

/-- What a record takes of a field of an event. -/
def allowed (event : Event) (field : Str × Kind) : Access (Option Value) :=
  field.2.accept (((withRequestId event).get? field.1).getD .none)

/-- Two events that agree in their allowlisted data. -/
structure SameLogged (e e' : Event) : Prop where
  message : messageText e = messageText e'
  fields : ∀ field ∈ fields, allowed e field = allowed e' field
  errors : ∀ name ∈ aliases, Option.Rel Alike (e.get? name) (e'.get? name)

theorem foldlM_congr {α β : Type} {f g : β → α → Access β} {l : List α}
    (h : ∀ a ∈ l, ∀ b, f b a = g b a) (b : β) : l.foldlM f b = l.foldlM g b := by
  induction l generalizing b with
  | nil => rfl
  | cons a l ih =>
      obtain ⟨ha, hl⟩ := List.forall_mem_cons.mp h
      rw [List.foldlM_cons, List.foldlM_cons, ha]
      exact bind_congr fun b' => ih hl b'

/-- The request id is under no key of errors. -/
theorem get?_withRequestId {name : Str} (h : name ∈ aliases) (event : Event) :
    (withRequestId event).get? name = event.get? name := by
  have hne : name ≠ str "requestId" := by
    rintro rfl
    exact absurd h (by decide)
  rw [withRequestId]
  split
  · exact OrderedDict.get?_set_of_ne hne _ _
  · rfl

theorem SameLogged.addField {e e' : Event} (h : SameLogged e e') {field : Str × Kind}
    (hfield : field ∈ Logging.fields) (record : Record) :
    addField (withRequestId e) record field = addField (withRequestId e') record field := by
  have hallowed := h.fields field hfield
  rw [allowed, allowed] at hallowed
  rw [Logging.addField, Logging.addField, hallowed]

theorem SameLogged.addError {e e' : Event} (h : SameLogged e e') (sha256 : Str → Str) {name : Str}
    (hname : name ∈ aliases) (record : Record) :
    addError sha256 (withRequestId e) record name = addError sha256 (withRequestId e') record name := by
  have herrors := h.errors name hname
  rw [Logging.addError, Logging.addError, get?_withRequestId hname, get?_withRequestId hname]
  generalize e.get? name = error at herrors
  generalize e'.get? name = error' at herrors
  cases herrors with
  | none => rfl
  | some halike =>
      dsimp only
      rw [halike.errorDiagnostics]

/-- The record of an event depends on the allowlisted data alone. -/
theorem SameLogged.safeEvent {e e' : Event} (h : SameLogged e e') (sha256 : Str → Str)
    (level : Level) : safeEvent sha256 level e = safeEvent sha256 level e' := by
  rw [Logging.safeEvent, Logging.safeEvent, Logging.message, Logging.message, h.message]
  refine bind_congr fun msg => ?_
  dsimp only
  rw [foldlM_congr fun field hfield record => h.addField hfield record]
  refine bind_congr fun record => ?_
  exact foldlM_congr (fun name hname record => h.addError sha256 hname record) _

-- ============================================================================
-- One line
-- ============================================================================

/-- A character that ends a line, for `str.splitlines`. -/
def endsLine (c : Nat) : Bool := c ∈ [10, 11, 12, 13, 28, 29, 30, 133, 8232, 8233]

/-- A control of C0 or C1, or delete. -/
def isControl (c : Nat) : Bool := c < 32 || (127 ≤ c && c ≤ 159)

/-- A text that ends no line and controls nothing. -/
def Clean (text : Str) : Prop := ∀ c ∈ text, endsLine c = false ∧ isControl c = false

theorem clean_of_not_isUnsafe {c : Nat} (h : isUnsafe c = false) :
    endsLine c = false ∧ isControl c = false := by
  have hends : ∀ c ∈ [10, 11, 12, 13, 28, 29, 30, 133, 8232, 8233], isUnsafe c = true := by decide
  constructor
  · by_contra hnot
    rw [Bool.not_eq_false] at hnot
    have hunsafe := hends c (of_decide_eq_true hnot)
    rw [h] at hunsafe
    cases hunsafe
  · simp only [isUnsafe, Bool.or_eq_false_iff] at h
    rw [isControl, h.1.1.1, h.1.1.2, Bool.or_false]

theorem clean_hex4 (n : Nat) : Clean (hex4 n) := by
  have hdigit : ∀ d < 16, endsLine d.digitChar.toNat = false ∧ isControl d.digitChar.toNat = false := by
    decide
  intro c hc
  simp only [hex4, List.mem_cons, List.not_mem_nil, or_false] at hc
  rcases hc with rfl | rfl | rfl | rfl
  · exact hdigit _ (Nat.mod_lt _ (by decide))
  · exact hdigit _ (Nat.mod_lt _ (by decide))
  · exact hdigit _ (Nat.mod_lt _ (by decide))
  · exact hdigit _ (Nat.mod_lt _ (by decide))

theorem Clean.append {a b : Str} (ha : Clean a) (hb : Clean b) : Clean (a ++ b) := by
  intro c hc
  rcases List.mem_append.mp hc with hc | hc
  · exact ha c hc
  · exact hb c hc

theorem clean_singleLine (value : Str) : Clean (singleLine value) := by
  intro c hc
  obtain ⟨d, -, hd⟩ := List.mem_flatMap.mp hc
  split at hd
  · have hescape : Clean (str "\\u") := by unfold Clean; decide
    exact (hescape.append (clean_hex4 d)) c hd
  · next hsafe =>
      obtain rfl := List.mem_singleton.mp hd
      exact clean_of_not_isUnsafe (Bool.not_eq_true _ ▸ hsafe)

/-- The texts of a record are clean. -/
def CleanRecord (record : Record) : Prop :=
  ∀ key text, (key, Cell.value (.str text)) ∈ record.entries → Clean text

theorem CleanRecord.set {record : Record} (h : CleanRecord record) (key : Str) (cell : Cell)
    (hcell : ∀ text, cell = .value (.str text) → Clean text) : CleanRecord (record.set key cell) := by
  intro key' text hmem
  rcases OrderedDict.mem_set hmem with hnew | hold
  · exact hcell text (Prod.mk.inj hnew).2.symm
  · exact h key' text hold

theorem Kind.accept_object (kind : Kind) (o : Object) :
    kind.accept (.object o) = o.notScalar.map fun _ => none := by
  cases kind <;> rfl

theorem Kind.accept_clean {kind : Kind} {v : Value} {text : Str}
    (h : kind.accept v = .ok (some (.str text))) : Clean text := by
  cases v with
  | object o =>
      rw [Kind.accept_object] at h
      cases hclass : o.notScalar with
      | ok _ => simp [hclass, Except.map] at h
      | error _ => simp [hclass, Except.map] at h
  | str s =>
      cases kind with
      | str =>
          obtain rfl : singleLine s = text := by simpa [Kind.accept] using h
          exact clean_singleLine s
      | _ => simp [Kind.accept] at h
  | _ => cases kind <;> simp [Kind.accept] at h

/-- What a bind that succeeds has gone through. -/
theorem bind_eq_ok_iff {α β : Type} {a : Access α} {f : α → Access β} {b : β} :
    (a >>= f) = .ok b ↔ ∃ x, a = .ok x ∧ f x = .ok b := by
  cases a with
  | ok x => exact ⟨fun h => ⟨x, rfl, h⟩, fun ⟨_, hx, h⟩ => Except.ok.inj hx ▸ h⟩
  | error r => exact ⟨nofun, nofun⟩

/-- What a loop keeps when every round does. -/
theorem foldlM_keeps {α β : Type} {P : β → Prop} {f : β → α → Access β} {l : List α}
    (h : ∀ a ∈ l, ∀ b b', P b → f b a = .ok b' → P b') {b b' : β} (hb : P b)
    (hfold : l.foldlM f b = .ok b') : P b' := by
  induction l generalizing b with
  | nil =>
      obtain rfl := Except.ok.inj hfold
      exact hb
  | cons a l ih =>
      obtain ⟨ha, hl⟩ := List.forall_mem_cons.mp h
      obtain ⟨m, hm, hrest⟩ := bind_eq_ok_iff.mp hfold
      exact ih hl (ha b m hb hm) hrest

theorem cleanRecord_addField {event : Event} {record record' : Record} {field : Str × Kind}
    (h : CleanRecord record) (hadd : addField event record field = .ok record') :
    CleanRecord record' := by
  obtain ⟨accepted, haccepted, hrecord⟩ := bind_eq_ok_iff.mp hadd
  cases accepted with
  | none =>
      obtain rfl := Except.ok.inj hrecord
      exact h
  | some v =>
      obtain rfl := Except.ok.inj hrecord
      refine h.set _ _ fun text htext => ?_
      obtain rfl : v = .str text := by simpa using htext
      exact Kind.accept_clean haccepted

theorem cleanRecord_maskMethod {record : Record} (h : CleanRecord record) :
    CleanRecord (maskMethod record) := by
  rw [maskMethod]
  split
  · split
    · exact h
    · refine h.set _ _ fun text htext => ?_
      obtain rfl : str "<other>" = text := by simpa using htext
      unfold Clean
      decide
  · exact h

theorem cleanRecord_addError {sha256 : Str → Str} {event : Event} {record record' : Record}
    {name : Str} (h : CleanRecord record) (hadd : addError sha256 event record name = .ok record') :
    CleanRecord record' := by
  rw [addError] at hadd
  split at hadd
  · obtain ⟨diagnostics, -, hrecord⟩ := bind_eq_ok_iff.mp hadd
    obtain rfl := Except.ok.inj hrecord
    exact h.set _ _ fun text htext => by cases htext
  · obtain rfl := Except.ok.inj hadd
    exact h

theorem clean_message {event : Event} {msg : Str} (h : message event = .ok msg) : Clean msg := by
  obtain ⟨text, -, hmsg⟩ := bind_eq_ok_iff.mp h
  cases text with
  | none =>
      obtain rfl : str "Application event." = msg := Except.ok.inj hmsg
      unfold Clean
      decide
  | some text =>
      obtain rfl : singleLine text = msg := Except.ok.inj hmsg
      exact clean_singleLine text

theorem clean_label (level : Level) : Clean level.label := by
  unfold Clean
  cases level <;> decide

/-- The record of an event has clean texts only. -/
theorem cleanRecord_safeEvent {sha256 : Str → Str} {level : Level} {event : Event} {record : Record}
    (h : safeEvent sha256 level event = .ok record) : CleanRecord record := by
  obtain ⟨msg, hmsg, hrest⟩ := bind_eq_ok_iff.mp h
  obtain ⟨context, hcontext, herrors⟩ := bind_eq_ok_iff.mp hrest
  have hempty : CleanRecord (OrderedDict.empty : Record) := fun _ _ hmem =>
    absurd hmem List.not_mem_nil
  have hlabel := hempty.set (str "levelLabel") (.value (.str level.label)) fun text htext => by
    obtain rfl : level.label = text := by simpa using htext
    exact clean_label level
  have hstart := hlabel.set (str "msg") (.value (.str msg)) fun text htext => by
    obtain rfl : msg = text := by simpa using htext
    exact clean_message hmsg
  have hfields := foldlM_keeps (fun _ _ _ _ hclean hadd => cleanRecord_addField hclean hadd)
    hstart hcontext
  exact foldlM_keeps (fun _ _ _ _ hclean hadd => cleanRecord_addError hclean hadd)
    (cleanRecord_maskMethod hfields) herrors

-- ============================================================================
-- The line on the console
-- ============================================================================

/-- A text that ends no line. -/
def OneLine (text : Str) : Prop := ∀ c ∈ text, endsLine c = false

theorem Clean.oneLine {text : Str} (h : Clean text) : OneLine text := fun c hc => (h c hc).1

theorem oneLine_of_printable {text : Str} (h : ∀ c ∈ text, 32 ≤ c ∧ c < 127) : OneLine text := by
  intro c hc
  obtain ⟨hlow, hhigh⟩ := h c hc
  refine (clean_of_not_isUnsafe ?_).1
  simp [isUnsafe]
  omega

theorem OneLine.append {a b : Str} (ha : OneLine a) (hb : OneLine b) : OneLine (a ++ b) := by
  intro c hc
  rcases List.mem_append.mp hc with hc | hc
  · exact ha c hc
  · exact hb c hc

theorem oneLine_digits (n : Nat) : OneLine ((Nat.toDigits 10 n).map Char.toNat) := by
  refine oneLine_of_printable fun c hc => ?_
  obtain ⟨d, hd, rfl⟩ := List.mem_map.mp hc
  have hdigit := Nat.isDigit_of_mem_toDigits (by decide) (by decide) hd
  simp only [Char.isDigit, Bool.and_eq_true, decide_eq_true_eq, ge_iff_le,
    UInt32.le_iff_toNat_le] at hdigit
  change 48 ≤ d.toNat ∧ d.toNat ≤ 57 at hdigit
  omega

theorem oneLine_style (code : Nat) : OneLine (style code) := by
  have hstart : OneLine (27 :: str "[") := by unfold OneLine; decide
  have hend : OneLine (str "m") := by unfold OneLine; decide
  exact (hstart.append (oneLine_digits code)).append hend

theorem oneLine_ljust (level : Level) : OneLine (ljust level.label) := by
  unfold OneLine
  cases level <;> decide

theorem oneLine_textAt {record : Record} (h : CleanRecord record) (key : Str) :
    OneLine (textAt record key) := by
  rw [textAt]
  split
  · next text htext => exact (h key text (OrderedDict.get?_eq_some_iff.mp htext)).oneLine
  · exact fun c hc => absurd hc List.not_mem_nil

theorem oneLine_conciseRenderer {record : Record} (h : CleanRecord record) (stamp : Stamp)
    (pid : Nat) (level : Level) : OneLine (conciseRenderer stamp pid level record) := by
  have hconst : OneLine (str " ") ∧ OneLine (str "[") ∧ OneLine (str "]") := by
    unfold OneLine
    decide
  obtain ⟨hblank, hopen, hclose⟩ := hconst
  have hrequest : OneLine (if (textAt record (str "requestId")).isEmpty then [] else
      str " " ++ style 35 ++ str "[" ++ textAt record (str "requestId") ++ str "]" ++ style 0) := by
    split
    · exact fun c hc => absurd hc List.not_mem_nil
    · exact ((((hblank.append (oneLine_style 35)).append hopen).append
        (oneLine_textAt h _)).append hclose).append (oneLine_style 0)
  have hstamp := ((oneLine_style 2).append (oneLine_style 32)).append (oneLine_of_printable stamp.plain)
  have hpid := ((((((hstamp.append (oneLine_style 0)).append hblank).append
    (oneLine_style 36)).append hopen).append (oneLine_digits pid)).append hclose).append
    (oneLine_style 0)
  have hlevel := (((((hpid.append hblank).append (oneLine_style level.color)).append hopen).append
    (oneLine_ljust level)).append hclose).append (oneLine_style 0)
  exact ((hlevel.append hrequest).append hblank).append (oneLine_textAt h _)

-- ============================================================================
-- Errors that raise
-- ============================================================================

/-- Nothing but an `Exception` is raised. -/
def Access.OnlyExceptions {α : Type} (a : Access α) : Prop := a ≠ .error .base

/-- Looking at the value, and at what it holds under `code` and `orig`, raises nothing but
    `Exception`s. -/
structure ObjectOf.OnlyExceptions (o : Object) : Prop where
  isException : o.isException.OnlyExceptions
  typeName : o.typeName.OnlyExceptions
  code : o.knownCode.OnlyExceptions
  mapped : o.mappedArg.OnlyExceptions
  frames : o.frames.OnlyExceptions

theorem onlyExceptions_bind {α β : Type} {a : Access α} {f : α → Access β}
    (ha : a.OnlyExceptions) (hf : ∀ x, (f x).OnlyExceptions) : (a >>= f).OnlyExceptions := by
  cases a with
  | ok x => exact hf x
  | error r =>
      intro h
      exact ha (by rw [Except.error.inj h])

theorem onlyExceptions_ok {α : Type} (x : α) : Access.OnlyExceptions (.ok x) := nofun

theorem exists_caught {result : Access Diagnostics} (h : result.OnlyExceptions) :
    ∃ d, caught result = .ok d := by
  cases result with
  | ok d => exact ⟨d, rfl⟩
  | error r =>
      cases r with
      | exception => exact ⟨unknownError, rfl⟩
      | base => exact absurd rfl h

theorem ObjectOf.OnlyExceptions.diagnose {o : Object} (h : o.OnlyExceptions)
    (sha256 : Str → Str) : (o.diagnose sha256).OnlyExceptions := by
  have hencode (text : Str) : (ObjectOf.encode text).OnlyExceptions := by
    rw [ObjectOf.encode]
    split
    · nofun
    · exact onlyExceptions_ok text
  have hfingerprint : (o.fingerprint sha256).OnlyExceptions := by
    refine onlyExceptions_bind h.frames fun frames => ?_
    split
    · exact onlyExceptions_ok _
    · exact onlyExceptions_bind (hencode _) fun text => onlyExceptions_ok _
  refine onlyExceptions_bind h.typeName fun name => ?_
  refine onlyExceptions_bind h.code fun code => ?_
  refine onlyExceptions_bind h.mapped fun mapped => ?_
  exact onlyExceptions_bind hfingerprint fun fingerprint => onlyExceptions_ok _

/-- `error_diagnostics` returns, whatever `Exception`s looking at the value raises. -/
theorem exists_errorDiagnostics {v : Value} (h : ∀ o, v = .object o → o.OnlyExceptions)
    (sha256 : Str → Str) : ∃ d, errorDiagnostics sha256 v = .ok d := by
  cases v with
  | object o =>
      have ho := h o rfl
      refine exists_caught (onlyExceptions_bind ho.isException fun isException => ?_)
      cases isException with
      | true => exact ho.diagnose sha256
      | false => exact onlyExceptions_ok _
  | _ => exact ⟨_, rfl⟩

theorem exists_foldlM {α β : Type} {f : β → α → Access β} {l : List α}
    (h : ∀ a ∈ l, ∀ b, ∃ b', f b a = .ok b') (b : β) : ∃ b', l.foldlM f b = .ok b' := by
  induction l generalizing b with
  | nil => exact ⟨b, rfl⟩
  | cons a l ih =>
      obtain ⟨ha, hl⟩ := List.forall_mem_cons.mp h
      obtain ⟨m, hm⟩ := ha b
      obtain ⟨b', hb'⟩ := ih hl m
      exact ⟨b', bind_eq_ok_iff.mpr ⟨m, hm, hb'⟩⟩

theorem exists_safeEvent {event : Event} {text : Option Str}
    (hmessage : messageText event = .ok text)
    (hfields : ∀ field ∈ fields, ∃ accepted, allowed event field = .ok accepted)
    (herrors : ∀ name ∈ aliases, ∀ o, event.get? name = some (.object o) → o.OnlyExceptions)
    (sha256 : Str → Str) (level : Level) : ∃ record, safeEvent sha256 level event = .ok record := by
  have hmsg : ∃ msg, message event = .ok msg := by
    rw [message, hmessage]
    cases text with
    | none => exact ⟨_, rfl⟩
    | some text => exact ⟨_, rfl⟩
  obtain ⟨msg, hmsg⟩ := hmsg
  have hadd : ∀ field ∈ fields, ∀ record : Record,
      ∃ record', addField (withRequestId event) record field = .ok record' := by
    intro field hfield record
    obtain ⟨accepted, haccepted⟩ := hfields field hfield
    rw [allowed] at haccepted
    rw [addField, haccepted]
    cases accepted with
    | none => exact ⟨_, rfl⟩
    | some v => exact ⟨_, rfl⟩
  have hdiagnose : ∀ name ∈ aliases, ∀ record : Record,
      ∃ record', addError sha256 (withRequestId event) record name = .ok record' := by
    intro name hname record
    rw [addError, get?_withRequestId hname]
    cases herror : event.get? name with
    | none => exact ⟨_, rfl⟩
    | some error =>
        obtain ⟨d, hd⟩ := exists_errorDiagnostics
          (fun o ho => herrors name hname o (ho ▸ herror)) sha256
        exact ⟨_, bind_eq_ok_iff.mpr ⟨d, hd, rfl⟩⟩
  obtain ⟨context, hcontext⟩ := exists_foldlM hadd _
  obtain ⟨record, hrecord⟩ := exists_foldlM hdiagnose (maskMethod context)
  exact ⟨record, bind_eq_ok_iff.mpr ⟨msg, hmsg, bind_eq_ok_iff.mpr ⟨context, hcontext, hrecord⟩⟩⟩

/-- Two events that agree in their allowlisted data give one record; the texts of a record are
    clean and its line is one; and no error value makes `safe_event` raise by `Exception`s. -/
theorem records_private (sha256 : Str → Str) (level : Level) :
    (∀ e e', SameLogged e e' → safeEvent sha256 level e = safeEvent sha256 level e') ∧
    (∀ event record, safeEvent sha256 level event = .ok record → CleanRecord record ∧
      ∀ stamp pid, OneLine (conciseRenderer stamp pid level record)) ∧
    ∀ event text, messageText event = .ok text →
      (∀ field ∈ fields, ∃ accepted, allowed event field = .ok accepted) →
      (∀ name ∈ aliases, ∀ o, event.get? name = some (.object o) → o.OnlyExceptions) →
      ∃ record, safeEvent sha256 level event = .ok record := by
  refine ⟨fun e e' h => h.safeEvent sha256 level, fun event record h => ?_,
    fun event text hmessage hfields herrors =>
      exists_safeEvent hmessage hfields herrors sha256 level⟩
  have hclean := cleanRecord_safeEvent h
  exact ⟨hclean, fun stamp pid => oneLine_conciseRenderer hclean stamp pid level⟩

/-- A `ValueError` of some text. -/
def raisedWith (text : Str) : Object where
  notScalar := .ok ()
  isException := .ok true
  typeName := .ok (str "ValueError")
  dict := .ok []
  args := .ok [.str text]
  traceback := .ok [.ok ⟨str "app.py", str "load", 7⟩]
  inCodes := .error .exception
  rest := []

/-- An event with such an error, and with the text under a key of its own. -/
def failedWith (text : Str) : Event :=
  OrderedDict.ofList [(str "event", .str (str "Load\nfailed.")),
    (str "error", .object (raisedWith text)), (str "password", .str text)]

theorem sameLogged_failedWith (text text' : Str) :
    SameLogged (failedWith text) (failedWith text') where
  message := rfl
  fields := by
    simp only [Logging.fields, List.forall_mem_cons]
    exact ⟨rfl, rfl, rfl, rfl, rfl, rfl, rfl, rfl, by simp⟩
  errors := by
    have hsame : SameError (raisedWith text) (raisedWith text') := ⟨rfl, .inl rfl, rfl, rfl⟩
    simp only [aliases, List.map_cons, List.map_nil, List.forall_mem_cons]
    exact ⟨.some (.errors rfl rfl hsame), .none, .none, .none, by simp⟩

theorem onlyExceptions_raisedWith (text : Str) : (raisedWith text).OnlyExceptions where
  isException := onlyExceptions_ok true
  typeName := onlyExceptions_ok _
  code := onlyExceptions_ok none
  mapped := onlyExceptions_ok none
  frames := onlyExceptions_ok [_]

theorem object_failedWith {text name : Str} {o : Object}
    (h : (failedWith text).get? name = some (.object o)) : o = raisedWith text := by
  have hmem := OrderedDict.mem_ofList (OrderedDict.get?_eq_some_iff.mp h)
  simp only [List.mem_cons, Prod.mk.injEq, reduceCtorEq, and_false, List.not_mem_nil, or_false,
    false_or, Value.object.injEq] at hmem
  exact hmem.2

/-- The text of an error, and what stands under other keys, leave the record as it is. -/
theorem records_private_error :
    ∃ record, safeEvent id .error (failedWith (str "first")) = .ok record ∧
      safeEvent id .error (failedWith (str "second")) = .ok record ∧ CleanRecord record := by
  obtain ⟨hsame, hclean, hreturns⟩ := records_private id .error
  have hfields : ∀ field ∈ fields,
      ∃ accepted, allowed (failedWith (str "first")) field = .ok accepted := by
    simp only [fields, List.forall_mem_cons]
    exact ⟨⟨_, rfl⟩, ⟨_, rfl⟩, ⟨_, rfl⟩, ⟨_, rfl⟩, ⟨_, rfl⟩, ⟨_, rfl⟩, ⟨_, rfl⟩, ⟨_, rfl⟩, by simp⟩
  obtain ⟨record, hrecord⟩ := hreturns (failedWith (str "first")) _ rfl hfields
    fun name _ o ho => object_failedWith ho ▸ onlyExceptions_raisedWith _
  refine ⟨record, hrecord, ?_, (hclean _ _ hrecord).1⟩
  rw [← hsame _ _ (sameLogged_failedWith (str "first") (str "second"))]
  exact hrecord

end QuickApi.Logging
