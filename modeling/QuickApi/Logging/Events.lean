/-
  QuickApi.Logging.Events

  `single_line`, `safe_event` and `concise_renderer`
  (`app/config/logging.py`).  The time, the process id and the host of a record
  are left out of it.
-/

import QuickApi.Lib.OrderedDict
import QuickApi.Logging.Diagnostics

namespace QuickApi.Logging

open QuickApi.Lib

-- ============================================================================
-- single_line
-- ============================================================================

/-- A character of C0 or C1, delete, and the separators of lines and paragraphs. -/
def isUnsafe (c : Nat) : Bool := c < 32 || (127 ≤ c && c ≤ 159) || c == 8232 || c == 8233

/-- `f"{n:04x}"`, of less than five digits -/
def hex4 (n : Nat) : Str :=
  [(n / 4096 % 16).digitChar.toNat, (n / 256 % 16).digitChar.toNat, (n / 16 % 16).digitChar.toNat,
    (n % 16).digitChar.toNat]

def singleLine (value : Str) : Str :=
  value.flatMap fun c => if isUnsafe c then str "\\u" ++ hex4 c else [c]

-- ============================================================================
-- safe_event
-- ============================================================================

inductive Level where
  | debug
  | info
  | warning
  | error
  | critical
deriving DecidableEq, Repr

def Level.label : Level → Str
  | .debug => str "debug"
  | .info => str "info"
  | .warning => str "warning"
  | .error => str "error"
  | .critical => str "critical"

/-- The type or the types that a field allows. -/
inductive Kind where
  | str
  | bool
  | int
  | number
deriving DecidableEq, Repr

/-- `_FIELDS` -/
def fields : List (Str × Kind) :=
  [(str "requestId", .str), (str "method", .str), (str "ip", .str), (str "route", .str),
    (str "outcome", .str), (str "headersSent", .bool), (str "status", .int),
    (str "durationMs", .number)]

abbrev Event := OrderedDict Str Value

/-- An entry of a record. -/
inductive Cell where
  | value (v : Value)
  | diagnostics (d : Diagnostics)

abbrev Record := OrderedDict Str Cell

/-- What a record takes of a value, where it takes it; a bool is an int as well. -/
def Kind.accept : Kind → Value → Access (Option Value)
  | .str, .str s => .ok (some (.str (singleLine s)))
  | .bool, .bool b => .ok (some (.bool b))
  | .int, .bool b => .ok (some (.bool b))
  | .int, .int n exact => .ok (some (.int n exact))
  | .number, .bool b => .ok (some (.bool b))
  | .number, .int n exact => .ok (some (.int n exact))
  | .number, .float isFinite repr => .ok (if isFinite then some (.float isFinite repr) else none)
  | _, .object o => o.notScalar.map fun _ => none
  | _, _ => .ok none

/-- The text of an event, where it has one. -/
def messageText (event : Event) : Access (Option Str) :=
  match event.get? (str "event") with
  | some (.str s) => .ok (some s)
  | some (.object o) => o.notScalar.map fun _ => none
  | _ => .ok none

/-- `record["msg"]` -/
def message (event : Event) : Access Str := do
  match ← messageText event with
  | some text => return singleLine text
  | none => return str "Application event."

/-- `event["requestId"] = event["request_id"]`, where only the latter is there. -/
def withRequestId (event : Event) : Event :=
  match event.get? (str "requestId"), event.get? (str "request_id") with
  | none, some requestId => event.set (str "requestId") requestId
  | _, _ => event

/-- One round of the loop over `_FIELDS`. -/
def addField (event : Event) (record : Record) (field : Str × Kind) : Access Record := do
  match ← field.2.accept ((event.get? field.1).getD .none) with
  | some value => return record.set field.1 (.value value)
  | none => return record

/-- The methods that are kept. -/
def methods : List Str :=
  ["GET", "POST", "PUT", "PATCH", "DELETE", "HEAD", "OPTIONS"].map str

/-- `record["method"] = "<other>"`, where the method is there and none of those. -/
def maskMethod (record : Record) : Record :=
  match record.get? (str "method") with
  | some (.value (.str s)) =>
      if methods.contains s then record else record.set (str "method") (.value (.str (str "<other>")))
  | _ => record

/-- The keys of errors. -/
def aliases : List Str := ["error", "err", "reason", "exception"].map str

/-- One round of the loop over the aliases. -/
def addError (sha256 : Str → Str) (event : Event) (record : Record) (name : Str) : Access Record :=
  match event.get? name with
  | some error => do
      let diagnostics ← errorDiagnostics sha256 error
      return record.set (if name = str "exception" then str "error" else name)
        (.diagnostics diagnostics)
  | none => return record

def safeEvent (sha256 : Str → Str) (level : Level) (event : Event) : Access Record := do
  let msg ← message event
  let record : Record := (OrderedDict.empty.set (str "levelLabel") (.value (.str level.label))).set
    (str "msg") (.value (.str msg))
  let event := withRequestId event
  let record ← fields.foldlM (addField event) record
  aliases.foldlM (addError sha256 event) (maskMethod record)

-- ============================================================================
-- concise_renderer
-- ============================================================================

/-- `strftime("%Y-%m-%d %H:%M:%S.%f")[:-3]`: printable ASCII. -/
structure Stamp where
  text : Str
  plain : ∀ c ∈ text, 32 ≤ c ∧ c < 127

/-- `Style.RESET_ALL`, `Fore.CYAN` and the like: `code` behind an escape -/
def style (code : Nat) : Str := 27 :: str "[" ++ (Nat.toDigits 10 code).map Char.toNat ++ str "m"

/-- `colors` -/
def Level.color : Level → Nat
  | .debug => 36
  | .info => 32
  | .warning => 33
  | .error => 31
  | .critical => 35

/-- `level.ljust(8)` -/
def ljust (text : Str) : Str := text ++ List.replicate (8 - text.length) 32

/-- The text of a record under `key`. -/
def textAt (record : Record) (key : Str) : Str :=
  match record.get? key with
  | some (.value (.str s)) => s
  | _ => []

def conciseRenderer (stamp : Stamp) (pid : Nat) (level : Level) (record : Record) : Str :=
  let requestId := textAt record (str "requestId")
  style 2 ++ style 32 ++ stamp.text ++ style 0 ++ str " " ++ style 36 ++ str "[" ++
    (Nat.toDigits 10 pid).map Char.toNat ++ str "]" ++ style 0 ++ str " " ++ style level.color ++
    str "[" ++ ljust level.label ++ str "]" ++ style 0 ++
    (if requestId.isEmpty then [] else
      str " " ++ style 35 ++ str "[" ++ requestId ++ str "]" ++ style 0) ++
    str " " ++ textAt record (str "msg")

end QuickApi.Logging
