/-
  QuickApi.Logging.Diagnostics

  The values that log calls carry, as far as the logging code looks at them,
  and `error_diagnostics` (`app/common/helpers/error_diagnostics.py`).  An
  object may run code of its own where it is looked at, and may raise there.
-/

import Mathlib.Data.List.Basic

namespace QuickApi.Logging

-- ============================================================================
-- Values
-- ============================================================================

/-- A Python `str`: its code points, lone surrogates among them. -/
abbrev Str := List Nat

def str (s : String) : Str := s.toList.map Char.toNat

/-- What is raised: an `Exception`, or a `BaseException` that is none. -/
inductive Raised where
  | exception
  | base
deriving DecidableEq, Repr

/-- What looking at an object gives, or what it raises. -/
abbrev Access (α : Type) := Except Raised α

/-- A frame of a traceback. -/
structure Frame where
  filename : Str
  name : Str
  lineno : Nat
deriving DecidableEq, Repr

/-- An object, by what looking at it gives. -/
structure ObjectOf (V : Type) where
  /-- `isinstance(self, str)` and the like, which is false or raises -/
  notScalar : Access Unit
  /-- `isinstance(self, BaseException)` -/
  isException : Access Bool
  /-- `type(self).__name__` -/
  typeName : Access Str
  /-- `self.__dict__` -/
  dict : Except Raised (List (Str × V))
  /-- `self.args` -/
  args : Except Raised (List V)
  /-- `self.__traceback__`, frame by frame -/
  traceback : Access (List (Access Frame))
  /-- `self in {...}`, of the set of the error codes -/
  inCodes : Access Bool
  /-- whatever else it holds: its text, causes, notes, items -/
  rest : List V

inductive Value where
  | none
  | bool (b : Bool)
  /-- `exact` says that the type is `int` itself -/
  | int (n : Int) (exact : Bool)
  | float (isFinite : Bool) (repr : Str)
  | str (s : Str)
  | object (o : ObjectOf Value)

/-- An instance of `BaseException`. -/
abbrev Object := ObjectOf Value

-- ============================================================================
-- error_diagnostics
-- ============================================================================

/-- `_NAMES` -/
def names : List Str :=
  ["Exception", "DatabaseUnavailableError", "RuntimeError", "ValueError", "TypeError", "KeyError",
    "OSError", "PermissionError", "FileNotFoundError", "ConnectionResetError", "BrokenPipeError",
    "HTTPException", "ValidationError", "DBAPIError", "SQLAlchemyError", "ConnectionError",
    "ConnectionRefusedError", "TimeoutError", "CancelledError", "IntegrityError",
    "OperationalError", "InterfaceError", "DataError", "ProgrammingError",
    "InvalidRequestError"].map str

/-- `_CODES` -/
def codes : List (Int × Str) :=
  [(2, str "ENOENT"), (13, str "EACCES"), (104, str "ECONNRESET"), (111, str "ECONNREFUSED"),
    (110, str "ETIMEDOUT"), (10061, str "ECONNREFUSED"), (1062, str "ER_DUP_ENTRY"),
    (1213, str "ER_LOCK_DEADLOCK"), (1205, str "ER_LOCK_WAIT_TIMEOUT"),
    (1406, str "ER_DATA_TOO_LONG"), (1048, str "ER_BAD_NULL_ERROR")]

/-- The set of the values of `code` that are kept. -/
def databaseCodes : List Str :=
  ["DB_POOL_CLOSED", "DB_POOL_CAPACITY", "DB_POOL_ACQUIRE_TIMEOUT", "DB_CONNECT_TIMEOUT",
    "DB_CONNECTION_FAILED", "DB_TLS_REQUIRED"].map str

/-- The result of `error_diagnostics`; an absent entry is `none`. -/
structure Diagnostics where
  errorType : Str
  errorCode : Option Value := none
  errorFingerprint : Option Str := none

/-- `{"errorType": "UnknownError"}` -/
def unknownError : Diagnostics := { errorType := str "UnknownError" }

/-- `value in {"DB_POOL_CLOSED", ...}` -/
def Value.inCodes : Value → Access Bool
  | .str s => .ok (s ∈ databaseCodes)
  | .object o => o.inCodes
  | _ => .ok false

namespace ObjectOf

variable (o : Object)

/-- `error.__dict__.get("code")` -/
def codeEntry : Access Value := do
  let dict ← o.dict
  return (dict.lookup (str "code")).getD .none

/-- The code, where it is one of those that are kept. -/
def knownCode : Access (Option Value) := do
  let code ← o.codeEntry
  return if ← code.inCodes then some code else none

/-- `error.__dict__.get("orig", error)` -/
def original : Access Value := do
  let dict ← o.dict
  return (dict.lookup (str "orig")).getD (.object o)

/-- `_CODES[args[0]]` of the original error, where there is an entry. -/
def mappedArg : Access (Option Str) := do
  match ← o.original with
  | .object original =>
      if ← original.isException then
        match ← original.args with
        | .int n true :: _ => return codes.lookup n
        | _ => return none
      else return none
  | _ => return none

/-- `f"{code.co_filename}:{code.co_name}:{traceback.tb_lineno}"` -/
def frameText (frame : Frame) : Str :=
  frame.filename ++ str ":" ++ frame.name ++ str ":" ++ (Nat.toDigits 10 frame.lineno).map Char.toNat

/-- `frames`, at most 64 of them -/
def frames : Access (List Str) := do
  let traceback ← o.traceback
  (traceback.take 64).mapM fun frame => frame.map frameText

/-- `text.encode()`, which lone surrogates make raise -/
def encode (text : Str) : Access Str :=
  if text.any fun c => 0xD800 ≤ c && c ≤ 0xDFFF then .error .exception else .ok text

/-- The fingerprint of the frames, where there are any; `sha256` is the hex digest of the
    encoded text. -/
def fingerprint (sha256 : Str → Str) : Access (Option Str) := do
  let frames ← o.frames
  if frames.isEmpty then return none
  else return some (sha256 (← encode ((str "\n").intercalate frames)))

/-- The body of `error_diagnostics`, for an exception. -/
def diagnose (sha256 : Str → Str) : Access Diagnostics := do
  let name ← o.typeName
  let code ← o.knownCode
  let mapped ← o.mappedArg
  let fingerprint ← o.fingerprint sha256
  return {
    errorType := if name ∈ names then name else str "UnknownError"
    errorCode := match mapped with
      | some mapped => some (.str mapped)
      | none => code
    errorFingerprint := fingerprint }

end ObjectOf

/-- `except Exception` -/
def caught : Access Diagnostics → Access Diagnostics
  | .error .exception => .ok unknownError
  | result => result

def errorDiagnostics (sha256 : Str → Str) : Value → Access Diagnostics
  | .object o => caught do
      if ← o.isException then o.diagnose sha256 else return unknownError
  | _ => .ok unknownError

end QuickApi.Logging
