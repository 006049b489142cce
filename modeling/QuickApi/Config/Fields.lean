/-
  QuickApi.Config.Fields

  The fields of the settings (`app/config/environment.py`): their names, defaults
  and bounds, and what each makes of its text in the environment.
-/

import QuickApi.HttpPolicy.Policy
import QuickApi.Lib.Distinct
import QuickApi.Lib.UnicodeCase
import Mathlib.Data.Fintype.Basic

namespace QuickApi.Config

open QuickApi.Lib
open QuickApi.HttpPolicy (IpNetwork forbiddenHeaders proxyNetwork)

/-- What the validators read of an `AnyHttpUrl`. -/
structure Url where
  text : List Char
  username : Option (List Char)
  password : Option (List Char)
  path : Option (List Char)
  query : Option (List Char)
  fragment : Option (List Char)
  port : Option Nat

/-- What they read of a database URL; of the query, the names. -/
structure DatabaseUrl where
  drivername : List Char
  query : List (List Char)

/-- The parsers of other packages; `none` and `false` stand for an exception. -/
structure Parsers where
  finalSigma : List Char → List Char → Bool
  /-- pydantic's `int` of a text -/
  intOf : List Char → Option Int
  /-- `AnyHttpUrl(value)` -/
  anyHttpUrl : List Char → Option Url
  /-- `make_url(value)` -/
  makeUrl : List Char → Option DatabaseUrl
  /-- `ZoneInfo(value)` -/
  zoneInfo : List Char → Bool
  /-- `tls_context(DatabasePolicy(ssl_enabled=True, ca_file=…))` -/
  tlsContext : Option (List Char) → Bool

variable (parsers : Parsers)

-- ============================================================================
-- Integers
-- ============================================================================

/-- `value.isascii() and value.isdecimal()` -/
def isAsciiDecimal (text : List Char) : Bool :=
  !text.isEmpty && text.all fun c => '0' ≤ c && c ≤ '9'

/-- The validator in front of an integer field. -/
inductive IntReading where
  | lax
  /-- `strict_integer` -/
  | strict
  /-- `validate_published_port` -/
  | publishedPort
deriving DecidableEq, Repr

structure IntField where
  name : String
  default : Option Int
  ge : Int
  le : Int
  reading : IntReading := .strict

namespace IntField

variable (f : IntField)

def bounded (n : Int) : Option Int := if f.ge ≤ n ∧ n ≤ f.le then some n else none

/-- The default is validated as well. -/
def unset : Option Int := f.default.bind f.bounded

def read : Option (List Char) → Option Int
  | none => f.unset
  | some text =>
      match f.reading with
      | .lax => (parsers.intOf text).bind f.bounded
      | .strict =>
          if isAsciiDecimal text then (parsers.intOf text).bind f.bounded else none
      | .publishedPort =>
          if text = [] then f.unset
          else if isAsciiDecimal text then (parsers.intOf text).bind f.bounded
          else none

end IntField

inductive IntSetting where
  | port
  | apiPublishedPort
  | mysqlPublishedPort
  | dbPoolConnectionLimit
  | dbPoolQueueLimit
  | dbPoolAcquireTimeoutMs
  | dbConnectTimeoutMs
  | dbReadinessTimeoutMs
  | dbReadinessCacheMs
  | dbMigrationCheckTimeoutMs
  | corsMaxAgeSeconds
  | rateLimitWindowMs
  | rateLimitMax
  | rateLimitMaxClients
  | idempotencyMaxResponseBytes
  | idempotencyCleanupBatchSize
  | idempotencyCleanupMaxBatches
  | requestTimeoutMs
  | httpDrainTimeoutMs
  | shutdownTimeoutMs
  | requestFirstBodyTimeoutMs
  | requestChunkTimeoutMs
  | httpMaxBodyBytes
  | httpMaxHeaderCount
  | httpMaxSingleHeaderBytes
  | httpMaxTotalHeaderBytes
deriving DecidableEq, Repr

instance : Fintype IntSetting :=
  Fintype.ofList [.port, .apiPublishedPort, .mysqlPublishedPort, .dbPoolConnectionLimit,
    .dbPoolQueueLimit, .dbPoolAcquireTimeoutMs, .dbConnectTimeoutMs, .dbReadinessTimeoutMs,
    .dbReadinessCacheMs, .dbMigrationCheckTimeoutMs, .corsMaxAgeSeconds, .rateLimitWindowMs,
    .rateLimitMax, .rateLimitMaxClients, .idempotencyMaxResponseBytes,
    .idempotencyCleanupBatchSize, .idempotencyCleanupMaxBatches, .requestTimeoutMs,
    .httpDrainTimeoutMs, .shutdownTimeoutMs, .requestFirstBodyTimeoutMs, .requestChunkTimeoutMs,
    .httpMaxBodyBytes, .httpMaxHeaderCount, .httpMaxSingleHeaderBytes, .httpMaxTotalHeaderBytes]
    fun setting => by cases setting <;> decide

def IntSetting.field : IntSetting → IntField
  | port => ⟨"PORT", none, 1, 65535, .lax⟩
  | apiPublishedPort => ⟨"API_PUBLISHED_PORT", some 8000, 1, 65535, .publishedPort⟩
  | mysqlPublishedPort => ⟨"MYSQL_PUBLISHED_PORT", some 3310, 1, 65535, .publishedPort⟩
  | dbPoolConnectionLimit => ⟨"DB_POOL_CONNECTION_LIMIT", some 10, 1, 1000, .strict⟩
  | dbPoolQueueLimit => ⟨"DB_POOL_QUEUE_LIMIT", some 50, 0, 10000, .strict⟩
  | dbPoolAcquireTimeoutMs => ⟨"DB_POOL_ACQUIRE_TIMEOUT_MS", some 1000, 1, 2147483647, .strict⟩
  | dbConnectTimeoutMs => ⟨"DB_CONNECT_TIMEOUT_MS", some 10000, 1, 2147483647, .strict⟩
  | dbReadinessTimeoutMs => ⟨"DB_READINESS_TIMEOUT_MS", some 1000, 1, 2147483647, .strict⟩
  | dbReadinessCacheMs => ⟨"DB_READINESS_CACHE_MS", some 1000, 0, 2147483647, .strict⟩
  | dbMigrationCheckTimeoutMs =>
      ⟨"DB_MIGRATION_CHECK_TIMEOUT_MS", some 5000, 1, 2147483647, .strict⟩
  | corsMaxAgeSeconds => ⟨"CORS_MAX_AGE_SECONDS", some 86400, 0, 86400, .strict⟩
  | rateLimitWindowMs => ⟨"RATE_LIMIT_WINDOW_MS", some 60000, 1, 86400000, .strict⟩
  | rateLimitMax => ⟨"RATE_LIMIT_MAX", some 200, 1, 10000, .strict⟩
  | rateLimitMaxClients => ⟨"RATE_LIMIT_MAX_CLIENTS", some 10000, 1, 100000, .strict⟩
  | idempotencyMaxResponseBytes =>
      ⟨"IDEMPOTENCY_MAX_RESPONSE_BYTES", some 65536, 1, 65536, .strict⟩
  | idempotencyCleanupBatchSize => ⟨"IDEMPOTENCY_CLEANUP_BATCH_SIZE", some 100, 1, 1000, .strict⟩
  | idempotencyCleanupMaxBatches => ⟨"IDEMPOTENCY_CLEANUP_MAX_BATCHES", some 10, 1, 100, .strict⟩
  | requestTimeoutMs => ⟨"REQUEST_TIMEOUT_MS", some 10000, 1, 2147483647, .strict⟩
  | httpDrainTimeoutMs => ⟨"HTTP_DRAIN_TIMEOUT_MS", some 25000, 1, 2147483647, .strict⟩
  | shutdownTimeoutMs => ⟨"SHUTDOWN_TIMEOUT_MS", some 30000, 1, 2147483647, .strict⟩
  | requestFirstBodyTimeoutMs =>
      ⟨"REQUEST_FIRST_BODY_TIMEOUT_MS", some 5000, 1, 2147483647, .strict⟩
  | requestChunkTimeoutMs => ⟨"REQUEST_CHUNK_TIMEOUT_MS", some 2000, 1, 2147483647, .strict⟩
  | httpMaxBodyBytes => ⟨"HTTP_MAX_BODY_BYTES", some 1048576, 1, 1073741824, .strict⟩
  | httpMaxHeaderCount => ⟨"HTTP_MAX_HEADER_COUNT", some 100, 1, 10000, .strict⟩
  | httpMaxSingleHeaderBytes => ⟨"HTTP_MAX_SINGLE_HEADER_BYTES", some 4096, 1, 1048576, .strict⟩
  | httpMaxTotalHeaderBytes => ⟨"HTTP_MAX_TOTAL_HEADER_BYTES", some 8192, 1, 16777216, .strict⟩

-- ============================================================================
-- Lists
-- ============================================================================

/-- `[] if not value.strip() else value.split(",")` -/
def splitList (value : List Char) : List (List Char) :=
  if strip value = [] then [] else value.splitOn ','

/-- `parse_list` of a list -/
def parseList (entries : List (List Char)) : Option (List (List Char)) :=
  if entries.any fun entry => strip entry = [] then none
  else some (entries.map strip).eraseDups

/-- `text.removesuffix("/")` -/
def removeSlash (text : List Char) : List Char :=
  if text.getLast? = some '/' then text.dropLast else text

/-- The condition of `validate_origins`. -/
def isExactOrigin (value : List Char) : Bool :=
  match parsers.anyHttpUrl value with
  | none => false
  | some url =>
      removeSlash url.text = value && url.username.isNone && url.password.isNone &&
        url.path = some ['/'] && url.query.isNone && url.fragment.isNone && url.port ≠ some 0 &&
        !value.contains '*'

/-- `validate_origins` -/
def validateOrigins (values : List (List Char)) : Option (List (List Char)) :=
  if values.all (isExactOrigin parsers) then some values else none

/-- `HTTP_METHODS` -/
def httpMethods : List (List Char) :=
  ["GET".toList, "POST".toList, "PUT".toList, "PATCH".toList, "DELETE".toList, "HEAD".toList,
    "OPTIONS".toList]

/-- `validate_methods` -/
def validateMethods (values : List (List Char)) : Option (List (List Char)) :=
  if values.all httpMethods.contains then some values else none

/-- `list(dict.fromkeys(value.lower() for value in values))` -/
def lowerDistinct (values : List (List Char)) : List (List Char) :=
  (values.map (lower parsers.finalSigma)).eraseDups

/-- A character of `[a-z0-9-]`. -/
def isHeaderChar (c : Char) : Bool := ('a' ≤ c && c ≤ 'z') || ('0' ≤ c && c ≤ '9') || c == '-'

/-- A header name that a policy may list. -/
def isPolicyHeader (value : List Char) : Bool :=
  !value.isEmpty && value.all isHeaderChar && !forbiddenHeaders.contains value &&
    value ≠ "connection".toList

/-- `validate_headers` -/
def validateHeaders (values : List (List Char)) : Option (List (List Char)) :=
  let normalized := lowerDistinct parsers values
  if normalized.all isPolicyHeader then some normalized else none

/-- A character of `[a-z0-9!#$&^_.+-]`. -/
def isMediaChar (c : Char) : Bool :=
  ('a' ≤ c && c ≤ 'z') || ('0' ≤ c && c ≤ '9') || "!#$&^_.+-".toList.contains c

/-- An exact media type, without parameters and wildcards. -/
def isMediaType (value : List Char) : Bool :=
  match value.splitOn '/' with
  | [type, subtype] =>
      !type.isEmpty && type.all isMediaChar && !subtype.isEmpty && subtype.all isMediaChar
  | _ => false

/-- `validate_content_types` -/
def validateContentTypes (values : List (List Char)) : Option (List (List Char)) :=
  let normalized := lowerDistinct parsers values
  if normalized.all isMediaType then some normalized else none

/-- `str(network)` -/
def networkText : IpNetwork → List Char
  | .v4 network => IpAddress.ipv4Text network.address ++ '/' :: Nat.toDigits 10 network.prefixlen
  | .v6 network => IpAddress.ipv6Text network.address ++ '/' :: Nat.toDigits 10 network.prefixlen

/-- `validate_proxies` -/
def validateProxies (values : List (List Char)) : Option (List (List Char)) :=
  (values.mapM proxyNetwork).map fun networks => (networks.map networkText).eraseDups

structure ListField where
  name : String
  default : List (List Char)
  minLength : Nat
  maxLength : Nat
  check : Parsers → List (List Char) → Option (List (List Char))

/-- What the field makes of its entries. -/
def ListField.admitted (f : ListField) (entries : List (List Char)) :
    Option (List (List Char)) :=
  (parseList entries).bind fun values =>
    if f.minLength ≤ values.length ∧ values.length ≤ f.maxLength then f.check parsers values
    else none

def ListField.read (f : ListField) : Option (List Char) → Option (List (List Char))
  | none => f.admitted parsers f.default
  | some text => f.admitted parsers (splitList text)

inductive ListSetting where
  | corsOrigins
  | corsMethods
  | corsAllowedHeaders
  | corsExposedHeaders
  | trustProxy
  | httpAllowedMethods
  | httpAllowedContentTypes
deriving DecidableEq, Repr

instance : Fintype ListSetting :=
  Fintype.ofList [.corsOrigins, .corsMethods, .corsAllowedHeaders, .corsExposedHeaders,
    .trustProxy, .httpAllowedMethods, .httpAllowedContentTypes]
    fun setting => by cases setting <;> decide

def ListSetting.field : ListSetting → ListField
  | corsOrigins =>
      ⟨"CORS_ORIGINS", ["http://localhost:3000".toList], 1, 100, validateOrigins⟩
  | corsMethods =>
      ⟨"CORS_METHODS", ["GET".toList, "POST".toList, "PUT".toList, "DELETE".toList,
        "PATCH".toList, "HEAD".toList, "OPTIONS".toList], 1, 7, fun _ => validateMethods⟩
  | corsAllowedHeaders =>
      ⟨"CORS_ALLOWED_HEADERS", ["content-type".toList, "authorization".toList,
        "x-requested-with".toList, "idempotency-key".toList], 0, 100, validateHeaders⟩
  | corsExposedHeaders =>
      ⟨"CORS_EXPOSED_HEADERS", ["authorization".toList, "set-cookie".toList], 0, 100,
        validateHeaders⟩
  | trustProxy => ⟨"TRUST_PROXY", [], 0, 100, fun _ => validateProxies⟩
  | httpAllowedMethods =>
      ⟨"HTTP_ALLOWED_METHODS", httpMethods, 1, 7, fun _ => validateMethods⟩
  | httpAllowedContentTypes =>
      ⟨"HTTP_ALLOWED_CONTENT_TYPES", ["application/json".toList, "multipart/form-data".toList],
        1, 100, validateContentTypes⟩

-- ============================================================================
-- Flags
-- ============================================================================

inductive Env where
  | development
  | production
  | test
deriving DecidableEq, Repr

/-- `operational_default` -/
def operationalDefault (env : Option Env) : Bool := env ≠ some .production

inductive BoolSetting where
  | corsCredentials
  | docsEnabled
  | diagnosticsEnabled
  | metricsEnabled
  | dbSsl
deriving DecidableEq, Repr

instance : Fintype BoolSetting :=
  Fintype.ofList [.corsCredentials, .docsEnabled, .diagnosticsEnabled, .metricsEnabled, .dbSsl]
    fun setting => by cases setting <;> decide

namespace BoolSetting

def name : BoolSetting → String
  | corsCredentials => "CORS_CREDENTIALS"
  | docsEnabled => "DOCS_ENABLED"
  | diagnosticsEnabled => "DIAGNOSTICS_ENABLED"
  | metricsEnabled => "METRICS_ENABLED"
  | dbSsl => "DB_SSL"

def default (env : Option Env) : BoolSetting → Bool
  | corsCredentials => true
  | docsEnabled => operationalDefault env
  | diagnosticsEnabled => operationalDefault env
  | metricsEnabled => operationalDefault env
  | dbSsl => false

end BoolSetting

/-- `strict_boolean` -/
def strictBoolean (text : List Char) : Option Bool :=
  if text = "true".toList then some true
  else if text = "false".toList then some false
  else none

def BoolSetting.read (env : Option Env) (setting : BoolSetting) : Option (List Char) → Option Bool
  | none => some (setting.default env)
  | some text => strictBoolean text

-- ============================================================================
-- Texts
-- ============================================================================

/-- `Literal["development", "production", "test"]` -/
def Env.text : Env → List Char
  | development => "development".toList
  | production => "production".toList
  | test => "test".toList

def readEnv (text : List Char) : Option Env :=
  [Env.development, .production, .test].find? (·.text = text)

inductive LogLevel where
  | debug
  | info
  | warn
  | error
deriving DecidableEq, Repr

/-- `Literal["DEBUG", "INFO", "WARN", "ERROR"]` -/
def LogLevel.text : LogLevel → List Char
  | debug => "DEBUG".toList
  | info => "INFO".toList
  | warn => "WARN".toList
  | error => "ERROR".toList

def readLogLevel : Option (List Char) → Option LogLevel
  | none => some .info
  | some text => [LogLevel.debug, .info, .warn, .error].find? (·.text = text)

/-- `APP_NAME` -/
def readAppName (text : List Char) : Option (List Char) :=
  if 1 ≤ text.length ∧ text.length ≤ 120 then some text else none

/-- `SEMVER_REGEX` -/
def isSemver (text : List Char) : Bool :=
  match text.splitOn '.' with
  | [major, minor, patch] =>
      [major, minor, patch].all fun part => !part.isEmpty && part.all fun c => (digitOf c).isSome
  | _ => false

/-- `APP_VERSION` -/
def readAppVersion (text : List Char) : Option (List Char) :=
  if isSemver text then some text else none

/-- `HOST` -/
def readHost (text : Option (List Char)) : Option (List Char) :=
  some (text.getD "0.0.0.0".toList)

/-- `DATABASE_URL` -/
def readDatabaseUrl (text : List Char) : Option (List Char) :=
  if 5 ≤ text.length then some text else none

/-- `DB_SSL_CA_FILE` -/
def readCaFile : Option (List Char) → Option (Option (List Char))
  | none => some none
  | some text => if 1 ≤ text.length then some (some text) else none

/-- `TIMEZONE`, with `validate_timezone` -/
def readTimezone (text : Option (List Char)) : Option (List Char) :=
  let zone := text.getD "Etc/UTC".toList
  if parsers.zoneInfo zone then some zone else none

end QuickApi.Config
