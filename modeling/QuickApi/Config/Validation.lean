/-
  QuickApi.Config.Validation

  `Settings` (`app/config/environment.py`): the settings of an environment
  whose texts fit their fields, where the settings fit each other.
-/

import QuickApi.RateLimit.Policy
import QuickApi.Config.Fields

namespace QuickApi.Config

open QuickApi.Lib
open QuickApi.RateLimit (RateLimitPolicy)

/-- The texts of the environment, by name. -/
abbrev Environment := String → Option (List Char)

@[ext]
structure Settings where
  appName : List Char
  appVersion : List Char
  env : Env
  logLevel : LogLevel
  host : List Char
  databaseUrl : List Char
  dbSslCaFile : Option (List Char)
  timezone : List Char
  int : IntSetting → Int
  list : ListSetting → List (List Char)
  bool : BoolSetting → Bool

variable (parsers : Parsers)

-- ============================================================================
-- Fields
-- ============================================================================

/-- The settings of an environment whose texts fit their fields. -/
def readSettings (environ : Environment) : Option Settings := do
  let appName ← (environ "APP_NAME").bind readAppName
  let appVersion ← (environ "APP_VERSION").bind readAppVersion
  let env ← (environ "ENV").bind readEnv
  let logLevel ← readLogLevel (environ "LOG_LEVEL")
  let host ← readHost (environ "HOST")
  let databaseUrl ← (environ "DATABASE_URL").bind readDatabaseUrl
  let dbSslCaFile ← readCaFile (environ "DB_SSL_CA_FILE")
  let timezone ← readTimezone parsers (environ "TIMEZONE")
  let int ← gather fun setting : IntSetting =>
    setting.field.read parsers (environ setting.field.name)
  let list ← gather fun setting : ListSetting =>
    setting.field.read parsers (environ setting.field.name)
  let bool ← gather fun setting : BoolSetting => setting.read env (environ setting.name)
  return { appName, appVersion, env, logLevel, host, databaseUrl, dbSslCaFile, timezone, int,
           list, bool }

/-- Each setting is what its field reads. -/
structure Settings.ReadFrom (s : Settings) (environ : Environment) : Prop where
  appName : (environ "APP_NAME").bind readAppName = some s.appName
  appVersion : (environ "APP_VERSION").bind readAppVersion = some s.appVersion
  env : (environ "ENV").bind readEnv = some s.env
  logLevel : readLogLevel (environ "LOG_LEVEL") = some s.logLevel
  host : readHost (environ "HOST") = some s.host
  databaseUrl : (environ "DATABASE_URL").bind readDatabaseUrl = some s.databaseUrl
  dbSslCaFile : readCaFile (environ "DB_SSL_CA_FILE") = some s.dbSslCaFile
  timezone : readTimezone parsers (environ "TIMEZONE") = some s.timezone
  int : ∀ setting : IntSetting,
    setting.field.read parsers (environ setting.field.name) = some (s.int setting)
  list : ∀ setting : ListSetting,
    setting.field.read parsers (environ setting.field.name) = some (s.list setting)
  bool : ∀ setting : BoolSetting,
    setting.read s.env (environ setting.name) = some (s.bool setting)

variable {parsers} in
theorem readSettings_iff {environ : Environment} {s : Settings} :
    readSettings parsers environ = some s ↔ s.ReadFrom parsers environ := by
  constructor
  · intro h
    simp only [readSettings, bind, Option.bind_eq_some_iff, gather_eq_some, pure,
      Option.some.injEq] at h
    obtain ⟨appName, happName, appVersion, happVersion, env, henv, logLevel, hlogLevel, host,
      hhost, databaseUrl, hdatabaseUrl, caFile, hcaFile, timezone, htimezone, int, hint, list,
      hlist, bool, hbool, rfl⟩ := h
    exact ⟨Option.bind_eq_some_iff.mpr happName, Option.bind_eq_some_iff.mpr happVersion,
      Option.bind_eq_some_iff.mpr henv, hlogLevel, hhost,
      Option.bind_eq_some_iff.mpr hdatabaseUrl, hcaFile, htimezone, hint, hlist, hbool⟩
  · intro h
    simp only [readSettings, bind, h.appName, h.appVersion, h.env, h.logLevel, h.host,
      h.databaseUrl, h.dbSslCaFile, h.timezone, Option.bind_some, gather_eq_some.mpr h.int,
      gather_eq_some.mpr h.list, gather_eq_some.mpr h.bool, pure]

-- ============================================================================
-- Relationships
-- ============================================================================

/-- `make_url(self.DATABASE_URL)` is supported. -/
def supportedUrl (text : List Char) : Bool :=
  match parsers.makeUrl text with
  | none => false
  | some url => url.drivername = "mysql+asyncmy".toList && url.query.all (· = "charset".toList)

/-- `validate_http_relationships`: the settings fit each other. -/
structure Settings.Fitting (s : Settings) : Prop where
  sweep : s.int .idempotencyCleanupBatchSize * s.int .idempotencyCleanupMaxBatches ≤ 10000
  database : supportedUrl parsers s.databaseUrl = true
  drain : s.int .httpDrainTimeoutMs < s.int .shutdownTimeoutMs
  caFile : ∀ file ∈ s.dbSslCaFile, s.bool .dbSsl = true ∧ strip file ≠ []
  tls : s.bool .dbSsl = true → parsers.tlsContext s.dbSslCaFile = true
  headers : s.int .httpMaxSingleHeaderBytes ≤ s.int .httpMaxTotalHeaderBytes
  body : max (s.int .requestFirstBodyTimeoutMs) (s.int .requestChunkTimeoutMs) ≤
    s.int .requestTimeoutMs
  methods : ∀ method ∈ s.list .corsMethods, method ∈ s.list .httpAllowedMethods
  rateLimit : (RateLimitPolicy.validate (s.int .rateLimitWindowMs) (s.int .rateLimitMax)
    (s.int .rateLimitMaxClients)).isOk = true

theorem Settings.fitting_iff (s : Settings) : s.Fitting parsers ↔
    s.int .idempotencyCleanupBatchSize * s.int .idempotencyCleanupMaxBatches ≤ 10000 ∧
    supportedUrl parsers s.databaseUrl = true ∧
    s.int .httpDrainTimeoutMs < s.int .shutdownTimeoutMs ∧
    (∀ file ∈ s.dbSslCaFile, s.bool .dbSsl = true ∧ strip file ≠ []) ∧
    (s.bool .dbSsl = true → parsers.tlsContext s.dbSslCaFile = true) ∧
    s.int .httpMaxSingleHeaderBytes ≤ s.int .httpMaxTotalHeaderBytes ∧
    max (s.int .requestFirstBodyTimeoutMs) (s.int .requestChunkTimeoutMs) ≤
      s.int .requestTimeoutMs ∧
    (∀ method ∈ s.list .corsMethods, method ∈ s.list .httpAllowedMethods) ∧
    (RateLimitPolicy.validate (s.int .rateLimitWindowMs) (s.int .rateLimitMax)
      (s.int .rateLimitMaxClients)).isOk = true := by
  constructor
  · intro h
    exact ⟨h.sweep, h.database, h.drain, h.caFile, h.tls, h.headers, h.body, h.methods,
      h.rateLimit⟩
  · rintro ⟨hsweep, hdatabase, hdrain, hcaFile, htls, hheaders, hbody, hmethods, hrateLimit⟩
    exact ⟨hsweep, hdatabase, hdrain, hcaFile, htls, hheaders, hbody, hmethods, hrateLimit⟩

instance (s : Settings) : Decidable (s.Fitting parsers) :=
  decidable_of_iff _ (s.fitting_iff parsers).symm

/-- `Settings()`; `none` stands for a `ValidationError`. -/
def validate (environ : Environment) : Option Settings :=
  (readSettings parsers environ).filter fun s => s.Fitting parsers

variable {parsers} in
theorem validate_iff {environ : Environment} {s : Settings} :
    validate parsers environ = some s ↔ s.ReadFrom parsers environ ∧ s.Fitting parsers := by
  rw [validate, Option.filter_eq_some_iff, readSettings_iff, decide_eq_true_eq]

end QuickApi.Config
