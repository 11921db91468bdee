import SchemaHost.Json.Decode

/-! # Settings

The values that an installation may set through its environment. Names of variables are taken
without regard to case, and unknown ones are passed over.
-/

namespace SchemaHost

open Json

structure Settings where
  appEnv : String := "production"
  appHost : String := "127.0.0.1"
  appPort : Int := 8000
  logLevel : String := "INFO"
  dbHost : String := "localhost"
  dbPort : Int := 5432
  dbUser : String := "postgres"
  dbPassword : String := "postgres"
  dbName : String := "tenanta"
  maintenanceName : String := "postgres"
  poolSize : Int := 5
  maxOverflow : Int := 10
  poolRecycle : Int := 3600
  connectTimeout : Int := 10
  defaultSchema : String := "public"
  redisHost : String := "localhost"
  redisPort : Int := 6379
  redisPassword : Option String := none
  redisDb : Int := 0
  namespaceCount : Int := 16
  previewRows : Int := 5
  retentionDays : Int := 30
  overviewTtl : Int := 60
  deriving DecidableEq, Repr, Inhabited

namespace Settings

def databaseUrl (s : Settings) : String :=
  "postgresql+asyncpg://" ++ s.dbUser ++ ":" ++ s.dbPassword ++ "@" ++ s.dbHost ++ ":" ++
    toString s.dbPort ++ "/" ++ s.dbName

/-- A variable: how its value is shown, and what a text for it changes. -/
structure Variable where
  name : String
  shown : Settings → Json
  put : String → Checked (Settings → Settings)

def Variable.text (name : String) (get : Settings → String) (set : String → Settings → Settings) :
    Variable :=
  ⟨name, fun s => .str (get s), fun x => .ok (set x)⟩

def Variable.number (name : String) (get : Settings → Int) (set : Int → Settings → Settings) :
    Variable :=
  ⟨name, fun s => .int (get s), fun x => (intOfText x).map set⟩

def catalogue : List Variable :=
  [.text "APP_ENV" (·.appEnv) fun x s => { s with appEnv := x },
   .text "APP_HOST" (·.appHost) fun x s => { s with appHost := x },
   .number "APP_PORT" (·.appPort) fun x s => { s with appPort := x },
   .text "LOG_LEVEL" (·.logLevel) fun x s => { s with logLevel := x },
   .text "DB_HOST" (·.dbHost) fun x s => { s with dbHost := x },
   .number "DB_PORT" (·.dbPort) fun x s => { s with dbPort := x },
   .text "DB_USER" (·.dbUser) fun x s => { s with dbUser := x },
   .text "DB_PASSWORD" (·.dbPassword) fun x s => { s with dbPassword := x },
   .text "DB_NAME" (·.dbName) fun x s => { s with dbName := x },
   .text "TENANT_DB_MAINTENANCE_NAME" (·.maintenanceName) fun x s => { s with maintenanceName := x },
   .number "TENANT_DB_POOL_SIZE" (·.poolSize) fun x s => { s with poolSize := x },
   .number "TENANT_DB_MAX_OVERFLOW" (·.maxOverflow) fun x s => { s with maxOverflow := x },
   .number "TENANT_DB_POOL_RECYCLE" (·.poolRecycle) fun x s => { s with poolRecycle := x },
   .number "TENANT_DB_CONNECT_TIMEOUT" (·.connectTimeout) fun x s => { s with connectTimeout := x },
   .text "TENANT_DEFAULT_SCHEMA" (·.defaultSchema) fun x s => { s with defaultSchema := x },
   .text "REDIS_HOST" (·.redisHost) fun x s => { s with redisHost := x },
   .number "REDIS_PORT" (·.redisPort) fun x s => { s with redisPort := x },
   ⟨"REDIS_PASSWORD", (Json.ofOption .str ·.redisPassword),
     fun x => .ok fun s => { s with redisPassword := some x }⟩,
   .number "REDIS_DB" (·.redisDb) fun x s => { s with redisDb := x },
   .number "REDIS_NAMESPACE_COUNT" (·.namespaceCount) fun x s => { s with namespaceCount := x },
   .number "QUERY_PREVIEW_ROWS" (·.previewRows) fun x s => { s with previewRows := x },
   .number "QUERY_HISTORY_RETENTION_DAYS" (·.retentionDays) fun x s => { s with retentionDays := x },
   .number "SCHEMA_OVERVIEW_CACHE_TTL" (·.overviewTtl) fun x s => { s with overviewTtl := x }]

def toJson (s : Settings) : Json :=
  .obj (catalogue.map (fun v => (v.name, v.shown s)) ++ [("DATABASE_URL", .str s.databaseUrl)])

abbrev Environment := List (String × String)

def valueOf? (env : Environment) (name : String) : Option String :=
  (env.reverse.find? fun (k, _) => k.map Char.toUpper == name).map (·.2)

/-- The faults of all variables are reported together, in the order of the catalogue. -/
def readVariables (env : Environment) : List Variable → Checked Settings
  | [] => .ok {}
  | v :: vs =>
    let rest := readVariables env vs
    match valueOf? env v.name with
    | none => rest
    | some x => (Checked.pair ((v.put x).within (.field v.name)) rest).map fun (set, s) => set s

def ofEnvironment (env : Environment) : Checked Settings :=
  readVariables env catalogue

end Settings

end SchemaHost
