import LocalDataPlatform.Cdc.Reconcile
import LocalDataPlatform.Runs.Programs
import Mathlib.Data.Finset.Basic

/-!
# The CDC deployment job

`cdc/bootstrap.py` prepares the role and the publication that Debezium needs, each statement of it committed
on its own, and puts the configuration of the connector.

* `Catalog` — what PostgreSQL keeps of roles, privileges and publications; `Statement.execute` — the
  administrative statements.
* `Operation`, `Perform` — what the job asks of the server and of the Connect worker, and what these do.
* `configurePostgres`, `waitForConnect`, `connectorConfig`, `registerConnector`, `main` — the job.
* `OfJob` — the operations of a job with given variables.

Principal results: `calls_main` (a job performs no other operations), `execute_createRole_ok` and its like (what
each statement does when it succeeds).
-/

set_option autoImplicit false

namespace LocalDataPlatform.Cdc.Bootstrap

open Runs

/-! ## The catalog -/

/-- The name of a table with its schema. -/
structure QualifiedName where
  schema : String
  name : String
  deriving DecidableEq, Repr

def QualifiedName.text (t : QualifiedName) : String := t.schema ++ "." ++ t.name

/-- What may be granted to a role. -/
inductive Privilege where
  | connect (database : String)
  | usage (schema : String)
  | select (table : QualifiedName)
  deriving DecidableEq, Repr

/-- A role; `password` is the one that its stored verifier accepts. -/
structure Role where
  login : Bool
  replication : Bool
  password : Option String
  superuser : Bool
  createdb : Bool
  createrole : Bool
  deriving DecidableEq, Repr

/-- A publication; `schemas` are those of which it captures every table. -/
structure Publication where
  allTables : Bool
  tables : List QualifiedName
  schemas : List String
  publish : List String
  deriving DecidableEq, Repr

/-- The server, and the database that the jobs connect to. -/
structure Catalog where
  databases : List String
  schemas : List String
  tables : List QualifiedName
  roles : String → Option Role
  granted : String → Finset Privilege
  publications : String → Option Publication

/-- What a statement is refused for. -/
inductive SqlError where
  | duplicateRole (name : String)
  | undefinedRole (name : String)
  | undefinedDatabase (name : String)
  | undefinedSchema (name : String)
  | undefinedTable (name : QualifiedName)
  | duplicatePublication (name : String)
  | undefinedPublication (name : String)
  | forAllTables (name : String)
  /-- The login is refused, or there is no such database. -/
  | refusedLogin (user : String)
  /-- The connection breaks, a privilege is missing, or a lock or a concurrent update of the same row is in
  the way. -/
  | interrupted
  deriving DecidableEq, Repr

/-- The administrative statements of the job. -/
inductive Statement where
  | createRole (name password : String)
  | alterRole (name password : String)
  | grant (privileges : List Privilege) (role : String)
  | createPublication (name : String) (tables : List QualifiedName)
  | alterPublication (name : String) (tables : List QualifiedName)
  deriving DecidableEq, Repr

/-- The object of a privilege that does not exist. -/
def Privilege.undefined (db : Catalog) : Privilege → Option SqlError
  | .connect database => if database ∈ db.databases then none else some (.undefinedDatabase database)
  | .usage schema => if schema ∈ db.schemas then none else some (.undefinedSchema schema)
  | .select table => if table ∈ db.tables then none else some (.undefinedTable table)

/-- A table of a list that does not exist. -/
def undefinedTable (db : Catalog) (tables : List QualifiedName) : Option SqlError :=
  tables.findSome? fun table => if table ∈ db.tables then none else some (.undefinedTable table)

/-- What a role gets from `CREATE ROLE .. WITH LOGIN REPLICATION PASSWORD`. -/
def newRole (password : String) : Role where
  login := true
  replication := true
  password := some password
  superuser := false
  createdb := false
  createrole := false

/-- `ALTER ROLE .. WITH LOGIN REPLICATION PASSWORD` leaves the other attributes alone. -/
def Role.repaired (role : Role) (password : String) : Role :=
  { role with login := true, replication := true, password := some password }

/-- `CREATE PUBLICATION .. FOR TABLE`. -/
def newPublication (tables : List QualifiedName) : Publication where
  allTables := false
  tables := tables
  schemas := []
  publish := ["insert", "update", "delete", "truncate"]

/-- Whether a session of the role may begin: the role may log in with the password, and the database is
there. -/
def Catalog.Accepts (db : Catalog) (user password database : String) : Prop :=
  (∃ role, db.roles user = some role ∧ role.login = true ∧ role.password = some password) ∧
    database ∈ db.databases

def Catalog.putRole (db : Catalog) (name : String) (role : Role) : Catalog :=
  { db with roles := Function.update db.roles name (some role) }

def Catalog.putPublication (db : Catalog) (name : String) (p : Publication) : Catalog :=
  { db with publications := Function.update db.publications name (some p) }

def Catalog.grant (db : Catalog) (role : String) (privileges : List Privilege) : Catalog :=
  { db with granted := Function.update db.granted role (db.granted role ∪ privileges.toFinset) }

/-- A statement, which either has its whole effect or none. -/
def Statement.execute : Statement → Catalog → Except SqlError Catalog
  | .createRole name password, db =>
    match db.roles name with
    | some _ => .error (.duplicateRole name)
    | none => .ok (db.putRole name (newRole password))
  | .alterRole name password, db =>
    match db.roles name with
    | some role => .ok (db.putRole name (role.repaired password))
    | none => .error (.undefinedRole name)
  | .grant privileges role, db =>
    match privileges.findSome? (Privilege.undefined db), db.roles role with
    | some e, _ => .error e
    | none, none => .error (.undefinedRole role)
    | none, some _ => .ok (db.grant role privileges)
  | .createPublication name tables, db =>
    match db.publications name, undefinedTable db tables with
    | some _, _ => .error (.duplicatePublication name)
    | none, some e => .error e
    | none, none => .ok (db.putPublication name (newPublication tables))
  | .alterPublication name tables, db =>
    match db.publications name, undefinedTable db tables with
    | none, _ => .error (.undefinedPublication name)
    | some p, undefined =>
      -- SET TABLE replaces the tables and the schemas; a publication FOR ALL TABLES has neither
      if p.allTables then .error (.forAllTables name)
      else match undefined with
        | some e => .error e
        | none => .ok (db.putPublication name { p with tables := tables, schemas := [] })

/-! ## The operations of the job -/

/-- The configuration of a connector. -/
abbrev Config := List (String × String)

/-- What becomes of a request instead of a response that the job can read. -/
inductive Failure where
  /-- An `HTTPError`. -/
  | http (code : Nat) (text : String)
  /-- Another `OSError`, or no JSON. -/
  | transport (text : String)
  /-- Anything else, such as a document of another shape. -/
  | unexpected
  deriving DecidableEq, Repr

/-- `/connectors/{name}/status`: the state of the connector and of its tasks. -/
structure Status where
  connector : Option String
  tasks : List (Option String)
  deriving DecidableEq, Repr

inductive Operation where
  /-- `psycopg.connect`. -/
  | connect (user password database : String)
  | lookupRole (name : String)
  | lookupPublication (name : String)
  | execute (statement : Statement)
  /-- `time.monotonic() < deadline`. -/
  | beforeDeadline
  | getPlugins
  | putConfig (name : String) (config : Config)
  | getStatus (name : String)
  deriving DecidableEq, Repr

/-- What an operation answers. -/
abbrev Answer : Operation → Type
  | .connect _ _ _ => Except SqlError Unit
  | .lookupRole _ => Except SqlError Bool
  | .lookupPublication _ => Except SqlError Bool
  | .execute _ => Except SqlError Unit
  | .beforeDeadline => Bool
  | .getPlugins => Except Failure (List String)
  | .putConfig _ _ => Except Failure Unit
  | .getStatus _ => Except Failure Status

/-- The server, and the connectors that the worker has. -/
structure State where
  catalog : Catalog
  connectors : String → Option Config

def State.putConfig (s : State) (name : String) (config : Config) : State :=
  { s with connectors := Function.update s.connectors name (some config) }

/-- What an operation answers and does.  A statement or a request may have its effect although the job does
not get the answer; the worker may answer anything at any time. -/
inductive Perform : (op : Operation) → State → Answer op → State → Prop
  | connect (s : State) {user password database : String} (h : s.catalog.Accepts user password database) :
      Perform (.connect user password database) s (.ok ()) s
  | connectRefused (s : State) {user password database : String}
      (h : ¬ s.catalog.Accepts user password database) :
      Perform (.connect user password database) s (.error (.refusedLogin user)) s
  | connectInterrupted (s : State) (user password database : String) :
      Perform (.connect user password database) s (.error .interrupted) s
  | lookupRole (s : State) (name : String) :
      Perform (.lookupRole name) s (.ok (s.catalog.roles name).isSome) s
  | lookupRoleInterrupted (s : State) (name : String) :
      Perform (.lookupRole name) s (.error .interrupted) s
  | lookupPublication (s : State) (name : String) :
      Perform (.lookupPublication name) s (.ok (s.catalog.publications name).isSome) s
  | lookupPublicationInterrupted (s : State) (name : String) :
      Perform (.lookupPublication name) s (.error .interrupted) s
  | executed (s : State) {statement : Statement} {catalog : Catalog}
      (h : statement.execute s.catalog = .ok catalog) :
      Perform (.execute statement) s (.ok ()) { s with catalog := catalog }
  | refused (s : State) {statement : Statement} {e : SqlError} (h : statement.execute s.catalog = .error e) :
      Perform (.execute statement) s (.error e) s
  | interrupted (s : State) (statement : Statement) :
      Perform (.execute statement) s (.error .interrupted) s
  | unacknowledged (s : State) {statement : Statement} {catalog : Catalog}
      (h : statement.execute s.catalog = .ok catalog) :
      Perform (.execute statement) s (.error .interrupted) { s with catalog := catalog }
  | beforeDeadline (s : State) (answer : Bool) : Perform .beforeDeadline s answer s
  | getPlugins (s : State) (answer : Except Failure (List String)) : Perform .getPlugins s answer s
  | putConfig (s : State) (name : String) (config : Config) (answer : Except Failure Unit) :
      Perform (.putConfig name config) s answer (s.putConfig name config)
  | putConfigFailed (s : State) (name : String) (config : Config) (f : Failure) :
      Perform (.putConfig name config) s (.error f) s
  | getStatus (s : State) (name : String) (answer : Except Failure Status) :
      Perform (.getStatus name) s answer s

/-! ## The job -/

/-- What ends the job early. -/
inductive Raised where
  /-- `ValueError` of `required`. -/
  | missing (text : String)
  | sql (e : SqlError)
  | request (f : Failure)
  /-- `TimeoutError`: Kafka Connect did not become ready. -/
  | notReady (lastError : String)
  /-- `RuntimeError`: the connector failed to reach RUNNING state; none is the status before the first
  answer, and `propagating` the one that stands for a 404. -/
  | notRunning (latestStatus : Option (Option Status))
  deriving DecidableEq, Repr

abbrev Job := Program Answer Raised

def Raised.propagating : Option (Option Status) := some none

def capturedTables : List String := ["customers"]

/-- `sql.Identifier("public", table)` for each captured table. -/
def tableList : List QualifiedName := capturedTables.map fun table => ⟨"public", table⟩

def ofSql {β : Type} : Except SqlError β → Job β
  | .ok b => pure b
  | .error e => .raise (.sql e)

def ofRequest {β : Type} : Except Failure β → Job β
  | .ok b => pure b
  | .error f => .raise (.request f)

def ofRequired {β : Type} : Except String β → Job β
  | .ok b => pure b
  | .error text => .raise (.missing text)

def require (env : String → Option String) (name : String) : Job String := ofRequired (required env name)

def execute (statement : Statement) : Job Unit := .call (.execute statement) ofSql

/-- The first IF of `configure_postgres`. -/
def ensureRole (cdcUser cdcPassword : String) : Job Unit := do
  if ← .call (.lookupRole cdcUser) ofSql then execute (.alterRole cdcUser cdcPassword)
  else execute (.createRole cdcUser cdcPassword)

/-- The second IF of `configure_postgres`. -/
def ensurePublication (publication : String) : Job Unit := do
  if ← .call (.lookupPublication publication) ofSql then execute (.alterPublication publication tableList)
  else execute (.createPublication publication tableList)

/-- The GRANT statements and what follows them. -/
def grantAndPublish (env : String → Option String) (cdcUser database : String) : Job Unit := do
  execute (.grant [.connect database] cdcUser)
  execute (.grant [.usage "public"] cdcUser)
  execute (.grant (tableList.map .select) cdcUser)
  -- read only here, so that the statements above are committed if it is missing
  let publication ← require env "CDC_PUBLICATION_NAME"
  ensurePublication publication

def configurePostgres (env : String → Option String) : Job Unit := do
  let adminUser ← require env "ECOMMERCE_POSTGRES_USER"
  let cdcUser ← require env "CDC_POSTGRES_USER"
  let cdcPassword ← require env "CDC_POSTGRES_PASSWORD"
  let database ← require env "ECOMMERCE_POSTGRES_DB"
  let _host ← require env "ECOMMERCE_POSTGRES_HOST"
  let _port ← require env "ECOMMERCE_POSTGRES_PORT"
  let password ← require env "ECOMMERCE_POSTGRES_PASSWORD"
  .call (.connect adminUser password database) ofSql
  ensureRole cdcUser cdcPassword
  grantAndPublish env cdcUser database

def postgresConnector : String := "io.debezium.connector.postgresql.PostgresConnector"

/-- The text that the wait for Kafka Connect keeps of a failure. -/
def Failure.text : Failure → String
  | .http code text => "HTTPError: HTTP Error " ++ toString code ++ ": " ++ text
  | .transport text => text
  | .unexpected => ""

/-- The loop of `wait_for_connect`; each turn of it sleeps two seconds, which bounds the turns. -/
def waitTurns : (turns : Nat) → (lastError : String) → Job Unit
  | 0, lastError => .raise (.notReady lastError)
  | turns + 1, lastError =>
    .call .beforeDeadline fun inTime =>
      if inTime then
        .call .getPlugins fun
          | .ok classes =>
            if postgresConnector ∈ classes then pure ()
            else waitTurns turns "PostgreSQL connector plug-in not listed"
          | .error .unexpected => .raise (.request .unexpected)
          | .error f => waitTurns turns f.text
      else .raise (.notReady lastError)

def waitForConnect : Job Unit := waitTurns (180 / 2) "not started"

def connectorConfig (env : String → Option String) : Except String Config := do
  let topicPrefix ← required env "CDC_TOPIC_PREFIX"
  let registryUrl ← required env "SCHEMA_REGISTRY_NATIVE_URL"
  let avroConverter := "io.apicurio.registry.utils.converter.AvroConverter"
  let hostname ← required env "ECOMMERCE_POSTGRES_HOST"
  let port ← required env "ECOMMERCE_POSTGRES_PORT"
  let user ← required env "CDC_POSTGRES_USER"
  let password ← required env "CDC_POSTGRES_PASSWORD"
  let dbname ← required env "ECOMMERCE_POSTGRES_DB"
  let slotName ← required env "CDC_SLOT_NAME"
  let publicationName ← required env "CDC_PUBLICATION_NAME"
  return [("connector.class", postgresConnector),
    ("tasks.max", "1"),
    ("database.hostname", hostname),
    ("database.port", port),
    ("database.user", user),
    ("database.password", password),
    ("database.dbname", dbname),
    ("topic.prefix", topicPrefix),
    ("plugin.name", "pgoutput"),
    ("slot.name", slotName),
    ("slot.drop.on.stop", "false"),
    ("publication.name", publicationName),
    ("publication.autocreate.mode", "disabled"),
    ("table.include.list", ",".intercalate (capturedTables.map fun table => "public." ++ table)),
    ("snapshot.mode", "initial"),
    ("tombstones.on.delete", "true"),
    ("provide.transaction.metadata", "true"),
    ("heartbeat.interval.ms", "10000"),
    ("schema.name.adjustment.mode", "avro"),
    ("key.converter", avroConverter),
    ("key.converter.apicurio.registry.url", registryUrl),
    ("key.converter.apicurio.registry.auto-register", "true"),
    ("key.converter.apicurio.registry.find-latest", "true"),
    ("key.converter.apicurio.registry.as-confluent", "true"),
    ("key.converter.apicurio.use-id", "contentId"),
    ("key.converter.apicurio.registry.headers.enabled", "false"),
    ("key.converter.schemas.enable", "false"),
    ("value.converter", avroConverter),
    ("value.converter.apicurio.registry.url", registryUrl),
    ("value.converter.apicurio.registry.auto-register", "true"),
    ("value.converter.apicurio.registry.find-latest", "true"),
    ("value.converter.apicurio.registry.as-confluent", "true"),
    ("value.converter.apicurio.use-id", "contentId"),
    ("value.converter.apicurio.registry.headers.enabled", "false"),
    ("value.converter.schemas.enable", "false"),
    ("topic.creation.default.replication.factor", "1"),
    ("topic.creation.default.partitions", "1"),
    ("topic.creation.default.cleanup.policy", "delete"),
    ("topic.creation.default.retention.ms", "604800000"),
    ("topic.creation.groups", "tables"),
    ("topic.creation.tables.include", topicPrefix ++ "\\.public\\..*"),
    ("topic.creation.tables.partitions", "3"),
    ("topic.creation.tables.cleanup.policy", "compact"),
    ("topic.creation.tables.delete.retention.ms", "86400000"),
    ("topic.creation.tables.compression.type", "lz4")]

def Status.connectorRunning (status : Status) : Bool := status.connector == some "RUNNING"

def Status.tasksRunning (status : Status) : Bool :=
  !status.tasks.isEmpty && status.tasks.all (· == some "RUNNING")

def Status.taskFailed (status : Status) : Bool := status.tasks.any (· == some "FAILED")

/-- The loop of `register_connector`. -/
def statusTurns (connectorName : String) : (turns : Nat) → (latest : Option (Option Status)) → Job Unit
  | 0, latest => .raise (.notRunning latest)
  | turns + 1, latest =>
    .call .beforeDeadline fun inTime =>
      if inTime then
        .call (.getStatus connectorName) fun
          | .error (.http 404 _) => statusTurns connectorName turns Raised.propagating
          | .error f => .raise (.request f)
          | .ok status =>
            if status.connectorRunning && status.tasksRunning then pure ()
            else if status.taskFailed then .raise (.notRunning (some (some status)))
            else statusTurns connectorName turns (some (some status))
      else .raise (.notRunning latest)

def registerConnector (env : String → Option String) : Job Unit := do
  let _baseUrl ← require env "DEBEZIUM_CONNECT_URL"
  let connectorName ← require env "CDC_CONNECTOR_NAME"
  waitForConnect
  let config ← ofRequired (connectorConfig env)
  .call (.putConfig connectorName config) ofRequest
  statusTurns connectorName (180 / 2) none

def main (env : String → Option String) : Job Unit := do
  configurePostgres env
  registerConnector env

/-! ## What each statement does -/

section Statements

variable {db db' : Catalog} {name password role : String} {privileges : List Privilege}
  {tables : List QualifiedName}

theorem execute_createRole_ok (h : (Statement.createRole name password).execute db = .ok db') :
    db.roles name = none ∧ db' = db.putRole name (newRole password) := by
  unfold Statement.execute at h
  cases hrole : db.roles name with
  | some r => simp [hrole] at h
  | none =>
    simp only [hrole, Except.ok.injEq] at h
    exact ⟨rfl, h.symm⟩

theorem execute_alterRole_ok (h : (Statement.alterRole name password).execute db = .ok db') :
    ∃ r, db.roles name = some r ∧ db' = db.putRole name (r.repaired password) := by
  unfold Statement.execute at h
  cases hrole : db.roles name with
  | none => simp [hrole] at h
  | some r =>
    simp only [hrole, Except.ok.injEq] at h
    exact ⟨r, rfl, h.symm⟩

theorem execute_grant_ok (h : (Statement.grant privileges role).execute db = .ok db') :
    (db.roles role).isSome ∧ privileges.findSome? (Privilege.undefined db) = none ∧
      db' = db.grant role privileges := by
  unfold Statement.execute at h
  cases hundefined : privileges.findSome? (Privilege.undefined db) with
  | some e => simp [hundefined] at h
  | none =>
    cases hrole : db.roles role with
    | none => simp [hundefined, hrole] at h
    | some r =>
      simp only [hundefined, hrole, Except.ok.injEq] at h
      exact ⟨rfl, rfl, h.symm⟩

theorem execute_createPublication_ok (h : (Statement.createPublication name tables).execute db = .ok db') :
    db.publications name = none ∧ db' = db.putPublication name (newPublication tables) := by
  unfold Statement.execute at h
  cases hp : db.publications name with
  | some p => simp [hp] at h
  | none =>
    cases hundefined : undefinedTable db tables with
    | some e => simp [hp, hundefined] at h
    | none =>
      simp only [hp, hundefined, Except.ok.injEq] at h
      exact ⟨rfl, h.symm⟩

theorem execute_alterPublication_ok (h : (Statement.alterPublication name tables).execute db = .ok db') :
    ∃ p, db.publications name = some p ∧ p.allTables = false ∧
      db' = db.putPublication name { p with tables := tables, schemas := [] } := by
  unfold Statement.execute at h
  cases hp : db.publications name with
  | none => simp [hp] at h
  | some p =>
    cases hall : p.allTables with
    | true => simp [hp, hall] at h
    | false =>
      cases hundefined : undefinedTable db tables with
      | some e => simp [hp, hall, hundefined] at h
      | none =>
        simp only [hp, hall, hundefined, Bool.false_eq_true, if_false, Except.ok.injEq] at h
        refine ⟨p, rfl, hall, ?_⟩
        rw [hall]
        exact h.symm

end Statements

/-! ## The operations of a job -/

/-- The value of a variable, which the job reads only if it is set. -/
def value (env : String → Option String) (name : String) : String := (env name).getD ""

def adminUser (env : String → Option String) : String := value env "ECOMMERCE_POSTGRES_USER"

def adminPassword (env : String → Option String) : String := value env "ECOMMERCE_POSTGRES_PASSWORD"

def cdcUser (env : String → Option String) : String := value env "CDC_POSTGRES_USER"

def cdcPassword (env : String → Option String) : String := value env "CDC_POSTGRES_PASSWORD"

def database (env : String → Option String) : String := value env "ECOMMERCE_POSTGRES_DB"

def publicationName (env : String → Option String) : String := value env "CDC_PUBLICATION_NAME"

def connectorName (env : String → Option String) : String := value env "CDC_CONNECTOR_NAME"

/-- The privileges that the job grants. -/
def jobPrivileges (env : String → Option String) : List Privilege :=
  [.connect (database env), .usage "public"] ++ tableList.map .select

/-- The operations of a job with these variables. -/
def OfJob (env : String → Option String) : Operation → Prop
  | .execute (.createRole name password) => name = cdcUser env ∧ password = cdcPassword env
  | .execute (.alterRole name password) => name = cdcUser env ∧ password = cdcPassword env
  | .execute (.grant privileges role) => role = cdcUser env ∧ privileges ⊆ jobPrivileges env
  | .execute (.createPublication name tables) => name = publicationName env ∧ tables = tableList
  | .execute (.alterPublication name tables) => name = publicationName env ∧ tables = tableList
  | .putConfig name config => name = connectorName env ∧ connectorConfig env = .ok config
  | _ => True

section Calls

variable {env : String → Option String} {name v : String} {ok : Operation → Prop} {β γ : Type}

theorem required_value (h : required env name = .ok v) : value env name = v := by
  unfold required at h
  unfold value
  cases hv : env name with
  | none => simp [hv] at h
  | some w =>
    simp only [hv] at h
    split at h
    · cases h
    · exact Except.ok.inj h

theorem calls_ofSql (answer : Except SqlError β) : (ofSql answer).Calls ok := by
  cases answer <;> trivial

theorem calls_ofRequest (answer : Except Failure β) : (ofRequest answer).Calls ok := by
  cases answer <;> trivial

/-- What is read goes on with its value. -/
theorem calls_require {k : String → Job γ} (h : (k (value env name)).Calls ok) :
    (require env name >>= k).Calls ok := by
  unfold require
  cases hr : required env name with
  | error text => trivial
  | ok v =>
    rw [required_value hr] at h
    exact h

theorem calls_execute {statement : Statement} (h : ok (.execute statement)) :
    (execute statement).Calls ok :=
  Program.calls_call h calls_ofSql

theorem calls_ensureRole : (ensureRole (cdcUser env) (cdcPassword env)).Calls (OfJob env) := by
  refine Program.calls_bind (Program.calls_call trivial calls_ofSql) fun found => ?_
  cases found
  · exact calls_execute ⟨rfl, rfl⟩
  · exact calls_execute ⟨rfl, rfl⟩

theorem calls_ensurePublication : (ensurePublication (publicationName env)).Calls (OfJob env) := by
  refine Program.calls_bind (Program.calls_call trivial calls_ofSql) fun found => ?_
  cases found
  · exact calls_execute ⟨rfl, rfl⟩
  · exact calls_execute ⟨rfl, rfl⟩

theorem calls_grantAndPublish :
    (grantAndPublish env (cdcUser env) (database env)).Calls (OfJob env) := by
  refine Program.calls_bind (calls_execute ⟨rfl, ?_⟩) fun _ => ?_
  · simp [jobPrivileges]
  refine Program.calls_bind (calls_execute ⟨rfl, ?_⟩) fun _ => ?_
  · simp [jobPrivileges]
  refine Program.calls_bind (calls_execute ⟨rfl, ?_⟩) fun _ => ?_
  · exact List.subset_append_right _ _
  exact calls_require calls_ensurePublication

theorem calls_configurePostgres : (configurePostgres env).Calls (OfJob env) := by
  refine calls_require <| calls_require <| calls_require <| calls_require <| calls_require <|
    calls_require <| calls_require ?_
  refine Program.calls_bind (Program.calls_call trivial calls_ofSql) fun _ => ?_
  exact Program.calls_bind calls_ensureRole fun _ => calls_grantAndPublish

theorem calls_waitTurns (turns : Nat) (lastError : String) :
    (waitTurns turns lastError).Calls (OfJob env) := by
  induction turns generalizing lastError with
  | zero => trivial
  | succ turns ih =>
    refine Program.calls_call trivial fun inTime => ?_
    cases inTime with
    | false => trivial
    | true =>
      refine Program.calls_call trivial fun answer => ?_
      cases answer with
      | ok classes =>
        show Program.Calls _ (if _ then _ else _)
        split
        · trivial
        · exact ih _
      | error f => cases f <;> first | exact ih _ | trivial

theorem calls_statusTurns (turns : Nat) (latest : Option (Option Status)) :
    (statusTurns name turns latest).Calls (OfJob env) := by
  induction turns generalizing latest with
  | zero => trivial
  | succ turns ih =>
    refine Program.calls_call trivial fun inTime => ?_
    cases inTime with
    | false => trivial
    | true =>
      refine Program.calls_call trivial fun answer => ?_
      split
      · exact ih _
      · trivial
      · split
        · trivial
        · split
          · trivial
          · exact ih _

theorem calls_registerConnector : (registerConnector env).Calls (OfJob env) := by
  refine calls_require <| calls_require ?_
  refine Program.calls_bind (calls_waitTurns _ _) fun _ => ?_
  cases hconfig : connectorConfig env with
  | error text => trivial
  | ok config =>
    have hput : (Program.call (.putConfig (connectorName env) config) ofRequest : Job Unit).Calls (OfJob env) :=
      Program.calls_call ⟨rfl, hconfig⟩ calls_ofRequest
    show (Program.call (.putConfig (connectorName env) config) ofRequest >>= fun _ => _ : Job Unit).Calls _
    exact Program.calls_bind hput fun _ => calls_statusTurns _ _

/-- **A job performs no operations but its own.** -/
theorem calls_main : (main env).Calls (OfJob env) :=
  Program.calls_bind calls_configurePostgres fun _ => calls_registerConnector

end Calls

end LocalDataPlatform.Cdc.Bootstrap
