import LocalDataPlatform.Cdc.Bootstrap

/-!
# What a CDC deployment brings about

The role, the privileges, the publication and the connector that a job of `cdc/bootstrap.py` is to leave, and
what its steps do to those of another one.

* `Contract` — what a job with given variables is to bring about.
* `Respects` — a step that undoes none of it; `Compatible` — jobs whose steps do not.
* `CanCapture` — what a connector needs of the server, read from its configuration.
* `Publishes` — the publication publishes the changes of rows; `AdminReady` — the job may log in.
* `Leaves` — what jobs may do to a state.

Principal results: `keeps_respects` (no step of a compatible job undoes anything), `main_survives` (whatever
respects the contract comes between its steps, a job returns with it), `perform_idle` (over its contract a job
changes nothing), `keeps_leaves` (no step of a job goes beyond its own objects).
-/

set_option autoImplicit false

namespace LocalDataPlatform.Cdc.Bootstrap

open Runs Relation

/-! ## The contract -/

/-- The role may log in and replicate, with the password of the job. -/
def RoleReady (env : String → Option String) (s : State) : Prop :=
  ∃ role, s.catalog.roles (cdcUser env) = some role ∧ role.login = true ∧ role.replication = true ∧
    role.password = some (cdcPassword env)

def Granted (env : String → Option String) (privileges : List Privilege) (s : State) : Prop :=
  ∀ p ∈ privileges, p ∈ s.catalog.granted (cdcUser env)

/-- The publication captures exactly the tables of the job. -/
def PublicationReady (env : String → Option String) (s : State) : Prop :=
  ∃ p, s.catalog.publications (publicationName env) = some p ∧ p.allTables = false ∧ p.tables = tableList ∧
    p.schemas = []

/-- The worker has the connector with the configuration of the job. -/
def ConnectorReady (env : String → Option String) (s : State) : Prop :=
  ∃ config, connectorConfig env = .ok config ∧ s.connectors (connectorName env) = some config

structure Contract (env : String → Option String) (s : State) : Prop where
  role : RoleReady env s
  granted : Granted env (jobPrivileges env) s
  publication : PublicationReady env s
  connector : ConnectorReady env s

/-- A step that undoes nothing of a contract. -/
structure Respects (env : String → Option String) (s s' : State) : Prop where
  role : RoleReady env s → RoleReady env s'
  granted : s.catalog.granted (cdcUser env) ⊆ s'.catalog.granted (cdcUser env)
  publication : PublicationReady env s → PublicationReady env s'
  connector : ConnectorReady env s → ConnectorReady env s'

/-- Jobs that do not configure one role or one connector in two ways. -/
structure Compatible (env env' : String → Option String) : Prop where
  role : cdcUser env' = cdcUser env → cdcPassword env' = cdcPassword env
  connector : connectorName env' = connectorName env → connectorConfig env' = connectorConfig env

theorem Compatible.refl (env : String → Option String) : Compatible env env := ⟨fun _ => rfl, fun _ => rfl⟩

section Steps

variable {env env' : String → Option String} {op : Operation} {s s' : State} {db : Catalog}
  {statement : Statement} {name : String}

theorem Respects.refl (env : String → Option String) (s : State) : Respects env s s :=
  ⟨id, Finset.Subset.refl _, id, id⟩

/-- Another role than the one of the job, or this one as the job wants it. -/
theorem RoleReady.putRole {role : Role} (h : RoleReady env s)
    (hrole : name = cdcUser env → role.login = true ∧ role.replication = true ∧
      role.password = some (cdcPassword env)) :
    RoleReady env { s with catalog := s.catalog.putRole name role } := by
  by_cases hname : name = cdcUser env
  · obtain ⟨hlogin, hreplication, hpassword⟩ := hrole hname
    refine ⟨role, ?_, hlogin, hreplication, hpassword⟩
    show Function.update s.catalog.roles name (some role) (cdcUser env) = some role
    rw [hname, Function.update_self]
  · obtain ⟨role', hrole', hready⟩ := h
    refine ⟨role', ?_, hready⟩
    show Function.update s.catalog.roles name (some role) (cdcUser env) = some role'
    rw [Function.update_of_ne (Ne.symm hname)]
    exact hrole'

/-- A publication that captures the tables of the job. -/
theorem PublicationReady.put {p : Publication} (hall : p.allTables = false) (htables : p.tables = tableList)
    (hschemas : p.schemas = [])
    (h : name = publicationName env ∨ PublicationReady env s) :
    PublicationReady env { s with catalog := s.catalog.putPublication name p } := by
  by_cases hname : name = publicationName env
  · refine ⟨p, ?_, hall, htables, hschemas⟩
    show Function.update s.catalog.publications name (some p) (publicationName env) = some p
    rw [hname, Function.update_self]
  · obtain ⟨p', hp', hready⟩ := h.resolve_left hname
    refine ⟨p', ?_, hready⟩
    show Function.update s.catalog.publications name (some p) (publicationName env) = some p'
    rw [Function.update_of_ne (Ne.symm hname)]
    exact hp'

theorem subset_grant {role : String} {privileges : List Privilege} (name : String) :
    db.granted name ⊆ (db.grant role privileges).granted name := by
  show _ ⊆ Function.update db.granted role _ name
  by_cases hname : name = role
  · subst hname
    rw [Function.update_self]
    exact Finset.subset_union_left
  · rw [Function.update_of_ne hname]

/-- A statement of a compatible job undoes nothing. -/
theorem execute_respects (h : Compatible env env') (hop : OfJob env' (.execute statement))
    (hok : statement.execute s.catalog = .ok db) : Respects env s { s with catalog := db } := by
  cases statement with
  | createRole name password =>
    obtain ⟨rfl, rfl⟩ := hop
    obtain ⟨-, rfl⟩ := execute_createRole_ok hok
    refine ⟨fun hrole => hrole.putRole fun hname => ?_, Finset.Subset.refl _, id, id⟩
    exact ⟨rfl, rfl, congrArg some (h.role hname)⟩
  | alterRole name password =>
    obtain ⟨rfl, rfl⟩ := hop
    obtain ⟨role, -, rfl⟩ := execute_alterRole_ok hok
    refine ⟨fun hrole => hrole.putRole fun hname => ?_, Finset.Subset.refl _, id, id⟩
    exact ⟨rfl, rfl, congrArg some (h.role hname)⟩
  | grant privileges role =>
    obtain ⟨-, -, rfl⟩ := execute_grant_ok hok
    exact ⟨id, subset_grant _, id, id⟩
  | createPublication name tables =>
    obtain ⟨rfl, rfl⟩ := hop
    obtain ⟨-, rfl⟩ := execute_createPublication_ok hok
    exact ⟨id, Finset.Subset.refl _, fun hp => .put rfl rfl rfl (Or.inr hp), id⟩
  | alterPublication name tables =>
    obtain ⟨rfl, rfl⟩ := hop
    obtain ⟨p, -, hall, rfl⟩ := execute_alterPublication_ok hok
    exact ⟨id, Finset.Subset.refl _, fun hp => .put hall rfl rfl (Or.inr hp), id⟩

theorem ConnectorReady.putConfig {config : Config} (h : name = connectorName env ∨ ConnectorReady env s)
    (hconfig : name = connectorName env → connectorConfig env = .ok config) :
    ConnectorReady env (s.putConfig name config) := by
  by_cases hname : name = connectorName env
  · refine ⟨config, hconfig hname, ?_⟩
    show Function.update s.connectors name (some config) (connectorName env) = some config
    rw [hname, Function.update_self]
  · obtain ⟨config', hconfig', hready⟩ := h.resolve_left hname
    refine ⟨config', hconfig', ?_⟩
    show Function.update s.connectors name (some config) (connectorName env) = some config'
    rw [Function.update_of_ne (Ne.symm hname)]
    exact hready

/-- **No operation of a compatible job undoes anything of the contract.** -/
theorem keeps_respects (h : Compatible env env') (hop : OfJob env' op) : Keeps Perform (Respects env) op := by
  intro s answer s' hperform
  cases hperform with
  | executed _ hok => exact execute_respects h hop hok
  | unacknowledged _ hok => exact execute_respects h hop hok
  | putConfig _ name config answer =>
    obtain ⟨rfl, hconfig⟩ := hop
    refine ⟨id, Finset.Subset.refl _, id, fun hc => .putConfig (Or.inr hc) fun hname => ?_⟩
    rw [← h.connector hname]
    exact hconfig
  | _ => exact Respects.refl env _

theorem stable_role : Stable (Respects env) (RoleReady env) := fun _ _ h => h.role

end Steps

/-! ## What a job brings about -/

section Rules

variable {R : State → State → Prop} {P P' : State → Prop} {E : Raised → Prop} {β γ : Type}
  {Q : β → State → Prop} {env : String → Option String} {name : String} {s : State}

theorem survives_require {k : String → Job β}
    (hmissing : ∀ text, required env name = .error text → E (.missing text))
    (h : Survives Perform R Q (fun e _ => E e) (k (value env name)) s) :
    Survives Perform R Q (fun e _ => E e) (require env name >>= k) s := by
  unfold require
  cases hr : required env name with
  | error text => exact fun _ _ => hmissing text hr
  | ok v =>
    rw [required_value hr] at h
    exact h

theorem survives_lookupRole {k : Bool → Job β} (hP : Stable R P) (hs : P s) (hint : E (.sql .interrupted))
    (h : ∀ s, P s → Survives Perform R Q (fun e _ => E e) (k (s.catalog.roles name).isSome) s) :
    Survives Perform R Q (fun e _ => E e) (.call (.lookupRole name) ofSql >>= k) s := by
  refine survives_call hP hs fun s answer s' hs hperform => ?_
  cases hperform with
  | lookupRole => exact h _ hs
  | lookupRoleInterrupted => exact fun _ _ => hint

theorem survives_lookupPublication {k : Bool → Job β} (hP : Stable R P) (hs : P s)
    (hint : E (.sql .interrupted))
    (h : ∀ s, P s → Survives Perform R Q (fun e _ => E e) (k (s.catalog.publications name).isSome) s) :
    Survives Perform R Q (fun e _ => E e) (.call (.lookupPublication name) ofSql >>= k) s := by
  refine survives_call hP hs fun s answer s' hs hperform => ?_
  cases hperform with
  | lookupPublication => exact h _ hs
  | lookupPublicationInterrupted => exact fun _ _ => hint

/-- **A statement, with whatever is refused it.** -/
theorem survives_execute {statement : Statement} (hP : Stable R P) (hP' : Stable R P') (hs : P s)
    (hok : ∀ s db, P s → statement.execute s.catalog = .ok db → P' { s with catalog := db })
    (hint : E (.sql .interrupted))
    (herror : ∀ s e, P s → statement.execute s.catalog = .error e → E (.sql e)) :
    Survives Perform R (fun _ => P') (fun e _ => E e) (execute statement) s := by
  refine survives_call hP hs fun s answer s' hs hperform => ?_
  cases hperform with
  | executed _ h => exact survives_done hP' (hok s _ hs h) fun _ h => h
  | refused _ h => exact fun _ _ => herror s _ hs h
  | interrupted => exact fun _ _ => hint
  | unacknowledged _ _ => exact fun _ _ => hint

end Rules

section Done

variable {env : String → Option String} {s : State} {privileges more : List Privilege}

/-- The role with its first privileges. -/
def Prepared (env : String → Option String) (privileges : List Privilege) (s : State) : Prop :=
  RoleReady env s ∧ Granted env privileges s

theorem stable_prepared : Stable (Respects env) (Prepared env privileges) := fun _ _ h hp =>
  ⟨h.role hp.1, fun p hmem => h.granted (hp.2 p hmem)⟩

/-- The first `if`: whether the role is there or not, it is ready. -/
theorem ensureRole_survives : Survives Perform (Respects env) (fun _ => RoleReady env) (fun _ _ => True)
    (ensureRole (cdcUser env) (cdcPassword env)) s := by
  refine survives_lookupRole (P := fun _ => True) (fun _ _ _ _ => trivial) trivial trivial fun s _ => ?_
  have hput : ∀ (s : State) (role : Role), role.login = true → role.replication = true →
      role.password = some (cdcPassword env) →
      RoleReady env { s with catalog := s.catalog.putRole (cdcUser env) role } := by
    intro s role hlogin hreplication hpassword
    refine ⟨role, ?_, hlogin, hreplication, hpassword⟩
    show Function.update s.catalog.roles (cdcUser env) (some role) (cdcUser env) = some role
    rw [Function.update_self]
  cases (s.catalog.roles (cdcUser env)).isSome with
  | true =>
    refine survives_execute (P := fun _ => True) (fun _ _ _ _ => trivial) stable_role trivial
      (fun s db _ hok => ?_) trivial fun _ _ _ _ => trivial
    obtain ⟨role, -, rfl⟩ := execute_alterRole_ok hok
    exact hput s _ rfl rfl rfl
  | false =>
    refine survives_execute (P := fun _ => True) (fun _ _ _ _ => trivial) stable_role trivial
      (fun s db _ hok => ?_) trivial fun _ _ _ _ => trivial
    obtain ⟨-, rfl⟩ := execute_createRole_ok hok
    exact hput s _ rfl rfl rfl

theorem grant_survives (hs : Prepared env privileges s) : Survives Perform (Respects env)
    (fun _ => Prepared env (privileges ++ more)) (fun _ _ => True) (execute (.grant more (cdcUser env))) s := by
  refine survives_execute stable_prepared stable_prepared hs (fun s db hs hok => ?_) trivial
    fun _ _ _ _ => trivial
  obtain ⟨-, -, rfl⟩ := execute_grant_ok hok
  refine ⟨hs.1, fun p hp => ?_⟩
  rcases List.mem_append.mp hp with hp | hp
  · exact subset_grant (cdcUser env) (hs.2 p hp)
  · show p ∈ Function.update s.catalog.granted (cdcUser env) _ (cdcUser env)
    rw [Function.update_self]
    exact Finset.mem_union_right _ (List.mem_toFinset.mpr hp)

/-- The second `if`, which keeps what is prepared. -/
theorem ensurePublication_survives (hs : Prepared env privileges s) : Survives Perform (Respects env)
    (fun _ s => Prepared env privileges s ∧ PublicationReady env s) (fun _ _ => True)
    (ensurePublication (publicationName env)) s := by
  have hstable : Stable (Respects env) fun s => Prepared env privileges s ∧ PublicationReady env s :=
    fun s s' h hp => ⟨stable_prepared s s' h hp.1, h.publication hp.2⟩
  refine survives_lookupPublication stable_prepared hs trivial fun s hs => ?_
  cases (s.catalog.publications (publicationName env)).isSome with
  | true =>
    refine survives_execute stable_prepared hstable hs (fun s db hs hok => ?_) trivial fun _ _ _ _ => trivial
    obtain ⟨p, -, hall, rfl⟩ := execute_alterPublication_ok hok
    exact ⟨hs, .put hall rfl rfl (Or.inl rfl)⟩
  | false =>
    refine survives_execute stable_prepared hstable hs (fun s db hs hok => ?_) trivial fun _ _ _ _ => trivial
    obtain ⟨-, rfl⟩ := execute_createPublication_ok hok
    exact ⟨hs, .put rfl rfl rfl (Or.inl rfl)⟩

/-- What PostgreSQL has when `configure_postgres` returns. -/
def PostgresReady (env : String → Option String) (s : State) : Prop :=
  Prepared env (jobPrivileges env) s ∧ PublicationReady env s

theorem stable_postgres : Stable (Respects env) (PostgresReady env) := fun s s' h hp =>
  ⟨stable_prepared s s' h hp.1, h.publication hp.2⟩

theorem configurePostgres_survives : Survives Perform (Respects env) (fun _ => PostgresReady env)
    (fun _ _ => True) (configurePostgres env) s := by
  have hmissing : ∀ name text, required env name = .error text → True := fun _ _ _ => trivial
  unfold configurePostgres
  refine survives_require (hmissing _) <| survives_require (hmissing _) <| survives_require (hmissing _) <|
    survives_require (hmissing _) <| survives_require (hmissing _) <| survives_require (hmissing _) <|
    survives_require (hmissing _) ?_
  refine survives_bind (M := fun _ _ => True) (survives_of_keeps (fun _ _ _ _ => trivial)
    (Program.calls_call (fun _ _ _ h => ?_) calls_ofSql) trivial) fun _ s _ => ?_
  · cases h <;> exact Respects.refl env _
  refine survives_bind ensureRole_survives fun _ s hrole => ?_
  have hnone : Prepared env [] s := ⟨hrole, nofun⟩
  refine survives_bind (grant_survives hnone) fun _ s hs => ?_
  refine survives_bind (grant_survives hs) fun _ s hs => ?_
  refine survives_bind (grant_survives hs) fun _ s hs => ?_
  exact survives_require (hmissing _) (ensurePublication_survives hs)

theorem Contract.of (hp : PostgresReady env s) (hc : ConnectorReady env s) : Contract env s :=
  ⟨hp.1.1, hp.1.2, hp.2, hc⟩

theorem stable_contract : Stable (Respects env) (Contract env) := fun _ _ h hc =>
  ⟨h.role hc.role, fun p hp => h.granted (hc.granted p hp), h.publication hc.publication,
    h.connector hc.connector⟩

theorem registerConnector_survives (hs : PostgresReady env s) : Survives Perform (Respects env)
    (fun _ => Contract env) (fun _ _ => True) (registerConnector env) s := by
  have hmissing : ∀ name text, required env name = .error text → True := fun _ _ _ => trivial
  have hown : ∀ op, OfJob env op → Keeps Perform (Respects env) op := fun op =>
    keeps_respects (Compatible.refl env)
  unfold registerConnector
  refine survives_require (hmissing _) <| survives_require (hmissing _) ?_
  refine survives_bind (survives_of_keeps stable_postgres ((calls_waitTurns _ _).mono hown) hs) fun _ s hs => ?_
  cases hconfig : connectorConfig env with
  | error text => exact fun _ _ => trivial
  | ok config =>
    refine survives_call stable_postgres hs fun s answer s' hs hperform => ?_
    cases hperform with
    | putConfigFailed => exact fun _ _ => trivial
    | putConfig _ _ _ answer =>
      cases answer with
      | error f => exact fun _ _ => trivial
      | ok u =>
        refine survives_of_keeps stable_contract ((calls_statusTurns _ _).mono hown) (Contract.of hs ?_)
        exact .putConfig (Or.inl rfl) fun _ => hconfig

theorem main_survives : Survives Perform (Respects env) (fun _ => Contract env) (fun _ _ => True)
    (main env) s :=
  survives_bind configurePostgres_survives fun _ _ hs => registerConnector_survives hs

end Done

/-! ## What a connector needs -/

/-- The changes of rows are published; `TRUNCATE` needs not be. -/
def Publication.PublishesChanges (p : Publication) : Prop :=
  "insert" ∈ p.publish ∧ "update" ∈ p.publish ∧ "delete" ∈ p.publish

theorem newPublication_publishes (tables : List QualifiedName) : (newPublication tables).PublishesChanges := by
  simp [Publication.PublishesChanges, newPublication]

/-- What the configuration of a connector says, and the server grants. -/
structure CanCapture (config : Config) (db : Catalog) : Prop where
  /-- Its user may log in with its password, and replicate. -/
  login : ∃ user role, config.lookup "database.user" = some user ∧ db.roles user = some role ∧
    role.login = true ∧ role.replication = true ∧ config.lookup "database.password" = role.password
  /-- It may connect to its database and use the schema of its tables. -/
  privileges : ∃ user dbname, config.lookup "database.user" = some user ∧
    config.lookup "database.dbname" = some dbname ∧ .connect dbname ∈ db.granted user ∧
      .usage "public" ∈ db.granted user
  /-- Its publication exists and publishes every change of a row, it may read what that captures, and that
  is its `table.include.list`. -/
  publication : ∃ user name p, config.lookup "database.user" = some user ∧
    config.lookup "publication.name" = some name ∧ db.publications name = some p ∧ p.PublishesChanges ∧
      p.allTables = false ∧ p.schemas = [] ∧ (∀ t ∈ p.tables, t.schema = "public" ∧ .select t ∈ db.granted user) ∧
        config.lookup "table.include.list" = some (",".intercalate (p.tables.map QualifiedName.text))

section Capture

variable {env : String → Option String} {config : Config} {name : String} {β : Type} {s : State}

theorem required_bind {f : String → Except String β} {b : β} (h : required env name >>= f = .ok b) :
    f (value env name) = .ok b := by
  cases hr : required env name with
  | error text =>
    rw [hr] at h
    cases h
  | ok v =>
    rw [hr] at h
    rw [required_value hr]
    exact h

/-- The keys of the configuration that concern the server. -/
theorem connectorConfig_lookup (h : connectorConfig env = .ok config) :
    config.lookup "database.user" = some (cdcUser env) ∧
      config.lookup "database.password" = some (cdcPassword env) ∧
        config.lookup "database.dbname" = some (database env) ∧
          config.lookup "publication.name" = some (publicationName env) ∧
            config.lookup "table.include.list" =
              some (",".intercalate (capturedTables.map fun table => "public." ++ table)) := by
  unfold connectorConfig at h
  have h := required_bind (required_bind (required_bind (required_bind (required_bind (required_bind
    (required_bind (required_bind (required_bind h))))))))
  cases h
  exact ⟨rfl, rfl, rfl, rfl, rfl⟩

/-- A publication of the job that is there publishes the changes of rows. -/
def Publishes (env : String → Option String) (s : State) : Prop :=
  ∀ p, s.catalog.publications (publicationName env) = some p → p.PublishesChanges

/-- **The contract lets the connector capture**, if its publication publishes at all: `SET TABLE` leaves what
a publication publishes as it was. -/
theorem Contract.canCapture (h : Contract env s) (hpublishes : Publishes env s)
    (hconfig : connectorConfig env = .ok config) : CanCapture config s.catalog := by
  obtain ⟨huser, hpassword, hdbname, hname, htables⟩ := connectorConfig_lookup hconfig
  obtain ⟨role, hrole, hlogin, hreplication, hready⟩ := h.role
  obtain ⟨p, hp, hall, hcaptured, hschemas⟩ := h.publication
  refine ⟨⟨_, role, huser, hrole, hlogin, hreplication, hpassword.trans hready.symm⟩,
    ⟨_, _, huser, hdbname, h.granted _ (by simp [jobPrivileges]), h.granted _ (by simp [jobPrivileges])⟩,
    ⟨_, _, p, huser, hname, hp, hpublishes p hp, hall, hschemas, fun t ht => ?_, ?_⟩⟩
  · rw [hcaptured] at ht
    refine ⟨?_, h.granted _ ?_⟩
    · obtain ⟨table, -, rfl⟩ := List.mem_map.mp ht
      rfl
    · exact List.mem_append_right _ (List.mem_map_of_mem ht)
  · rw [htables, hcaptured]
    rfl

/-- No statement of a job takes anything from what a publication publishes. -/
theorem Publishes.putPublication {p : Publication} (h : Publishes env s)
    (hp : (∀ q, s.catalog.publications name = some q → q.PublishesChanges) → p.PublishesChanges) :
    Publishes env { s with catalog := s.catalog.putPublication name p } := by
  intro q hq
  replace hq : Function.update s.catalog.publications name (some p) (publicationName env) = some q := hq
  by_cases hname : publicationName env = name
  · subst hname
    rw [Function.update_self] at hq
    cases hq
    exact hp h
  · rw [Function.update_of_ne hname] at hq
    exact h q hq

theorem execute_publishes {env' : String → Option String} {statement : Statement} {db : Catalog}
    (h : Publishes env s) (hop : OfJob env' (.execute statement)) (hok : statement.execute s.catalog = .ok db) :
    Publishes env { s with catalog := db } := by
  cases statement with
  | createRole name password =>
    obtain ⟨-, rfl⟩ := execute_createRole_ok hok
    exact h
  | alterRole name password =>
    obtain ⟨role, -, rfl⟩ := execute_alterRole_ok hok
    exact h
  | grant privileges role =>
    obtain ⟨-, -, rfl⟩ := execute_grant_ok hok
    exact h
  | createPublication name tables =>
    obtain ⟨-, rfl⟩ := execute_createPublication_ok hok
    exact h.putPublication fun _ => newPublication_publishes tables
  | alterPublication name tables =>
    obtain ⟨p, hp, -, rfl⟩ := execute_alterPublication_ok hok
    exact h.putPublication fun hold => hold p hp

/-- **No operation of any job stops a publication from publishing changes.** -/
theorem keeps_publishes {env' : String → Option String} {op : Operation} (hop : OfJob env' op) :
    Keeps Perform (fun s s' => Publishes env s → Publishes env s') op := by
  intro s answer s' hperform hs
  cases hperform with
  | executed _ hok => exact execute_publishes hs hop hok
  | unacknowledged _ hok => exact execute_publishes hs hop hok
  | _ => exact hs

end Capture

/-! ## What a job needs of its own login -/

section Admin

variable {env env' : String → Option String} {s : State}

/-- The role the job works as may log in with its password, and do anything. -/
def AdminReady (env : String → Option String) (s : State) : Prop :=
  ∃ role, s.catalog.roles (adminUser env) = some role ∧ role.login = true ∧
    role.password = some (adminPassword env) ∧ role.superuser = true

theorem execute_admin {statement : Statement} {db : Catalog} (h : AdminReady env s)
    (hsame : cdcUser env' = adminUser env → cdcPassword env' = adminPassword env)
    (hop : OfJob env' (.execute statement)) (hok : statement.execute s.catalog = .ok db) :
    AdminReady env { s with catalog := db } := by
  obtain ⟨role, hrole, hlogin, hpassword, hsuperuser⟩ := h
  cases statement with
  | createRole name password =>
    obtain ⟨hnone, rfl⟩ := execute_createRole_ok hok
    have hne : adminUser env ≠ name := by
      rintro rfl
      rw [hrole] at hnone
      cases hnone
    exact ⟨role, (Function.update_of_ne hne _ _).trans hrole, hlogin, hpassword, hsuperuser⟩
  | alterRole name password =>
    obtain ⟨rfl, rfl⟩ := hop
    obtain ⟨role', hrole', rfl⟩ := execute_alterRole_ok hok
    by_cases hname : cdcUser env' = adminUser env
    · -- the admin role itself gets the password it has
      rw [hname, hrole] at hrole'
      cases hrole'
      refine ⟨role.repaired (cdcPassword env'), ?_, rfl, congrArg some (hsame hname), hsuperuser⟩
      show Function.update s.catalog.roles (cdcUser env') _ (adminUser env) = _
      rw [hname, Function.update_self]
    · exact ⟨role, (Function.update_of_ne (Ne.symm hname) _ _).trans hrole, hlogin, hpassword, hsuperuser⟩
  | grant privileges role' =>
    obtain ⟨-, -, rfl⟩ := execute_grant_ok hok
    exact ⟨role, hrole, hlogin, hpassword, hsuperuser⟩
  | createPublication name tables =>
    obtain ⟨-, rfl⟩ := execute_createPublication_ok hok
    exact ⟨role, hrole, hlogin, hpassword, hsuperuser⟩
  | alterPublication name tables =>
    obtain ⟨p, -, -, rfl⟩ := execute_alterPublication_ok hok
    exact ⟨role, hrole, hlogin, hpassword, hsuperuser⟩

/-- **No operation of a job that gives the admin role no other password locks it out.** -/
theorem keeps_admin {op : Operation} (hsame : cdcUser env' = adminUser env → cdcPassword env' = adminPassword env)
    (hop : OfJob env' op) : Keeps Perform (fun s s' => AdminReady env s → AdminReady env s') op := by
  intro s answer s' hperform hs
  cases hperform with
  | executed _ hok => exact execute_admin hs hsame hop hok
  | unacknowledged _ hok => exact execute_admin hs hsame hop hok
  | _ => exact hs

end Admin

/-! ## A job over its own result -/

section Idle

variable {env : String → Option String} {db db' : Catalog} {s s' : State} {name : String} {role : Role}
  {p : Publication} {privileges : List Privilege} {config : Config} {op : Operation} {answer : Answer op}
  {statement : Statement}

theorem putRole_eq_self (h : db.roles name = some role) : db.putRole name role = db := by
  unfold Catalog.putRole
  rw [← h, Function.update_eq_self]

theorem putPublication_eq_self (h : db.publications name = some p) : db.putPublication name p = db := by
  unfold Catalog.putPublication
  rw [← h, Function.update_eq_self]

theorem grant_eq_self (h : ∀ p ∈ privileges, p ∈ db.granted name) : db.grant name privileges = db := by
  have hunion : db.granted name ∪ privileges.toFinset = db.granted name :=
    Finset.union_eq_left.mpr fun p hp => h p (List.mem_toFinset.mp hp)
  unfold Catalog.grant
  rw [hunion, Function.update_eq_self]

theorem putConfig_eq_self (h : s.connectors name = some config) : s.putConfig name config = s := by
  unfold State.putConfig
  rw [← h, Function.update_eq_self]

/-- Over its contract a job executes nothing that changes the catalog. -/
theorem execute_idle (h : Contract env s) (hop : OfJob env (.execute statement))
    (hok : statement.execute s.catalog = .ok db) : db = s.catalog := by
  obtain ⟨role, hrole, hlogin, hreplication, hpassword⟩ := h.role
  obtain ⟨p, hp, hall, htables, hschemas⟩ := h.publication
  cases statement with
  | createRole name password =>
    obtain ⟨rfl, rfl⟩ := hop
    obtain ⟨hnone, -⟩ := execute_createRole_ok hok
    rw [hrole] at hnone
    cases hnone
  | alterRole name password =>
    obtain ⟨rfl, rfl⟩ := hop
    obtain ⟨role', hrole', rfl⟩ := execute_alterRole_ok hok
    rw [hrole] at hrole'
    cases hrole'
    have hrepaired : role.repaired (cdcPassword env) = role := by
      unfold Role.repaired
      rw [← hlogin, ← hpassword]
      cases role
      simp_all
    rw [hrepaired]
    exact putRole_eq_self hrole
  | grant privileges role =>
    obtain ⟨rfl, hprivileges⟩ := hop
    obtain ⟨-, -, rfl⟩ := execute_grant_ok hok
    exact grant_eq_self fun p hp => h.granted p (hprivileges hp)
  | createPublication name tables =>
    obtain ⟨rfl, rfl⟩ := hop
    obtain ⟨hnone, -⟩ := execute_createPublication_ok hok
    rw [hp] at hnone
    cases hnone
  | alterPublication name tables =>
    obtain ⟨rfl, rfl⟩ := hop
    obtain ⟨p', hp', -, rfl⟩ := execute_alterPublication_ok hok
    rw [hp] at hp'
    cases hp'
    rw [← htables, ← hschemas]
    exact putPublication_eq_self hp

/-- **Over its contract no operation of a job changes anything.** -/
theorem perform_idle (h : Contract env s) (hop : OfJob env op) (hperform : Perform op s answer s') :
    s' = s := by
  cases hperform with
  | executed _ hok => rw [execute_idle h hop hok]
  | unacknowledged _ hok => rw [execute_idle h hop hok]
  | putConfig _ name config answer =>
    obtain ⟨rfl, hconfig⟩ := hop
    obtain ⟨config', hconfig', hready⟩ := h.connector
    rw [hconfig] at hconfig'
    cases hconfig'
    exact putConfig_eq_self hready
  | _ => rfl

end Idle

/-! ## What jobs leave alone -/

section LeastPrivilege

variable {ι : Type} {env : ι → String → Option String} {op : Operation} {s s' : State} {i : ι}
  {db : Catalog} {statement : Statement}

/-- What may come of a role beside login, replication and password: nothing. -/
structure NoMore (role : Role) (before : Option Role) : Prop where
  superuser : role.superuser = true → ∃ r, before = some r ∧ r.superuser = true
  createdb : role.createdb = true → ∃ r, before = some r ∧ r.createdb = true
  createrole : role.createrole = true → ∃ r, before = some r ∧ r.createrole = true

/-- What jobs with these variables may do to a state. -/
structure Leaves (env : ι → String → Option String) (s s' : State) : Prop where
  databases : s'.catalog.databases = s.catalog.databases
  schemas : s'.catalog.schemas = s.catalog.schemas
  tables : s'.catalog.tables = s.catalog.tables
  /-- Roles of other names stay as they are. -/
  roles : ∀ name, (∀ i, name ≠ cdcUser (env i)) → s'.catalog.roles name = s.catalog.roles name
  /-- No role rises above what it was. -/
  noMore : ∀ name role, s'.catalog.roles name = some role → NoMore role (s.catalog.roles name)
  /-- Nothing is revoked. -/
  kept : ∀ name, s.catalog.granted name ⊆ s'.catalog.granted name
  /-- A privilege that is new is one of the job's, and its role is the one of the job. -/
  granted : ∀ name p, p ∈ s'.catalog.granted name → p ∈ s.catalog.granted name ∨
    ∃ i, name = cdcUser (env i) ∧ p ∈ jobPrivileges (env i)
  publications : ∀ name, (∀ i, name ≠ publicationName (env i)) →
    s'.catalog.publications name = s.catalog.publications name
  /-- No publication comes to capture all tables. -/
  allTables : ∀ name p, s'.catalog.publications name = some p → p.allTables = true →
    ∃ p', s.catalog.publications name = some p' ∧ p'.allTables = true
  connectors : ∀ name, (∀ i, name ≠ connectorName (env i)) → s'.connectors name = s.connectors name

theorem NoMore.self {role : Role} : NoMore role (some role) :=
  ⟨fun h => ⟨role, rfl, h⟩, fun h => ⟨role, rfl, h⟩, fun h => ⟨role, rfl, h⟩⟩

theorem Leaves.refl (env : ι → String → Option String) (s : State) : Leaves env s s where
  databases := rfl
  schemas := rfl
  tables := rfl
  roles := fun _ _ => rfl
  noMore := fun _ _ h => h ▸ NoMore.self
  kept := fun _ => Finset.Subset.refl _
  granted := fun _ _ h => Or.inl h
  publications := fun _ _ => rfl
  allTables := fun _ p hp hall => ⟨p, hp, hall⟩
  connectors := fun _ _ => rfl

theorem NoMore.trans {role r : Role} {before : Option Role} (h : NoMore role (some r)) (h' : NoMore r before) :
    NoMore role before := by
  refine ⟨fun hs => ?_, fun hs => ?_, fun hs => ?_⟩
  · obtain ⟨_, he, hs⟩ := h.superuser hs
    cases he
    exact h'.superuser hs
  · obtain ⟨_, he, hs⟩ := h.createdb hs
    cases he
    exact h'.createdb hs
  · obtain ⟨_, he, hs⟩ := h.createrole hs
    cases he
    exact h'.createrole hs

theorem NoMore.of_none {role : Role} (h : NoMore role none) (before : Option Role) : NoMore role before := by
  refine ⟨fun hs => ?_, fun hs => ?_, fun hs => ?_⟩
  · obtain ⟨_, he, -⟩ := h.superuser hs
    cases he
  · obtain ⟨_, he, -⟩ := h.createdb hs
    cases he
  · obtain ⟨_, he, -⟩ := h.createrole hs
    cases he

theorem Leaves.trans {t : State} (h : Leaves env s s') (h' : Leaves env s' t) : Leaves env s t where
  databases := h'.databases.trans h.databases
  schemas := h'.schemas.trans h.schemas
  tables := h'.tables.trans h.tables
  roles := fun name hname => (h'.roles name hname).trans (h.roles name hname)
  noMore := by
    intro name role hrole
    have hmore := h'.noMore name role hrole
    cases hr : s'.catalog.roles name with
    | none =>
      rw [hr] at hmore
      exact hmore.of_none _
    | some r =>
      rw [hr] at hmore
      exact hmore.trans (h.noMore name r hr)
  kept := fun name => (h.kept name).trans (h'.kept name)
  granted := fun name p hp => (h'.granted name p hp).elim (h.granted name p) Or.inr
  publications := fun name hname => (h'.publications name hname).trans (h.publications name hname)
  allTables := by
    intro name p hp hall
    obtain ⟨p', hp', hall'⟩ := h'.allTables name p hp hall
    exact h.allTables name p' hp' hall'
  connectors := fun name hname => (h'.connectors name hname).trans (h.connectors name hname)

/-- A role of a job, put in the place of what was there. -/
theorem Leaves.putRole {role : Role} (hmore : NoMore role (s.catalog.roles (cdcUser (env i)))) :
    Leaves env s { s with catalog := s.catalog.putRole (cdcUser (env i)) role } := by
  refine { Leaves.refl env s with roles := fun name hname => ?_, noMore := fun name role' hrole => ?_ }
  · exact Function.update_of_ne (hname i) _ _
  · by_cases hname : name = cdcUser (env i)
    · subst hname
      have hself : some role = some role' := by
        rw [← hrole]
        exact (Function.update_self (cdcUser (env i)) (some role) s.catalog.roles).symm
      cases hself
      exact hmore
    · have hsame : s.catalog.roles name = some role' := by
        rw [← hrole]
        exact (Function.update_of_ne hname _ _).symm
      rw [hsame]
      exact NoMore.self

theorem Leaves.putPublication {p : Publication} (hall : p.allTables = false) :
    Leaves env s { s with catalog := s.catalog.putPublication (publicationName (env i)) p } := by
  refine { Leaves.refl env s with
    publications := fun _ hname => Function.update_of_ne (hname i) _ _, allTables := fun name p' hp hall' => ?_ }
  replace hp : Function.update s.catalog.publications (publicationName (env i)) (some p) name = some p' := hp
  by_cases hname : name = publicationName (env i)
  · subst hname
    rw [Function.update_self] at hp
    cases hp
    rw [hall] at hall'
    cases hall'
  · rw [Function.update_of_ne hname] at hp
    exact ⟨p', hp, hall'⟩

theorem Leaves.grant {privileges : List Privilege} (h : privileges ⊆ jobPrivileges (env i)) :
    Leaves env s { s with catalog := s.catalog.grant (cdcUser (env i)) privileges } := by
  refine { Leaves.refl env s with kept := subset_grant, granted := fun name p hp => ?_ }
  replace hp : p ∈ Function.update s.catalog.granted (cdcUser (env i))
    (s.catalog.granted (cdcUser (env i)) ∪ privileges.toFinset) name := hp
  by_cases hname : name = cdcUser (env i)
  · subst hname
    rw [Function.update_self] at hp
    rcases Finset.mem_union.mp hp with hp | hp
    · exact Or.inl hp
    · exact Or.inr ⟨i, rfl, h (List.mem_toFinset.mp hp)⟩
  · rw [Function.update_of_ne hname] at hp
    exact Or.inl hp

theorem execute_leaves (hop : OfJob (env i) (.execute statement)) (hok : statement.execute s.catalog = .ok db) :
    Leaves env s { s with catalog := db } := by
  cases statement with
  | createRole name password =>
    obtain ⟨rfl, rfl⟩ := hop
    obtain ⟨-, rfl⟩ := execute_createRole_ok hok
    exact Leaves.putRole ⟨nofun, nofun, nofun⟩
  | alterRole name password =>
    obtain ⟨rfl, rfl⟩ := hop
    obtain ⟨role, hrole, rfl⟩ := execute_alterRole_ok hok
    refine Leaves.putRole ?_
    rw [hrole]
    exact ⟨fun h => ⟨role, rfl, h⟩, fun h => ⟨role, rfl, h⟩, fun h => ⟨role, rfl, h⟩⟩
  | grant privileges role =>
    obtain ⟨rfl, hprivileges⟩ := hop
    obtain ⟨-, -, rfl⟩ := execute_grant_ok hok
    exact Leaves.grant hprivileges
  | createPublication name tables =>
    obtain ⟨rfl, rfl⟩ := hop
    obtain ⟨-, rfl⟩ := execute_createPublication_ok hok
    exact Leaves.putPublication rfl
  | alterPublication name tables =>
    obtain ⟨rfl, rfl⟩ := hop
    obtain ⟨p, -, hall, rfl⟩ := execute_alterPublication_ok hok
    exact Leaves.putPublication hall

theorem keeps_leaves (hop : OfJob (env i) op) : Keeps Perform (Leaves env) op := by
  intro s answer s' hperform
  cases hperform with
  | executed _ hok => exact execute_leaves hop hok
  | unacknowledged _ hok => exact execute_leaves hop hok
  | putConfig _ name config answer =>
    obtain ⟨rfl, -⟩ := hop
    exact { Leaves.refl env s with connectors := fun _ hname => Function.update_of_ne (hname i) _ _ }
  | _ => exact Leaves.refl env _

end LeastPrivilege

end LocalDataPlatform.Cdc.Bootstrap
