import LocalDataPlatform.Cdc.Contract

/-!
# Any number of CDC deployments

Jobs of `cdc/bootstrap.py` run one after another or at the same time, break off anywhere and are started
again, over whatever the server and the worker held before.

* `Complete`, `Provisioned` — what a job needs: its variables, and the objects that it names (`AdminReady`, the
  role it works as, is in `Cdc.Contract`).
* `sampleJobs` — two jobs with the same variables over a fresh server.

Principal results: `main_captures` (a job that has returned leaves a connector that can capture, whatever runs
beside it), `main_idempotent` (from then on no job with the same variables changes anything),
`least_privilege` (no job goes beyond its own objects), `main_recovers` (a job repairs what others left).
-/

set_option autoImplicit false

namespace LocalDataPlatform.Cdc.Bootstrap

open Runs Relation

/-! ## A job that is left alone -/

section Alone

variable {env : String → Option String} {s : State} {name : String} {β : Type}

/-- The variables of the job are set. -/
def Complete (env : String → Option String) : Prop :=
  ∀ name ∈ ["ECOMMERCE_POSTGRES_HOST", "ECOMMERCE_POSTGRES_PORT", "ECOMMERCE_POSTGRES_USER",
    "ECOMMERCE_POSTGRES_PASSWORD", "ECOMMERCE_POSTGRES_DB", "CDC_POSTGRES_USER", "CDC_POSTGRES_PASSWORD",
    "CDC_CONNECTOR_NAME", "CDC_TOPIC_PREFIX", "CDC_SLOT_NAME", "CDC_PUBLICATION_NAME",
    "DEBEZIUM_CONNECT_URL", "SCHEMA_REGISTRY_NATIVE_URL"], ∃ v, env name = some v ∧ v ≠ ""

/-- What the job grants and captures is there, and its publication can be altered. -/
structure Provisioned (env : String → Option String) (s : State) : Prop where
  database : database env ∈ s.catalog.databases
  schema : "public" ∈ s.catalog.schemas
  tables : ∀ t ∈ tableList, t ∈ s.catalog.tables
  publication : ∀ p, s.catalog.publications (publicationName env) = some p → p.allTables = false

theorem required_set (h : ∃ v, env name = some v ∧ v ≠ "") : required env name = .ok (value env name) := by
  obtain ⟨v, hv, hne⟩ := h
  simp [required, value, hv, hne]

theorem returns_require {k : String → Job β} (hset : ∃ v, env name = some v ∧ v ≠ "")
    (h : Returns Perform s (k (value env name))) : Returns Perform s (require env name >>= k) := by
  unfold require
  rw [required_set hset]
  exact h

theorem returns_execute {statement : Statement} {d : Catalog} {k : Unit → Job β}
    (hok : statement.execute s.catalog = .ok d) (h : Returns Perform { s with catalog := d } (k ())) :
    Returns Perform s (execute statement >>= k) :=
  .call (.executed s hok) h

theorem Provisioned.undefinedTable (h : Provisioned env s) : undefinedTable s.catalog tableList = none :=
  List.findSome?_eq_none_iff.mpr fun t ht => if_pos (h.tables t ht)

theorem returns_ensureRole {k : Unit → Job β} (h : Provisioned env s)
    (hk : ∀ s, Provisioned env s → (s.catalog.roles (cdcUser env)).isSome → Returns Perform s (k ())) :
    Returns Perform s (ensureRole (cdcUser env) (cdcPassword env) >>= k) := by
  have hput : ∀ role, Returns Perform { s with catalog := s.catalog.putRole (cdcUser env) role } (k ()) := by
    intro role
    refine hk _ ⟨h.database, h.schema, h.tables, h.publication⟩ ?_
    show (Function.update s.catalog.roles (cdcUser env) (some role) (cdcUser env)).isSome
    rw [Function.update_self]
    rfl
  refine .call (.lookupRole s _) ?_
  cases hrole : s.catalog.roles (cdcUser env) with
  | none =>
    refine returns_execute (d := s.catalog.putRole (cdcUser env) (newRole (cdcPassword env))) ?_ (hput _)
    simp [Statement.execute, hrole]
  | some role =>
    refine returns_execute (d := s.catalog.putRole (cdcUser env) (role.repaired (cdcPassword env))) ?_ (hput _)
    simp [Statement.execute, hrole]

theorem returns_grant {privileges : List Privilege} {k : Unit → Job β} (h : Provisioned env s)
    (hrole : (s.catalog.roles (cdcUser env)).isSome)
    (hundefined : ∀ p ∈ privileges, p.undefined s.catalog = none)
    (hk : ∀ s, Provisioned env s → (s.catalog.roles (cdcUser env)).isSome → Returns Perform s (k ())) :
    Returns Perform s (execute (.grant privileges (cdcUser env)) >>= k) := by
  obtain ⟨role, hrole'⟩ := Option.isSome_iff_exists.mp hrole
  refine returns_execute (d := s.catalog.grant (cdcUser env) privileges) ?_
    (hk _ ⟨h.database, h.schema, h.tables, h.publication⟩ hrole)
  simp [Statement.execute, List.findSome?_eq_none_iff.mpr hundefined, hrole']

theorem returns_ensurePublication {k : Unit → Job β} (h : Provisioned env s)
    (hk : ∀ s, Returns Perform s (k ())) :
    Returns Perform s (ensurePublication (publicationName env) >>= k) := by
  refine .call (.lookupPublication s _) ?_
  cases hp : s.catalog.publications (publicationName env) with
  | none =>
    refine returns_execute (d := s.catalog.putPublication (publicationName env) (newPublication tableList)) ?_
      (hk _)
    simp [Statement.execute, hp, h.undefinedTable]
  | some p =>
    refine returns_execute (d := s.catalog.putPublication (publicationName env)
      { p with tables := tableList, schemas := [] }) ?_ (hk _)
    simp [Statement.execute, hp, h.publication p hp, h.undefinedTable]

theorem returns_configurePostgres {k : Unit → Job β} (henv : Complete env) (h : Provisioned env s)
    (hadmin : AdminReady env s) (hk : ∀ s, Returns Perform s (k ())) : Returns Perform s (configurePostgres env >>= k) := by
  unfold configurePostgres grantAndPublish
  simp only [Program.bind_assoc]
  refine returns_require (henv "ECOMMERCE_POSTGRES_USER" (by simp)) <|
    returns_require (henv "CDC_POSTGRES_USER" (by simp)) <|
    returns_require (henv "CDC_POSTGRES_PASSWORD" (by simp)) <|
    returns_require (henv "ECOMMERCE_POSTGRES_DB" (by simp)) <|
    returns_require (henv "ECOMMERCE_POSTGRES_HOST" (by simp)) <|
    returns_require (henv "ECOMMERCE_POSTGRES_PORT" (by simp)) <|
    returns_require (henv "ECOMMERCE_POSTGRES_PASSWORD" (by simp)) ?_
  obtain ⟨role, hrole, hlogin, hpassword, -⟩ := hadmin
  refine .call (.connect s ⟨⟨role, hrole, hlogin, hpassword⟩, h.database⟩) ?_
  refine returns_ensureRole h fun s h hrole => ?_
  refine returns_grant h hrole (fun p hp => ?_) fun s h hrole => ?_
  · rw [List.mem_singleton.mp hp]
    exact if_pos h.database
  refine returns_grant h hrole (fun p hp => ?_) fun s h hrole => ?_
  · rw [List.mem_singleton.mp hp]
    exact if_pos h.schema
  refine returns_grant h hrole (fun p hp => ?_) fun s h _ => ?_
  · obtain ⟨t, ht, rfl⟩ := List.mem_map.mp hp
    exact if_pos (h.tables t ht)
  exact returns_require (henv "CDC_PUBLICATION_NAME" (by simp)) (returns_ensurePublication h hk)

/-- A worker that has the plug-in, takes the configuration and starts the connector. -/
theorem returns_registerConnector (henv : Complete env) : Returns Perform s (registerConnector env) := by
  have hconfig : ∃ config, connectorConfig env = .ok config := by
    unfold connectorConfig
    simp only [required_set (henv "CDC_TOPIC_PREFIX" (by simp)),
      required_set (henv "SCHEMA_REGISTRY_NATIVE_URL" (by simp)),
      required_set (henv "ECOMMERCE_POSTGRES_HOST" (by simp)),
      required_set (henv "ECOMMERCE_POSTGRES_PORT" (by simp)),
      required_set (henv "CDC_POSTGRES_USER" (by simp)),
      required_set (henv "CDC_POSTGRES_PASSWORD" (by simp)),
      required_set (henv "ECOMMERCE_POSTGRES_DB" (by simp)),
      required_set (henv "CDC_SLOT_NAME" (by simp)),
      required_set (henv "CDC_PUBLICATION_NAME" (by simp))]
    exact ⟨_, rfl⟩
  obtain ⟨config, hconfig⟩ := hconfig
  refine returns_require (henv "DEBEZIUM_CONNECT_URL" (by simp)) <|
    returns_require (henv "CDC_CONNECTOR_NAME" (by simp)) ?_
  refine .call (.beforeDeadline s true) ?_
  refine .call (.getPlugins s (.ok [postgresConnector])) ?_
  rw [hconfig]
  refine .call (.putConfig s _ config (.ok ())) ?_
  refine .call (.beforeDeadline _ true) ?_
  exact .call (.getStatus _ _ (.ok ⟨some "RUNNING", [some "RUNNING"]⟩)) (.done _ ())

/-- Whatever else the server holds, a job that nothing interrupts may return. -/
theorem returns_main (henv : Complete env) (h : Provisioned env s) (hadmin : AdminReady env s) :
    Returns Perform s (main env) :=
  returns_configurePostgres henv h hadmin fun _ => returns_registerConnector henv

end Alone

/-! ## Two jobs -/

section Samples

/-- The variables, with an admin of its own. -/
def sampleEnv (name : String) : Option String :=
  if name = "ECOMMERCE_POSTGRES_USER" then some "admin"
  else if name = "ECOMMERCE_POSTGRES_PASSWORD" then some "secret"
  else some "x"

/-- A server that has its admin only, and a fresh worker. -/
def sampleState : State where
  catalog := ⟨["x"], ["public"], tableList,
    fun name => if name = "admin" then some ⟨true, true, some "secret", true, true, true⟩ else none,
    fun _ => ∅, fun _ => none⟩
  connectors := fun _ => none

/-- Two containers that start the job with the same variables. -/
def sampleJobs : Processes Bool Answer Raised Unit State := ⟨sampleState, fun _ => main sampleEnv⟩

theorem complete_sample : Complete sampleEnv := by
  intro name _
  unfold sampleEnv
  split
  · exact ⟨_, rfl, by decide⟩
  · split
    · exact ⟨_, rfl, by decide⟩
    · exact ⟨_, rfl, by decide⟩

theorem provisioned_sample : Provisioned sampleEnv sampleState :=
  ⟨List.mem_singleton.mpr rfl, List.mem_singleton.mpr rfl, fun _ h => h, nofun⟩

theorem admin_sample : AdminReady sampleEnv sampleState := ⟨_, rfl, rfl, rfl, rfl⟩

/-- The first of them returns while the other one waits. -/
theorem exists_returned : ∃ c, ReflTransGen (Runs.Step Perform) sampleJobs c ∧ c.programs true = .done () ∧
    c.programs false = main sampleEnv := by
  obtain ⟨c, _, hrun, hdone, -, hothers⟩ := exists_run_of_returns
    (returns_main complete_sample provisioned_sample admin_sample) main_survives sampleJobs rfl (i := true) rfl
  exact ⟨c, hrun, hdone, hothers false nofun⟩

end Samples

/-! ## Runs -/

section Runs

variable {ι : Type} [DecidableEq ι] {c c' : Processes ι Answer Raised Unit State} {i : ι}
  {env : String → Option String}

/-- **A job that has returned has brought its contract about**, and it stands from then on: whatever the
server and the worker held when it began, and whichever steps compatible jobs, from any point of theirs,
made before, between and after its own. -/
theorem contract_of_done (hstart : c.programs i = main env)
    (hothers : ∀ j, j ≠ i → ∃ env', Compatible env env' ∧ (c.programs j).Calls (OfJob env'))
    (hrun : ReflTransGen (Runs.Step Perform) c c') (hdone : c'.programs i = .done ()) :
    Contract env c'.shared := by
  have hkeeps : ∀ j, j ≠ i → (c.programs j).Calls (Keeps Perform (Respects env)) := by
    intro j hj
    obtain ⟨env', hcompatible, hcalls⟩ := hothers j hj
    exact hcalls.mono fun op => keeps_respects hcompatible
  have hsurvives := survives_run (Q := fun _ => Contract env) (E := fun _ _ => True) hkeeps
    (hstart ▸ main_survives) hrun
  rw [hdone] at hsurvives
  exact hsurvives.ended

/-- What every operation keeps of the state, a run keeps. -/
theorem kept_run {P : State → Prop} (hcalls : ∀ j, (c.programs j).Calls (Keeps Perform fun s s' => P s → P s'))
    (hrun : ReflTransGen (Runs.Step Perform) c c') (h : P c.shared) : P c'.shared := by
  have hshared := shared_run hcalls hrun
  generalize c'.shared = s' at hshared
  induction hshared with
  | refl => exact h
  | tail _ hstep ih => exact hstep ih

/-- **A job that has returned leaves a connector that can capture**: the worker has its configuration, and of
the server it has what that asks for, from then on; a publication that was there under the name of the job's
has to publish the changes of rows. -/
theorem main_captures (hstart : c.programs i = main env)
    (hothers : ∀ j, j ≠ i → ∃ env', Compatible env env' ∧ (c.programs j).Calls (OfJob env'))
    (hpublishes : Publishes env c.shared)
    (hrun : ReflTransGen (Runs.Step Perform) c c') (hdone : c'.programs i = .done ()) :
    ∃ config, connectorConfig env = .ok config ∧ c'.shared.connectors (connectorName env) = some config ∧
      CanCapture config c'.shared.catalog := by
  have h := contract_of_done hstart hothers hrun hdone
  have hcalls : ∀ j, (c.programs j).Calls (Keeps Perform fun s s' => Publishes env s → Publishes env s') := by
    intro j
    by_cases hj : j = i
    · subst hj
      rw [hstart]
      exact calls_main.mono fun _ => keeps_publishes
    · obtain ⟨env', -, hcalls⟩ := hothers j hj
      exact hcalls.mono fun _ => keeps_publishes
  obtain ⟨config, hconfig, hready⟩ := h.connector
  exact ⟨config, hconfig, hready, h.canCapture (kept_run hcalls hrun hpublishes) hconfig⟩

/-- The first of two jobs returns. -/
theorem main_captures_sample : ∃ c : Processes Bool Answer Raised Unit State, c.programs true = .done () ∧
    ∃ config, connectorConfig sampleEnv = .ok config ∧ c.shared.connectors "x" = some config ∧
      CanCapture config c.shared.catalog := by
  obtain ⟨c, hrun, hdone, -⟩ := exists_returned
  have hother : ∀ j : Bool, j ≠ true →
      ∃ env', Compatible sampleEnv env' ∧ (sampleJobs.programs j).Calls (OfJob env') :=
    fun _ _ => ⟨sampleEnv, Compatible.refl _, calls_main⟩
  exact ⟨c, hdone, main_captures rfl hother nofun hrun hdone⟩

/-- Over a run jobs leave a state that their relation allows. -/
theorem leaves_run {env : ι → String → Option String} (hcalls : ∀ j, (c.programs j).Calls (OfJob (env j)))
    (hrun : ReflTransGen (Runs.Step Perform) c c') : Leaves env c.shared c'.shared := by
  have hkeeps : ∀ j, (c.programs j).Calls (Keeps Perform (Leaves env)) := fun j =>
    (hcalls j).mono fun _ => keeps_leaves
  have hshared := shared_run hkeeps hrun
  generalize c'.shared = s' at hshared
  induction hshared with
  | refl => exact Leaves.refl env _
  | tail _ hstep ih => exact ih.trans hstep

omit [DecidableEq ι] in
/-- No job takes away what another one needs. -/
theorem Provisioned.run {env : ι → String → Option String} (h : Provisioned (env i) c.shared)
    (hleaves : Leaves env c.shared c'.shared) : Provisioned (env i) c'.shared where
  database := hleaves.databases ▸ h.database
  schema := hleaves.schemas ▸ h.schema
  tables := hleaves.tables ▸ h.tables
  publication := by
    intro p hp
    by_contra hall
    obtain ⟨p', hp', hall'⟩ := hleaves.allTables _ p hp (by simpa using hall)
    rw [h.publication p' hp'] at hall'
    cases hall'

/-- Jobs that give an admin role no other password leave it ready. -/
theorem admin_run {env : ι → String → Option String} {adminEnv : String → Option String}
    (hcalls : ∀ j, (c.programs j).Calls (OfJob (env j)))
    (hsame : ∀ j, cdcUser (env j) = adminUser adminEnv → cdcPassword (env j) = adminPassword adminEnv)
    (hrun : ReflTransGen (Runs.Step Perform) c c') (h : AdminReady adminEnv c.shared) :
    AdminReady adminEnv c'.shared :=
  kept_run (fun j => (hcalls j).mono fun _ => keeps_admin (hsame j)) hrun h

/-- Over the contract, jobs with the same variables change nothing. -/
theorem shared_eq_of_contract (hcalls : ∀ j, (c.programs j).Calls (OfJob env)) (h : Contract env c.shared)
    (hrun : ReflTransGen (Runs.Step Perform) c c') : c'.shared = c.shared := by
  have hkeeps : ∀ j, (c.programs j).Calls (Keeps Perform fun s s' => Contract env s → s' = s) := fun j =>
    (hcalls j).mono fun _ hop _ _ _ hperform hs => perform_idle hs hop hperform
  have hshared := shared_run hkeeps hrun
  generalize c'.shared = s' at hshared
  induction hshared with
  | refl => rfl
  | tail _ hstep ih =>
    rw [← ih] at h
    rw [hstep h, ih]

/-- **Deployments are idempotent**: once a job has returned, whatever jobs with the same variables go on with
from any point of theirs, or do from their beginning, changes nothing of the server and of the worker. -/
theorem main_idempotent {c'' : Processes ι Answer Raised Unit State} (hstart : c.programs i = main env)
    (hothers : ∀ j, j ≠ i → (c.programs j).Calls (OfJob env))
    (hrun : ReflTransGen (Runs.Step Perform) c c') (hdone : c'.programs i = .done ())
    (hlater : ReflTransGen (Runs.Step Perform) c' c'') : c''.shared = c'.shared := by
  have hcalls : ∀ j, (c'.programs j).Calls (OfJob env) := by
    intro j
    by_cases hj : j = i
    · subst hj
      rw [hdone]
      trivial
    · exact calls_run (hothers j hj) hrun
  refine shared_eq_of_contract hcalls ?_ hlater
  exact contract_of_done hstart (fun j hj => ⟨env, Compatible.refl env, hothers j hj⟩) hrun hdone

/-- Both jobs return, one after the other: the second one has changed nothing. -/
theorem main_idempotent_sample : ∃ c c' : Processes Bool Answer Raised Unit State,
    c.programs true = .done () ∧ c'.programs false = .done () ∧ c'.shared = c.shared := by
  obtain ⟨c, hrun, hdone, hfresh⟩ := exists_returned
  have hcalls : ∀ j, (sampleJobs.programs j).Calls (OfJob ((fun _ : Bool => sampleEnv) j)) := fun _ => calls_main
  have hleaves : Leaves (fun _ : Bool => sampleEnv) sampleState c.shared := leaves_run hcalls hrun
  have hprovisioned : Provisioned ((fun _ : Bool => sampleEnv) true) c.shared :=
    Provisioned.run (i := true) (c := sampleJobs) provisioned_sample hleaves
  have hadmin : AdminReady sampleEnv c.shared := admin_run hcalls (fun _ => nofun) hrun admin_sample
  obtain ⟨c', _, hlater, hdone', -, -⟩ :=
    exists_run_of_returns (returns_main complete_sample hprovisioned hadmin) main_survives c rfl hfresh
  have hothers : ∀ j : Bool, j ≠ true → (sampleJobs.programs j).Calls (OfJob sampleEnv) := fun _ _ => calls_main
  exact ⟨c, c', hdone, hdone', main_idempotent rfl hothers hrun hdone hlater⟩

/-- **Jobs keep to their own role, publication and connector**: over any run, whatever their variables, and
broken off anywhere, no other role, publication or connector changes, nothing is revoked, no role becomes a
superuser or may create databases or roles, and what a role is granted is the three privileges of a job. -/
theorem least_privilege {env : ι → String → Option String}
    (hjobs : ∀ j, c.programs j = main (env j)) (hrun : ReflTransGen (Runs.Step Perform) c c') :
    Leaves env c.shared c'.shared :=
  leaves_run (fun j => hjobs j ▸ calls_main) hrun

/-- The first of two jobs returns. -/
theorem least_privilege_sample : ∃ c : Processes Bool Answer Raised Unit State, c.programs true = .done () ∧
    Leaves (fun _ : Bool => sampleEnv) sampleState c.shared := by
  obtain ⟨c, hrun, hdone, -⟩ := exists_returned
  have hjobs : ∀ j, sampleJobs.programs j = main ((fun _ : Bool => sampleEnv) j) := fun _ => rfl
  exact ⟨c, hdone, least_privilege hjobs hrun⟩

end Runs

end LocalDataPlatform.Cdc.Bootstrap
