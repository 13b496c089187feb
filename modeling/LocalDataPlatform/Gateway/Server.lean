import LocalDataPlatform.Runs.Lock
import LocalDataPlatform.Stream.Envelope
import Mathlib.Data.List.Induction

/-!
# The Spark job gateway

`job_gateway.py`: a threaded HTTP server over one lock. A handler thread is taken step by step, so
that any number of requests interleave; what a process does, and whether a client is still there to
read the answer, is the environment's.

* `do_GET`, `do_POST` — what a request is answered before a process is started.
* `Outcome.answer` — the answer after the process, one for each way `subprocess.run` ends.
* `Handler`, `Server.step`, `Server.run` — the handler threads, interleaved.
* `Advance` — everything one step can do to the thread that takes it, to the log and to the lock.
* `Progress` — what a thread has logged by the time it is where it is.

Principal results: `locked_run` (mutual exclusion over every interleaving), `processes_serial` (the
processes of two requests never overlap), `progress_run` (what a request started, and what it was
answered), `lock_freed` (whatever ends the process, the lock is freed).
-/

set_option autoImplicit false

namespace LocalDataPlatform.Gateway

open LocalDataPlatform.Stream (Json)

/-! ## Requests and answers -/

inductive HTTPStatus
  | OK
  | BAD_REQUEST
  | NOT_FOUND
  | CONFLICT
  | BAD_GATEWAY
  | GATEWAY_TIMEOUT
  deriving DecidableEq, Repr

def HTTPStatus.value : HTTPStatus → Nat
  | .OK => 200
  | .BAD_REQUEST => 400
  | .NOT_FOUND => 404
  | .CONFLICT => 409
  | .BAD_GATEWAY => 502
  | .GATEWAY_TIMEOUT => 504

/-- The allow-list: capability names and the scripts behind them. -/
def JOBS : List (String × List String) :=
  [("iceberg-sales", ["/opt/spark/jobs/iceberg_sales.py"]),
    ("iceberg-maintenance", ["/opt/spark/jobs/maintain_iceberg.py"]),
    ("validate-platform", ["/opt/spark/jobs/validate_platform.py"])]

def SPARK_SUBMIT : String := "/opt/spark/bin/spark-submit"

def SPARK_MASTER : String := "spark://spark-master:7077"

/-- `JOBS.get`. -/
def jobArgs (job_name : String) : Option (List String) := JOBS.lookup job_name

/-- The command of a job. -/
def command (job_args : List String) : List String :=
  [SPARK_SUBMIT, "--master", SPARK_MASTER, "--deploy-mode", "client",
    "--conf", "spark.driver.host=spark-gateway", "--conf", "spark.driver.bindAddress=0.0.0.0",
    "--conf", "spark.executor.cores=1", "--conf", "spark.cores.max=1",
    "--conf", "spark.executor.memory=2g"] ++ job_args

inductive Method
  | GET
  | POST
  deriving DecidableEq, Repr

structure Request where
  method : Method
  path : List Char
  deriving DecidableEq, Repr

/-- What `send_json` is given. -/
structure Answer where
  status : HTTPStatus
  payload : Json

def health : List Char := ['/', 'h', 'e', 'a', 'l', 't', 'h']

def jobsPrefix : List Char := ['/', 'j', 'o', 'b', 's', '/']

def notFound : Answer := ⟨.NOT_FOUND, .obj [("error", .str "not_found")]⟩

def gatewayBusy : Answer := ⟨.CONFLICT, .obj [("error", .str "gateway_busy")]⟩

def unknownJob : Answer :=
  ⟨.BAD_REQUEST, .obj [("error", .str "unknown_job"),
    ("allowed_jobs", .arr [.str "iceberg-maintenance", .str "iceberg-sales", .str "validate-platform"])]⟩

/-- `do_GET`, with `job_lock.locked()`. -/
def do_GET (locked : Bool) (path : List Char) : Answer :=
  if path ≠ health then notFound
  else ⟨.OK, .obj [("status", .str "ok"), ("busy", .bool locked)]⟩

/-- A job of the allow-list that was asked for. -/
structure Job where
  name : String
  args : List String
  deriving DecidableEq, Repr

/-- `do_POST` up to the lock: the answer, or the job asked for. -/
def do_POST (path : List Char) : Except Answer Job :=
  if ¬ jobsPrefix <+: path then .error notFound
  else
    let job_name := String.ofList (path.drop jobsPrefix.length)
    match jobArgs job_name with
    | none => .error unknownJob
    | some job_args => .ok ⟨job_name, job_args⟩

/-- How `subprocess.run` ends: the process exits; it is killed at the timeout; or anything else is
raised, and the process is gone as well. -/
inductive Outcome
  | completed (returncode : Int) (stdout : List Char)
  | timeoutExpired (detail : List Char)
  | raised
  deriving DecidableEq, Repr

/-- `text[-12000:]`. -/
def tail (text : List Char) : List Char := text.drop (text.length - 12000)

/-- What is sent once `subprocess.run` has ended; nothing when it raised. -/
def Outcome.answer (job : Job) : Outcome → Option Answer
  | .completed returncode stdout =>
    some ⟨if returncode = 0 then .OK else .BAD_GATEWAY,
      .obj [("job", .str job.name), ("return_code", .num returncode 0),
        ("log_tail", .str (String.ofList (tail stdout)))]⟩
  | .timeoutExpired detail =>
    some ⟨.GATEWAY_TIMEOUT, .obj [("job", .str job.name), ("error", .str "job_timeout"),
      ("detail", .str (String.ofList detail))]⟩
  | .raised => none

/-! ## Threads -/

/-- Where a handler thread is. -/
inductive Handler
  | idle
  | handling (request : Request)
  | answering (answer : Answer)
  | acquired (job : Job)
  | running (job : Job)
  | returned (answer : Answer)
  | releasing
  | closed

/-- The thread is between `acquire` and `release`. -/
def Handler.Inside : Handler → Prop
  | .acquired _ => True
  | .running _ => True
  | .returned _ => True
  | .releasing => True
  | _ => False

instance (h : Handler) : Decidable h.Inside := by
  cases h <;> unfold Handler.Inside <;> infer_instance

/-- What happened, by thread. -/
inductive Event
  | accepted (thread : Nat) (request : Request)
  | spawned (thread : Nat) (command : List String)
  | ended (thread : Nat) (outcome : Outcome)
  | answered (thread : Nat) (answer : Answer)
  | released (thread : Nat)

def Event.thread : Event → Nat
  | .accepted t _ => t
  | .spawned t _ => t
  | .ended t _ => t
  | .answered t _ => t
  | .released t => t

/-- The lock, the handler threads, and what happened so far. -/
structure Server where
  job_lock : Option Nat
  handlers : Nat → Handler
  events : List Event

/-- `accept` hands a connection to a thread, `route` reads the request up to the lock, `spawn` starts
the process or fails to, `finish` ends it, `send` writes the answer or fails to, `release` is the
`finally`. -/
inductive Action
  | accept (thread : Nat) (request : Request)
  | route (thread : Nat)
  | spawn (thread : Nat) (started : Bool)
  | finish (thread : Nat) (outcome : Outcome)
  | send (thread : Nat) (delivered : Bool)
  | release (thread : Nat)

/-- The thread of an action. -/
def Action.thread : Action → Nat
  | .accept t _ => t
  | .route t => t
  | .spawn t _ => t
  | .finish t _ => t
  | .send t _ => t
  | .release t => t

namespace Server

def initial : Server := ⟨none, fun _ => .idle, []⟩

/-- A thread goes on to another state. -/
def goTo (s : Server) (t : Nat) (h : Handler) : Server :=
  { s with handlers := Function.update s.handlers t h }

@[simp] theorem handlers_goTo (s : Server) (t : Nat) (h : Handler) :
    (s.goTo t h).handlers = Function.update s.handlers t h := rfl

def log (s : Server) (e : Event) : Server := { s with events := s.events ++ [e] }

/-- `send_json`: what a client that is gone does not read is not answered. -/
def sendJson (s : Server) (t : Nat) (answer : Answer) (delivered : Bool) : Server :=
  if delivered then s.log (.answered t answer) else s

/-- One step of one thread; a step that the thread cannot take changes nothing. -/
def step (s : Server) : Action → Server
  | .accept t request =>
    match s.handlers t with
    | .idle => (s.log (.accepted t request)).goTo t (.handling request)
    | _ => s
  | .route t =>
    match s.handlers t with
    | .handling ⟨.GET, path⟩ => s.goTo t (.answering (do_GET s.job_lock.isSome path))
    | .handling ⟨.POST, path⟩ =>
      match do_POST path, s.job_lock with
      | .error answer, _ => s.goTo t (.answering answer)
      | .ok _, some _ => s.goTo t (.answering gatewayBusy)
      | .ok job, none => { s.goTo t (.acquired job) with job_lock := some t }
    | _ => s
  | .spawn t started =>
    match s.handlers t with
    | .acquired job =>
      if started then (s.log (.spawned t (command job.args))).goTo t (.running job)
      else s.goTo t .releasing
    | _ => s
  | .finish t outcome =>
    match s.handlers t with
    | .running job =>
      match outcome.answer job with
      | some answer => (s.log (.ended t outcome)).goTo t (.returned answer)
      | none => (s.log (.ended t outcome)).goTo t .releasing
    | _ => s
  | .send t delivered =>
    match s.handlers t with
    | .answering answer => (s.sendJson t answer delivered).goTo t .closed
    | .returned answer => (s.sendJson t answer delivered).goTo t .releasing
    | _ => s
  | .release t =>
    match s.handlers t with
    | .releasing => { (s.log (.released t)).goTo t .closed with job_lock := none }
    | _ => s

/-- An interleaving. -/
def run (actions : List Action) : Server := actions.foldl step initial

theorem run_append (actions : List Action) (a : Action) : run (actions ++ [a]) = (run actions).step a := by
  unfold run
  rw [List.foldl_append]
  rfl

/-- What holds at first and after every step holds of every run. -/
theorem run_induct {P : Server → Prop} (hinitial : P initial) (hstep : ∀ s a, P s → P (s.step a))
    (actions : List Action) : P (run actions) := by
  induction actions using List.reverseRecOn with
  | nil => exact hinitial
  | append_singleton actions a ih =>
    rw [run_append]
    exact hstep _ _ ih

end Server

/-- What an answer leaves in the log. -/
def sent (t : Nat) (answer : Answer) (delivered : Bool) : List Event :=
  if delivered then [.answered t answer] else []

/-- **What a step does to its thread**, given the lock: where the thread goes, what is logged, and the
lock after it. -/
inductive Advance (t : Nat) (lock : Option Nat) : Handler → Handler → List Event → Option Nat → Prop
  | accept (request : Request) : Advance t lock .idle (.handling request) [.accepted t request] lock
  | get (path : List Char) :
    Advance t lock (.handling ⟨.GET, path⟩) (.answering (do_GET lock.isSome path)) [] lock
  | refuse {path : List Char} {answer : Answer} (hpost : do_POST path = .error answer) :
    Advance t lock (.handling ⟨.POST, path⟩) (.answering answer) [] lock
  | busy {path : List Char} {job : Job} {t' : Nat} (hpost : do_POST path = .ok job) (hlock : lock = some t') :
    Advance t lock (.handling ⟨.POST, path⟩) (.answering gatewayBusy) [] lock
  | acquire {path : List Char} {job : Job} (hpost : do_POST path = .ok job) (hlock : lock = none) :
    Advance t lock (.handling ⟨.POST, path⟩) (.acquired job) [] (some t)
  | spawn (job : Job) : Advance t lock (.acquired job) (.running job) [.spawned t (command job.args)] lock
  | unstarted (job : Job) : Advance t lock (.acquired job) .releasing [] lock
  | finish {job : Job} {outcome : Outcome} {answer : Answer} (hanswer : outcome.answer job = some answer) :
    Advance t lock (.running job) (.returned answer) [.ended t outcome] lock
  | raise {job : Job} {outcome : Outcome} (hanswer : outcome.answer job = none) :
    Advance t lock (.running job) .releasing [.ended t outcome] lock
  | answer (answer : Answer) (delivered : Bool) :
    Advance t lock (.answering answer) .closed (sent t answer delivered) lock
  | report (answer : Answer) (delivered : Bool) :
    Advance t lock (.returned answer) .releasing (sent t answer delivered) lock
  | release : Advance t lock .releasing .closed [.released t] none

namespace Server

theorem sendJson_eq (s : Server) (t : Nat) (answer : Answer) (delivered : Bool) :
    s.sendJson t answer delivered = { s with events := s.events ++ sent t answer delivered } := by
  cases delivered
  · exact congrArg (Server.mk s.job_lock s.handlers) (List.append_nil _).symm
  · rfl

/-- A step takes its thread one step further, or does nothing. -/
theorem step_advance (s : Server) (a : Action) :
    s.step a = s ∨ ∃ h new lock, Advance a.thread s.job_lock (s.handlers a.thread) h new lock ∧
      s.step a = ⟨lock, Function.update s.handlers a.thread h, s.events ++ new⟩ := by
  cases a with
  | accept t request =>
    unfold step Action.thread
    dsimp only
    split
    · rename_i h
      rw [h]
      exact Or.inr ⟨_, _, _, .accept request, rfl⟩
    · exact Or.inl rfl
  | route t =>
    unfold step Action.thread
    dsimp only
    split
    · rename_i h
      rw [h]
      exact Or.inr ⟨_, _, _, .get _, by rw [List.append_nil]; rfl⟩
    · rename_i h
      rw [h]
      split
      · rename_i hpost
        exact Or.inr ⟨_, _, _, .refuse hpost, by rw [List.append_nil]; rfl⟩
      · rename_i hpost hlock
        exact Or.inr ⟨_, _, _, .busy hpost hlock, by rw [List.append_nil]; rfl⟩
      · rename_i hpost hlock
        exact Or.inr ⟨_, _, _, .acquire hpost hlock, by rw [List.append_nil]; rfl⟩
    · exact Or.inl rfl
  | spawn t started =>
    unfold step Action.thread
    dsimp only
    split
    · rename_i h
      rw [h]
      cases started with
      | true => exact Or.inr ⟨_, _, _, .spawn _, rfl⟩
      | false => exact Or.inr ⟨_, _, _, .unstarted _, by rw [List.append_nil]; rfl⟩
    · exact Or.inl rfl
  | finish t outcome =>
    unfold step Action.thread
    dsimp only
    split
    · rename_i h
      rw [h]
      split
      · rename_i hanswer
        exact Or.inr ⟨_, _, _, .finish hanswer, rfl⟩
      · rename_i hanswer
        exact Or.inr ⟨_, _, _, .raise hanswer, rfl⟩
    · exact Or.inl rfl
  | send t delivered =>
    unfold step Action.thread
    dsimp only
    split
    · rename_i answer h
      rw [h]
      exact Or.inr ⟨_, _, _, .answer answer delivered, by rw [sendJson_eq]; rfl⟩
    · rename_i answer h
      rw [h]
      exact Or.inr ⟨_, _, _, .report answer delivered, by rw [sendJson_eq]; rfl⟩
    · exact Or.inl rfl
  | release t =>
    unfold step Action.thread
    dsimp only
    split
    · rename_i h
      rw [h]
      exact Or.inr ⟨_, _, _, .release, rfl⟩
    · exact Or.inl rfl

/-- What holds at first, and as long as threads advance, holds of every run. -/
theorem run_advance {P : Server → Prop} (hinitial : P initial)
    (hstep : ∀ s t h new lock, P s → Advance t s.job_lock (s.handlers t) h new lock →
      P ⟨lock, Function.update s.handlers t h, s.events ++ new⟩) (actions : List Action) :
    P (run actions) := by
  refine run_induct hinitial (fun s a hs => ?_) actions
  rcases step_advance s a with he | ⟨h, new, lock, hadvance, he⟩
  · rw [he]
    exact hs
  · rw [he]
    exact hstep s a.thread h new lock hs hadvance

/-! ## The lock -/

/-- The threads between `acquire` and `release` are the holder of `job_lock`. -/
def Locked (s : Server) : Prop := Runs.Owned Handler.Inside s.job_lock s.handlers

theorem Locked.advance {s : Server} {t : Nat} {h : Handler} {new : List Event} {lock : Option Nat}
    (hs : s.Locked) (hadvance : Advance t s.job_lock (s.handlers t) h new lock) :
    Locked ⟨lock, Function.update s.handlers t h, s.events ++ new⟩ := by
  unfold Locked at *
  dsimp only at *
  generalize hfrom : s.handlers t = before at hadvance
  cases hadvance with
  | acquire hpost hlock =>
    rw [hlock] at hs
    exact hs.enter trivial
  | release =>
    have hin : (s.handlers t).Inside := by rw [hfrom]; trivial
    exact hs.leave hin not_false
  | _ => exact hs.stay (by rw [hfrom]; exact Iff.rfl)

theorem Locked.step {s : Server} (hs : s.Locked) (a : Action) : (s.step a).Locked := by
  rcases step_advance s a with he | ⟨h, new, lock, hadvance, he⟩
  · rw [he]
    exact hs
  · rw [he]
    exact hs.advance hadvance

/-- **Mutual exclusion**: over every interleaving, the threads between `acquire` and `release` are the
one that holds `job_lock`. -/
theorem locked_run (actions : List Action) : (run actions).Locked :=
  run_advance (Runs.Owned.initial fun _ => not_false) (fun _ _ _ _ _ hs hadvance => hs.advance hadvance)
    actions

/-- A request for a job gets the lock exactly when no other thread is inside. -/
theorem route_acquires_iff (actions : List Action) {t : Nat} {path : List Char} {job : Job}
    (hhandling : (run actions).handlers t = .handling ⟨.POST, path⟩) (hpost : do_POST path = .ok job) :
    ((run actions).step (.route t)).handlers t = .acquired job ↔
      ∀ t', ¬ ((run actions).handlers t').Inside := by
  unfold step
  dsimp only
  rw [hhandling]
  dsimp only
  rw [hpost]
  cases hlock : (run actions).job_lock with
  | none =>
    refine iff_of_true (Function.update_self ..) fun t' hin => ?_
    exact absurd ((locked_run actions t').mp hin) (by rw [hlock]; exact nofun)
  | some t' =>
    refine iff_of_false (fun h => ?_) fun h => h t' ((locked_run actions t').mpr hlock)
    dsimp only at h
    rw [handlers_goTo, Function.update_self] at h
    cases h

section LockFreed

variable {s : Server} {t : Nat}

theorem spawn_inside (started : Bool) (h : (s.handlers t).Inside) :
    (∃ job, (s.step (.spawn t started)).handlers t = .running job) ∨
      (∃ answer, (s.step (.spawn t started)).handlers t = .returned answer) ∨
      (s.step (.spawn t started)).handlers t = .releasing := by
  cases hs : s.handlers t with
  | acquired job => cases started <;> simp [step, hs]
  | running job => simp [step, hs]
  | returned answer => simp [step, hs]
  | releasing => simp [step, hs]
  | _ =>
    rw [hs] at h
    cases h

theorem finish_inside (outcome : Outcome)
    (h : (∃ job, s.handlers t = .running job) ∨ (∃ answer, s.handlers t = .returned answer) ∨
      s.handlers t = .releasing) :
    (∃ answer, (s.step (.finish t outcome)).handlers t = .returned answer) ∨
      (s.step (.finish t outcome)).handlers t = .releasing := by
  rcases h with ⟨job, hs⟩ | ⟨answer, hs⟩ | hs
  · cases hanswer : outcome.answer job <;> simp [step, hs, hanswer]
  · simp [step, hs]
  · simp [step, hs]

theorem send_inside (delivered : Bool)
    (h : (∃ answer, s.handlers t = .returned answer) ∨ s.handlers t = .releasing) :
    (s.step (.send t delivered)).handlers t = .releasing := by
  rcases h with ⟨answer, hs⟩ | hs <;> simp [step, hs]

theorem release_inside (h : s.handlers t = .releasing) : (s.step (.release t)).job_lock = none := by
  simp [step, h]

end LockFreed

/-- **The lock is always freed**: four steps of the thread inside end its section, however the process
ends and whether or not its answer is read. -/
theorem lock_freed (actions : List Action) (t : Nat) (started delivered : Bool) (outcome : Outcome)
    (hlock : (run actions).job_lock = some t) :
    (run (actions ++ [.spawn t started, .finish t outcome, .send t delivered, .release t])).job_lock = none := by
  unfold run at *
  rw [List.foldl_append]
  have hinside := (locked_run actions t).mpr hlock
  exact release_inside (send_inside delivered (finish_inside outcome (spawn_inside started hinside)))

/-- The process is killed at the timeout and nobody reads the answer. -/
theorem lock_freed_timeout :
    (run ([.accept 0 ⟨.POST, "/jobs/iceberg-sales".toList⟩, .route 0] ++
      [.spawn 0 true, .finish 0 (.timeoutExpired []), .send 0 false, .release 0])).job_lock = none :=
  lock_freed _ 0 true false (.timeoutExpired []) rfl

/-! ## What a request comes to -/

/-- What a thread has logged. -/
def history (s : Server) (t : Nat) : List Event := s.events.filter fun e => decide (e.thread = t)

end Server

/-- The answers that start no process. -/
inductive Refused : Request → Answer → Prop
  | get (path : List Char) (locked : Bool) : Refused ⟨.GET, path⟩ (do_GET locked path)
  | refuse {path : List Char} {answer : Answer} (h : do_POST path = .error answer) : Refused ⟨.POST, path⟩ answer
  | busy {path : List Char} {job : Job} (h : do_POST path = .ok job) : Refused ⟨.POST, path⟩ gatewayBusy

/-- What a thread logs between `acquire` and `release`. -/
inductive Worked (t : Nat) (job : Job) : List Event → Prop
  | unstarted : Worked t job []
  | raised {outcome : Outcome} (h : outcome.answer job = none) :
    Worked t job [.spawned t (command job.args), .ended t outcome]
  | reported {outcome : Outcome} {answer : Answer} (delivered : Bool) (h : outcome.answer job = some answer) :
    Worked t job ([.spawned t (command job.args), .ended t outcome] ++ sent t answer delivered)

/-- What a thread has logged by the time it is where it is. -/
inductive Progress (t : Nat) : Handler → List Event → Prop
  | idle : Progress t .idle []
  | handling (request : Request) : Progress t (.handling request) [.accepted t request]
  | answering {request : Request} {answer : Answer} (h : Refused request answer) :
    Progress t (.answering answer) [.accepted t request]
  | acquired {path : List Char} {job : Job} (h : do_POST path = .ok job) :
    Progress t (.acquired job) [.accepted t ⟨.POST, path⟩]
  | running {path : List Char} {job : Job} (h : do_POST path = .ok job) :
    Progress t (.running job) [.accepted t ⟨.POST, path⟩, .spawned t (command job.args)]
  | returned {path : List Char} {job : Job} {outcome : Outcome} {answer : Answer} (h : do_POST path = .ok job)
    (hanswer : outcome.answer job = some answer) :
    Progress t (.returned answer)
      [.accepted t ⟨.POST, path⟩, .spawned t (command job.args), .ended t outcome]
  | releasing {path : List Char} {job : Job} {events : List Event} (h : do_POST path = .ok job)
    (hworked : Worked t job events) : Progress t .releasing (.accepted t ⟨.POST, path⟩ :: events)
  | refused {request : Request} {answer : Answer} (delivered : Bool) (h : Refused request answer) :
    Progress t .closed (.accepted t request :: sent t answer delivered)
  | served {path : List Char} {job : Job} {events : List Event} (h : do_POST path = .ok job)
    (hworked : Worked t job events) :
    Progress t .closed (.accepted t ⟨.POST, path⟩ :: events ++ [.released t])

theorem sent_thread {t : Nat} {answer : Answer} {delivered : Bool} {e : Event}
    (h : e ∈ sent t answer delivered) : e.thread = t := by
  cases delivered with
  | false => cases h
  | true =>
    rw [List.mem_singleton.mp h]
    rfl

section Advance

variable {t : Nat} {lock lock' : Option Nat} {h h' : Handler} {events new : List Event}

/-- A step logs events of its own thread. -/
theorem Advance.thread (hadvance : Advance t lock h h' new lock') : ∀ e ∈ new, e.thread = t := by
  cases hadvance with
  | answer answer delivered => exact fun e he => sent_thread he
  | report answer delivered => exact fun e he => sent_thread he
  | accept request => exact List.forall_mem_singleton.mpr rfl
  | spawn job => exact List.forall_mem_singleton.mpr rfl
  | finish => exact List.forall_mem_singleton.mpr rfl
  | raise => exact List.forall_mem_singleton.mpr rfl
  | release => exact List.forall_mem_singleton.mpr rfl
  | _ => exact fun e he => absurd he List.not_mem_nil

/-- Only a thread that has taken the lock, and has no process yet, starts one. -/
theorem Advance.spawned {t' : Nat} {command : List String} {xs ys : List Event}
    (hadvance : Advance t lock h h' new lock') (hnew : new = xs ++ .spawned t' command :: ys) :
    xs = [] ∧ t' = t ∧ ∃ job, h = .acquired job ∧ h' = .running job := by
  have hmem : Event.spawned t' command ∈ new := by
    rw [hnew]
    exact List.mem_append_right _ List.mem_cons_self
  cases hadvance with
  | spawn job =>
    cases List.mem_singleton.mp hmem
    refine ⟨?_, rfl, job, rfl, rfl⟩
    have hlength := congrArg List.length hnew
    simp only [List.length_append, List.length_cons, List.length_nil] at hlength
    exact List.length_eq_zero_iff.mp (by omega)
  | answer answer delivered => cases delivered <;> simp [sent] at hmem
  | report answer delivered => cases delivered <;> simp [sent] at hmem
  | _ => simp at hmem

/-- **A step of a thread is progress of it.** -/
theorem Progress.advance (hprogress : Progress t h events) (hadvance : Advance t lock h h' new lock') :
    Progress t h' (events ++ new) := by
  cases hadvance with
  | accept request =>
    cases hprogress
    exact .handling request
  | get path =>
    cases hprogress
    exact .answering (.get path _)
  | refuse hpost =>
    cases hprogress
    exact .answering (.refuse hpost)
  | busy hpost hlock =>
    cases hprogress
    exact .answering (.busy hpost)
  | acquire hpost hlock =>
    cases hprogress
    exact .acquired hpost
  | spawn job =>
    cases hprogress with
    | acquired hpost => exact .running hpost
  | unstarted job =>
    cases hprogress with
    | acquired hpost => exact .releasing hpost .unstarted
  | finish hanswer =>
    cases hprogress with
    | running hpost => exact .returned hpost hanswer
  | raise hanswer =>
    cases hprogress with
    | running hpost => exact .releasing hpost (.raised hanswer)
  | answer answer delivered =>
    cases hprogress with
    | answering hrefused => exact .refused delivered hrefused
  | report answer delivered =>
    cases hprogress with
    | returned hpost hanswer => exact .releasing hpost (.reported delivered hanswer)
  | release =>
    cases hprogress with
    | releasing hpost hworked => exact .served hpost hworked

end Advance

namespace Server

theorem filter_thread_self {t : Nat} {new : List Event} (h : ∀ e ∈ new, e.thread = t) :
    new.filter (fun e => decide (e.thread = t)) = new :=
  List.filter_eq_self.mpr fun e he => decide_eq_true (h e he)

theorem filter_thread_ne {t t' : Nat} {new : List Event} (h : ∀ e ∈ new, e.thread = t') (ht : t' ≠ t) :
    new.filter (fun e => decide (e.thread = t)) = [] :=
  List.filter_eq_nil_iff.mpr fun e he hd => ht ((h e he).symm.trans (of_decide_eq_true hd))

/-- **What a request started and what it was answered**: over every interleaving each thread has logged
a piece of one section, whatever the others do. -/
theorem progress_run (actions : List Action) (t : Nat) :
    Progress t ((run actions).handlers t) ((run actions).history t) := by
  refine run_advance (P := fun s => Progress t (s.handlers t) (s.history t)) .idle ?_ actions
  intro s t' h new lock hs hadvance
  unfold history at *
  dsimp only at *
  rw [List.filter_append]
  by_cases ht : t' = t
  · subst ht
    rw [Function.update_self, filter_thread_self hadvance.thread]
    exact hs.advance hadvance
  · rw [Function.update_of_ne (Ne.symm ht), filter_thread_ne hadvance.thread ht, List.append_nil]
    exact hs

/-! ## The processes -/

/-- After a process was started: it is running, it has ended and the thread is still inside, or it has
ended and the lock was released. -/
def Serial (s : Server) : Prop := ∀ pre mid t command, s.events = pre ++ .spawned t command :: mid →
  (∃ job, s.handlers t = .running job) ∨
    (∃ outcome, .ended t outcome ∈ mid) ∧ ((s.handlers t).Inside ∨ .released t ∈ mid)

/-- What the thread that started the process does next. -/
theorem serial_own {t : Nat} {lock lock' : Option Nat} {before h : Handler} {mid new : List Event}
    (hs : (∃ job, before = .running job) ∨
      (∃ outcome, .ended t outcome ∈ mid) ∧ (before.Inside ∨ .released t ∈ mid))
    (hadvance : Advance t lock before h new lock') :
    (∃ job, h = .running job) ∨
      (∃ outcome, .ended t outcome ∈ mid ++ new) ∧ (h.Inside ∨ .released t ∈ mid ++ new) := by
  rcases hs with ⟨job, rfl⟩ | ⟨⟨outcome, hended⟩, hinside | hreleased⟩
  · cases hadvance with
    | finish hanswer =>
      exact Or.inr ⟨⟨_, List.mem_append_right _ List.mem_cons_self⟩, Or.inl trivial⟩
    | raise hanswer =>
      exact Or.inr ⟨⟨_, List.mem_append_right _ List.mem_cons_self⟩, Or.inl trivial⟩
  · refine Or.inr ⟨⟨outcome, List.mem_append_left _ hended⟩, ?_⟩
    cases hadvance with
    | release => exact Or.inr (List.mem_append_right _ List.mem_cons_self)
    | spawn job => exact Or.inl trivial
    | unstarted job => exact Or.inl trivial
    | finish hanswer => exact Or.inl trivial
    | raise hanswer => exact Or.inl trivial
    | report answer delivered => exact Or.inl trivial
    | _ => cases hinside
  · exact Or.inr ⟨⟨outcome, List.mem_append_left _ hended⟩, Or.inr (List.mem_append_left _ hreleased)⟩

theorem Serial.advance {s : Server} {t : Nat} {h : Handler} {new : List Event} {lock : Option Nat}
    (hs : s.Serial) (hadvance : Advance t s.job_lock (s.handlers t) h new lock) :
    Serial ⟨lock, Function.update s.handlers t h, s.events ++ new⟩ := by
  intro pre mid t' command hevents
  dsimp only at hevents ⊢
  have hstarted : ∀ {xs ys}, new = xs ++ .spawned t' command :: ys →
      ∃ job, Function.update s.handlers t h t' = .running job := by
    intro xs ys hnew
    obtain ⟨-, rfl, job, -, rfl⟩ := hadvance.spawned hnew
    exact ⟨job, Function.update_self ..⟩
  rcases List.append_eq_append_iff.mp hevents with ⟨xs, -, hnew⟩ | ⟨xs, hpre, hnew⟩
  · exact Or.inl (hstarted hnew)
  · cases xs with
    | nil => exact Or.inl (@hstarted [] _ hnew.symm)
    | cons x xs =>
      rw [List.cons_append] at hnew
      obtain ⟨rfl, rfl⟩ := List.cons.inj hnew
      by_cases ht : t' = t
      · subst ht
        rw [Function.update_self]
        exact serial_own (hs pre xs t' command hpre) hadvance
      · rw [Function.update_of_ne ht]
        rcases hs pre xs t' command hpre with hrunning | ⟨⟨outcome, hended⟩, hinside | hreleased⟩
        · exact Or.inl hrunning
        · exact Or.inr ⟨⟨outcome, List.mem_append_left _ hended⟩, Or.inl hinside⟩
        · exact Or.inr ⟨⟨outcome, List.mem_append_left _ hended⟩, Or.inr (List.mem_append_left _ hreleased)⟩

theorem serial_run (actions : List Action) : (run actions).Serial := by
  refine run_advance (fun pre mid t command h => ?_) (fun _ _ _ _ _ hs hadvance => hs.advance hadvance) actions
  exact absurd (congrArg List.length h) (by simp [initial])

/-- A thread that has taken the lock and has no process yet is the only one that may start one. -/
theorem spawn_after {actions : List Action} {pre mid : List Event} {t t' : Nat} {command : List String} {job : Job}
    (hevents : (run actions).events = pre ++ .spawned t command :: mid)
    (hacquired : (run actions).handlers t' = .acquired job) :
    t ≠ t' ∧ (∃ outcome, .ended t outcome ∈ mid) ∧ .released t ∈ mid := by
  have hinside : ((run actions).handlers t').Inside := by
    rw [hacquired]
    trivial
  have hne : t ≠ t' := by
    rintro rfl
    -- a thread that has just taken the lock has logged its request and nothing else
    have hprogress := progress_run actions t
    have hmem : .spawned t command ∈ (run actions).history t :=
      List.mem_filter.mpr ⟨by rw [hevents]; exact List.mem_append_right _ List.mem_cons_self, decide_eq_true rfl⟩
    rw [hacquired] at hprogress
    generalize (run actions).history t = events at hprogress hmem
    cases hprogress
    cases List.mem_singleton.mp hmem
  refine ⟨hne, ?_⟩
  rcases serial_run actions pre mid t command hevents with ⟨job', hrunning⟩ | ⟨hended, hin | hreleased⟩
  · have hin : ((run actions).handlers t).Inside := by
      rw [hrunning]
      trivial
    exact absurd ((locked_run actions).exclusive hin hinside) hne
  · exact absurd ((locked_run actions).exclusive hin hinside) hne
  · exact ⟨hended, hreleased⟩

/-- **The processes of two requests never overlap**: between the start of one and the start of the next,
the first has ended and its thread has released the lock. -/
theorem processes_serial (actions : List Action) :
    ∀ {pre mid post : List Event} {t t' : Nat} {command command' : List String},
      (run actions).events = pre ++ .spawned t command :: mid ++ .spawned t' command' :: post →
      t ≠ t' ∧ (∃ outcome, .ended t outcome ∈ mid) ∧ .released t ∈ mid := by
  induction actions using List.reverseRecOn with
  | nil =>
    intro pre mid post t t' command command' h
    exact absurd (congrArg List.length h) (by simp [run, initial])
  | append_singleton actions a ih =>
    intro pre mid post t t' command command' h
    rw [run_append] at h
    rcases step_advance (run actions) a with he | ⟨after, new, lock, hadvance, he⟩
    · rw [he] at h
      exact ih h
    · rw [he] at h
      dsimp only at h
      rcases List.append_eq_append_iff.mp h with ⟨xs, hpre, hnew⟩ | ⟨xs, hpre, hnew⟩
      · obtain ⟨rfl, rfl, job, hacquired, -⟩ := hadvance.spawned hnew
        rw [List.append_nil] at hpre
        exact spawn_after hpre.symm hacquired
      · cases xs with
        | nil =>
          have hspawn : new = [] ++ .spawned t' command' :: post := hnew.symm
          obtain ⟨-, rfl, job, hacquired, -⟩ := hadvance.spawned hspawn
          rw [List.append_nil] at hpre
          exact spawn_after hpre hacquired
        | cons x xs =>
          rw [List.cons_append] at hnew
          obtain ⟨rfl, rfl⟩ := List.cons.inj hnew
          exact ih hpre

/-- A job that ends, and another one after it. -/
def twoJobs : List Action :=
  [.accept 0 ⟨.POST, "/jobs/iceberg-sales".toList⟩, .route 0, .spawn 0 true,
    .accept 1 ⟨.POST, "/jobs/iceberg-maintenance".toList⟩, .finish 0 (.completed 0 []), .send 0 true, .release 0,
    .route 1, .spawn 1 true]

theorem processes_serial_twoJobs :
    ∃ mid, (run twoJobs).events = [.accepted 0 ⟨.POST, "/jobs/iceberg-sales".toList⟩] ++
        .spawned 0 (command ["/opt/spark/jobs/iceberg_sales.py"]) :: mid ++
          [.spawned 1 (command ["/opt/spark/jobs/maintain_iceberg.py"])] ∧
      (∃ outcome, .ended 0 outcome ∈ mid) ∧ .released 0 ∈ mid :=
  ⟨_, rfl, (@processes_serial twoJobs [.accepted 0 ⟨.POST, "/jobs/iceberg-sales".toList⟩]
    [.accepted 1 _, .ended 0 _, .answered 0 _, .released 0] [] 0 1 _ _ rfl).2⟩

end Server

end LocalDataPlatform.Gateway
