import LocalDataPlatform.Gateway.Server

/-!
# The Airflow tasks behind the gateway

One attempt of a task that posts a job, and what it makes of the response it gets, if it gets one.

* `submit` — the client both DAGs write, up to the part of a failed response they show.
* `run_iceberg_batch`, `compact_and_expire_snapshots` — the two tasks.
* `Received` — the response is what the gateway sent to this thread, or nothing.

Principal result: `submit_spec` (what each result of an attempt says of the job, over every
interleaving).
-/

set_option autoImplicit false

namespace LocalDataPlatform.Gateway

open LocalDataPlatform.Stream (Json)

/-! ## The client -/

/-- What `requests.post` returns. -/
structure Response where
  status_code : Nat
  /-- `response.json()`, where the body is JSON. -/
  json : Option Json
  text : List Char

/-- `response.ok`. -/
def Response.ok (r : Response) : Bool := decide (r.status_code < 400)

/-- The response to an answer, whose body has this text. -/
def Answer.response (a : Answer) (text : List Char) : Response := ⟨a.status.value, some a.payload, text⟩

/-- How an attempt fails: `requests.post` raised, or one of the two `RuntimeError`s, or the response is
none the client can read. -/
inductive TaskError
  | unreachable
  | gateway_failed (status_code : Nat) (detail : List Char)
  | job_failed (result : Json)
  | unreadable

/-- `value != 0`. -/
def notZero : Json → Bool
  | .num mantissa _ => decide (mantissa ≠ 0)
  | .bool b => b
  | _ => true

/-- The job is posted; `detail` is the part of a failed response that is shown. -/
def submit (detail : Response → Option (List Char)) (response : Option Response) : Except TaskError Unit :=
  match response with
  | none => .error .unreachable
  | some r =>
    if ¬ r.ok then
      match detail r with
      | some shown => .error (.gateway_failed r.status_code shown)
      | none => .error .unreadable
    else
      match r.json with
      | some (.obj fields) =>
        if ((Json.obj fields).field "return_code").all notZero then .error (.job_failed (.obj fields))
        else .ok ()
      | _ => .error .unreadable

/-- `response.json().get("log_tail", response.text)[-12000:]`, or the text where the body is no JSON. -/
def logTail (r : Response) : Option (List Char) :=
  match r.json with
  | none => some (tail r.text)
  | some (.obj fields) =>
    match (Json.obj fields).field "log_tail" with
    | none => some (tail r.text)
    | some (.str s) => some (tail s.toList)
    | some _ => none
  | some _ => none

/-- `POST {SPARK_GATEWAY_URL}/jobs/iceberg-sales`. -/
def icebergSalesRequest : Request := ⟨.POST, "/jobs/iceberg-sales".toList⟩

/-- `POST {SPARK_GATEWAY_URL}/jobs/iceberg-maintenance`. -/
def icebergMaintenanceRequest : Request := ⟨.POST, "/jobs/iceberg-maintenance".toList⟩

/-- `run_iceberg_batch` of `ecommerce_pipeline`, given the response to `icebergSalesRequest`. -/
def run_iceberg_batch : Option Response → Except TaskError Unit := submit logTail

/-- `compact_and_expire_snapshots` of `lakehouse_maintenance`, given the response to
`icebergMaintenanceRequest`. -/
def compact_and_expire_snapshots : Option Response → Except TaskError Unit :=
  submit fun r => some (r.text.drop (r.text.length - 4000))

/-! ## An attempt -/

/-- The response is what the gateway answered the thread, or the client got none. -/
inductive Received (s : Server) (t : Nat) : Option Response → Prop
  | lost : Received s t none
  | answered {answer : Answer} (text : List Char) (h : .answered t answer ∈ s.events) :
    Received s t (some (answer.response text))

/-- What the result of an attempt says of the process behind it. -/
inductive Verdict (s : Server) (t : Nat) (job : Job) : Except TaskError Unit → Prop
  | done {stdout : List Char} (hspawned : .spawned t (command job.args) ∈ s.events)
    (hended : .ended t (.completed 0 stdout) ∈ s.events) : Verdict s t job (.ok ())
  | unknown : Verdict s t job (.error .unreachable)
  | refused {detail : List Char} (hnone : ∀ command, .spawned t command ∉ s.events) :
    Verdict s t job (.error (.gateway_failed 409 detail))
  | failed {returncode : Int} {stdout detail : List Char} (hne : returncode ≠ 0)
    (hended : .ended t (.completed returncode stdout) ∈ s.events) :
    Verdict s t job (.error (.gateway_failed 502 detail))
  | killed {what detail : List Char} (hended : .ended t (.timeoutExpired what) ∈ s.events) :
    Verdict s t job (.error (.gateway_failed 504 detail))

section Attempt

variable {t : Nat} {job : Job} {path : List Char} {answer : Answer} {events : List Event}

theorem mem_history {s : Server} {e : Event} (h : e.thread = t) : e ∈ s.history t ↔ e ∈ s.events := by
  unfold Server.history
  rw [List.mem_filter, decide_eq_true_iff]
  exact and_iff_left h

theorem answer_mem_sent {answer' : Answer} {delivered : Bool} (h : .answered t answer ∈ sent t answer' delivered) :
    answer = answer' := by
  cases delivered with
  | false => cases h
  | true =>
    cases List.mem_singleton.mp h
    rfl

/-- A thread with an answer inside its section has started a process, and it has ended. -/
theorem Worked.answered (h : Worked t job events) (hanswer : .answered t answer ∈ events) :
    ∃ outcome, outcome.answer job = some answer ∧ .spawned t (command job.args) ∈ events ∧
      .ended t outcome ∈ events := by
  cases h with
  | unstarted => cases hanswer
  | raised hraised => simp at hanswer
  | @reported outcome answer' delivered hsome =>
    have hsent : Event.answered t answer ∈ sent t answer' delivered := by simpa using hanswer
    rw [answer_mem_sent hsent]
    refine ⟨outcome, hsome, ?_, ?_⟩
    · exact List.mem_append_left _ List.mem_cons_self
    · exact List.mem_append_left _ (List.mem_cons_of_mem _ List.mem_cons_self)

theorem accepted_not_mem_sent {request : Request} {delivered : Bool} :
    .accepted t request ∉ sent t answer delivered := by
  cases delivered <;> simp [sent]

theorem Worked.accepted {request : Request} (h : Worked t job events) : .accepted t request ∉ events := by
  cases h with
  | unstarted => exact List.not_mem_nil
  | raised hraised => simp
  | reported delivered hsome => simp [accepted_not_mem_sent]

theorem spawned_not_mem_sent {command : List String} {delivered : Bool} :
    .spawned t command ∉ sent t answer delivered := by
  cases delivered <;> simp [sent]

/-- The request that a thread has logged is the one it works on. -/
theorem request_unique {request request' : Request} (h : .accepted t request ∈ .accepted t request' :: events)
    (hnone : .accepted t request ∉ events) : request' = request := by
  rcases List.mem_cons.mp h with he | hlater
  · cases he
    rfl
  · exact absurd hlater hnone

/-- **A request for a job is answered in two ways**: 409, and it started nothing; or what its own process
came to. -/
theorem Progress.answered {handler : Handler} (h : Progress t handler events)
    (haccepted : .accepted t ⟨.POST, path⟩ ∈ events) (hpost : do_POST path = .ok job)
    (hanswer : .answered t answer ∈ events) :
    (answer = gatewayBusy ∧ ∀ command, .spawned t command ∉ events) ∨
      ∃ outcome, outcome.answer job = some answer ∧ .spawned t (command job.args) ∈ events ∧
        .ended t outcome ∈ events := by
  cases h with
  | releasing hpost' hworked =>
    cases request_unique haccepted hworked.accepted
    cases hpost.symm.trans hpost'
    have hin := (List.mem_cons.mp hanswer).resolve_left nofun
    obtain ⟨outcome, hsome, hspawned, hended⟩ := hworked.answered hin
    exact Or.inr ⟨outcome, hsome, List.mem_cons_of_mem _ hspawned, List.mem_cons_of_mem _ hended⟩
  | served hpost' hworked =>
    have hnone : Event.accepted t ⟨.POST, path⟩ ∉ _ ++ [Event.released t] := fun hmem =>
      (List.mem_append.mp hmem).elim hworked.accepted (by simp)
    cases request_unique haccepted hnone
    cases hpost.symm.trans hpost'
    have hin := (List.mem_append.mp ((List.mem_cons.mp hanswer).resolve_left nofun)).resolve_right (by simp)
    obtain ⟨outcome, hsome, hspawned, hended⟩ := hworked.answered hin
    exact Or.inr ⟨outcome, hsome, List.mem_cons_of_mem _ (List.mem_append_left _ hspawned),
      List.mem_cons_of_mem _ (List.mem_append_left _ hended)⟩
  | refused delivered hrefused =>
    cases request_unique haccepted accepted_not_mem_sent
    have hsent := answer_mem_sent ((List.mem_cons.mp hanswer).resolve_left nofun)
    cases hrefused with
    | refuse herror => cases hpost.symm.trans herror
    | busy hok =>
      exact Or.inl ⟨hsent, fun command hspawned =>
        spawned_not_mem_sent ((List.mem_cons.mp hspawned).resolve_left nofun)⟩
  | _ => simp at hanswer

/-- A gateway answer is either a success with return code 0 or a failure. -/
theorem submit_completed (detail : Response → Option (List Char)) (text : List Char) {outcome : Outcome}
    (h : outcome.answer job = some answer) :
    (∃ stdout, outcome = .completed 0 stdout ∧ submit detail (some (answer.response text)) = .ok ()) ∨
      ((∃ returncode stdout, returncode ≠ 0 ∧ outcome = .completed returncode stdout ∧
          answer.status = .BAD_GATEWAY) ∨
        ∃ what, outcome = .timeoutExpired what ∧ answer.status = .GATEWAY_TIMEOUT) := by
  cases outcome with
  | completed returncode stdout =>
    obtain rfl := Option.some.inj h
    by_cases hcode : returncode = 0
    · subst hcode
      exact Or.inl ⟨stdout, rfl, rfl⟩
    · exact Or.inr (Or.inl ⟨returncode, stdout, hcode, rfl, if_neg hcode⟩)
  | timeoutExpired what =>
    obtain rfl := Option.some.inj h
    exact Or.inr (Or.inr ⟨what, rfl, rfl⟩)
  | raised => cases h

/-- A failed response is shown. -/
theorem submit_failed {detail : Response → Option (List Char)} {text shown : List Char}
    (hstatus : 400 ≤ answer.status.value) (hdetail : detail (answer.response text) = some shown) :
    submit detail (some (answer.response text)) = .error (.gateway_failed answer.status.value shown) := by
  have hok : ¬ (answer.response text).ok = true := fun h => absurd (of_decide_eq_true h) (Nat.not_lt_of_ge hstatus)
  unfold submit
  dsimp only
  rw [if_pos hok, hdetail]
  rfl

end Attempt

/-- Something can be shown of every failed response the gateway gives. -/
structure Shows (detail : Response → Option (List Char)) : Prop where
  busy : ∀ text, ∃ shown, detail (gatewayBusy.response text) = some shown
  ended : ∀ {job : Job} {outcome : Outcome} {answer : Answer}, outcome.answer job = some answer →
    ∀ text, ∃ shown, detail (answer.response text) = some shown

theorem shows_logTail : Shows logTail where
  busy text := ⟨tail text, rfl⟩
  ended {job outcome answer} h text := by
    cases outcome with
    | completed returncode stdout =>
      obtain rfl := Option.some.inj h
      exact ⟨_, rfl⟩
    | timeoutExpired what =>
      obtain rfl := Option.some.inj h
      exact ⟨_, rfl⟩
    | raised => cases h

/-- **What an attempt tells its task**: it succeeds exactly after a process of its own job, started by its
own request, exited with 0; a failure with 409 started nothing, 502 and 504 tell how the process ended, and
only an attempt without a response leaves it open. -/
theorem submit_spec {detail : Response → Option (List Char)} (hdetail : Shows detail)
    (actions : List Action) {t : Nat} {path : List Char} {job : Job} {response : Option Response}
    (haccepted : .accepted t ⟨.POST, path⟩ ∈ (Server.run actions).events) (hpost : do_POST path = .ok job)
    (hreceived : Received (Server.run actions) t response) :
    Verdict (Server.run actions) t job (submit detail response) := by
  cases hreceived with
  | lost => exact .unknown
  | @answered answer text hanswer =>
    have hprogress := Server.progress_run actions t
    rcases hprogress.answered ((mem_history rfl).mpr haccepted) hpost ((mem_history rfl).mpr hanswer) with
      ⟨rfl, hnone⟩ | ⟨outcome, hsome, hspawned, hended⟩
    · obtain ⟨shown, hshown⟩ := hdetail.busy text
      rw [submit_failed (by decide) hshown]
      exact .refused fun command hspawned => hnone command ((mem_history rfl).mpr hspawned)
    · have hspawned := (mem_history rfl).mp hspawned
      have hended := (mem_history rfl).mp hended
      obtain ⟨shown, hshown⟩ := hdetail.ended hsome text
      rcases submit_completed detail text hsome with ⟨stdout, rfl, hok⟩ |
        ⟨returncode, stdout, hne, rfl, hstatus⟩ | ⟨what, rfl, hstatus⟩
      · rw [hok]
        exact .done hspawned hended
      · rw [submit_failed (by rw [hstatus]; decide) hshown, hstatus]
        exact .failed hne hended
      · rw [submit_failed (by rw [hstatus]; decide) hshown, hstatus]
        exact .killed hended

/-- The job of `run_iceberg_batch`. -/
def icebergSales : Job := ⟨"iceberg-sales", ["/opt/spark/jobs/iceberg_sales.py"]⟩

/-- The job of `compact_and_expire_snapshots`. -/
def icebergMaintenance : Job := ⟨"iceberg-maintenance", ["/opt/spark/jobs/maintain_iceberg.py"]⟩

theorem do_POST_icebergSales : do_POST icebergSalesRequest.path = .ok icebergSales := rfl

/-- **What an attempt of `run_iceberg_batch` says of the Iceberg job**, over every interleaving of the
gateway's requests. -/
theorem run_iceberg_batch_spec (actions : List Action) {t : Nat} {response : Option Response}
    (haccepted : .accepted t icebergSalesRequest ∈ (Server.run actions).events)
    (hreceived : Received (Server.run actions) t response) :
    Verdict (Server.run actions) t icebergSales (run_iceberg_batch response) :=
  submit_spec shows_logTail actions haccepted do_POST_icebergSales hreceived

/-- The same of an attempt of `compact_and_expire_snapshots`. -/
theorem compact_and_expire_snapshots_spec (actions : List Action) {t : Nat} {response : Option Response}
    (haccepted : .accepted t icebergMaintenanceRequest ∈ (Server.run actions).events)
    (hreceived : Received (Server.run actions) t response) :
    Verdict (Server.run actions) t icebergMaintenance (compact_and_expire_snapshots response) :=
  submit_spec ⟨fun _ => ⟨_, rfl⟩, fun _ _ => ⟨_, rfl⟩⟩ actions haccepted rfl hreceived

/-- A job that exits with 0 while a second request is refused. -/
def oneJob : List Action :=
  [.accept 0 icebergSalesRequest, .route 0, .spawn 0 true, .accept 1 icebergSalesRequest, .route 1,
    .finish 0 (.completed 0 ['o', 'k']), .send 1 true, .send 0 true, .release 0]

/-- The first attempt succeeds, the second is told 409. -/
theorem run_iceberg_batch_twice :
    Verdict (Server.run oneJob) 0 icebergSales (.ok ()) ∧
      Verdict (Server.run oneJob) 1 icebergSales (.error (.gateway_failed 409 [])) :=
  ⟨run_iceberg_batch_spec oneJob (.head _)
      (.answered [] (.tail _ (.tail _ (.tail _ (.tail _ (.tail _ (.head _))))))),
    run_iceberg_batch_spec oneJob (.tail _ (.tail _ (.head _)))
      (.answered [] (.tail _ (.tail _ (.tail _ (.tail _ (.head _))))))⟩

end LocalDataPlatform.Gateway
