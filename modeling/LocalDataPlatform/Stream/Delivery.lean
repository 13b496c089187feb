import LocalDataPlatform.Stream.Producer

/-!
# A successful publication was acknowledged

The producer hands each message to its client, which may refuse it while its queue is full, and which
reports the delivery of a message later, during a poll or the final flush.  Success rests on two counts
that are taken at the end.

* `Report` — a delivery report; `Session` — the producer, with the messages its client has accepted.
* `Schedule` — what the client does: the polls after a full queue, an exception, the reports it serves.
* `publishLoop`, `finish`, `main` — the loop over the rows, the checks at the end, and both.
* `Acknowledged` — each row was enqueued once, and each message reported once, without an error.

Principal results: `Session.Inv.poll` (what a poll preserves), `publishLoop_spec` (the loop neither drops
nor repeats a row), `main_ok_iff` (success is acknowledgement), `main_prompt`.
-/

set_option autoImplicit false

namespace LocalDataPlatform.Stream

open Relational Text

/-! ## The client -/

/-- A delivery report: the position of the message among the accepted ones, and its error. -/
structure Report where
  message : Nat
  error : Option String

/-- The producer during a run. -/
structure Session where
  /-- The messages the client has accepted. -/
  enqueued : List Message
  /-- The reports it has served. -/
  reports : List Report
  delivered : Nat
  delivery_errors : List String

def Session.empty : Session := ⟨[], [], 0, []⟩

/-- The message was accepted and not reported yet. -/
def Session.Awaits (s : Session) (message : Nat) : Prop :=
  message < s.enqueued.length ∧ message ∉ s.reports.map Report.message

instance (s : Session) (message : Nat) : Decidable (s.Awaits message) :=
  inferInstanceAs (Decidable (_ ∧ _))

/-- `delivery_callback`. -/
def deliveryCallback (s : Session) (error : Option String) : Session :=
  match error with
  | some e => { s with delivery_errors := s.delivery_errors ++ [e] }
  | none => { s with delivered := s.delivered + 1 }

/-- A report is served once, of an accepted message. -/
def Session.serve (s : Session) (report : Report) : Session :=
  if s.Awaits report.message then
    deliveryCallback { s with reports := s.reports ++ [report] } report.error
  else s

/-- `poll`, and `flush`: some reports are served. -/
def Session.poll (s : Session) (served : List Report) : Session := served.foldl Session.serve s

/-- What `flush` returns: the messages that were not reported. -/
def Session.remaining (s : Session) : Nat :=
  ((List.range s.enqueued.length).filter fun message => decide (s.Awaits message)).length

/-- What the client does with a row. -/
structure RowSchedule where
  /-- The reports served by `poll(1)` after each `BufferError`. -/
  full : List (List Report)
  /-- Another exception of `produce`. -/
  raises : Option String
  /-- The reports served by `poll(0)`. -/
  after : List Report

/-- What the client does during a run. -/
structure Schedule where
  row : Nat → RowSchedule
  /-- The reports served before `flush` returns. -/
  flush : List Report

/-! ## The producer -/

/-- `while True`: a message that is refused is produced again after a poll. -/
def produceLoop (message : Message) (raises : Option String) :
    List (List Report) → Session → Except String Unit × Session
  | [], s =>
    match raises with
    | some e => (.error e, s)
    | none => (.ok (), { s with enqueued := s.enqueued ++ [message] })
  | served :: full, s => produceLoop message raises full (s.poll served)

section Main

variable (uuid5 : String → Uuid) (clock : Nat → Datetime) (schedule : Schedule)

/-- `for values in cursor`. -/
def publishLoop : Nat → List StagingOrder → Session → Except String Unit × Session
  | _, [], s => (.ok (), s)
  | n, row :: rows, s =>
    match publishRow uuid5 (clock n) row with
    | .error e => (.error e, s)
    | .ok message =>
      match produceLoop message (schedule.row n).raises (schedule.row n).full s with
      | (.error e, s) => (.error e, s)
      | (.ok _, s) => publishLoop (n + 1) rows (s.poll (schedule.row n).after)

/-- What `main` prints. -/
structure Printed where
  topic : String
  delivered_events : Nat
  deriving DecidableEq

/-- The checks after `flush`. -/
def finish (topic : String) (s : Session) : Except String Printed :=
  if s.remaining ≠ 0 then .error (toString s.remaining ++ " Kafka messages were not delivered")
  else
    match s.delivery_errors with
    | e :: _ => .error (toString s.delivery_errors.length ++ " Kafka deliveries failed: " ++ e)
    | [] => .ok ⟨topic, s.delivered⟩

/-- `main`, with the session it leaves. -/
def main (topic : String) (args : Args) (watermark : Option (Instant × Option Instant))
    (rows : List StagingOrder) : Except String Printed × Session :=
  match window args watermark with
  | .error e => (.error e, Session.empty)
  | .ok w =>
    match publishLoop uuid5 clock schedule 0 (selectOrders w args.limit rows) Session.empty with
    | (.error e, s) => (.error e, s)
    | (.ok _, s) => (finish topic (s.poll schedule.flush), s.poll schedule.flush)

end Main

/-- The reports of a message. -/
def Session.reportsOf (s : Session) (message : Nat) : List (Option String) :=
  (s.reports.filter fun report => decide (report.message = message)).map Report.error

/-- The messages are those of the rows, one each. -/
def MessagesOf (uuid5 : String → Uuid) (rows : List StagingOrder) (messages : List Message) : Prop :=
  List.Forall₂ (fun row message => ∃ produced_at, publishRow uuid5 produced_at row = .ok message) rows messages

/-- Each row was enqueued once, and each message reported once, without an error. -/
structure Acknowledged (uuid5 : String → Uuid) (rows : List StagingOrder) (s : Session) : Prop where
  enqueued : MessagesOf uuid5 rows s.enqueued
  reported : ∀ message < s.enqueued.length, s.reportsOf message = [none]

/-! ## What holds throughout -/

/-- Reports are of accepted messages, one at most, and they are counted. -/
structure Session.Inv (s : Session) : Prop where
  nodup : (s.reports.map Report.message).Nodup
  lt : ∀ report ∈ s.reports, report.message < s.enqueued.length
  delivered : s.delivered = (s.reports.filter fun report => report.error.isNone).length
  errors : s.delivery_errors = s.reports.filterMap Report.error

section Invariant

variable {s : Session} {report : Report} {served : List Report} {message : Message} {raises : Option String}
variable {full : List (List Report)}

theorem Session.Inv.empty : Session.empty.Inv := ⟨List.nodup_nil, nofun, rfl, rfl⟩

@[simp] theorem enqueued_deliveryCallback {error : Option String} :
    (deliveryCallback s error).enqueued = s.enqueued := by
  cases error <;> rfl

@[simp] theorem reports_deliveryCallback {error : Option String} :
    (deliveryCallback s error).reports = s.reports := by
  cases error <;> rfl

@[simp] theorem enqueued_serve : (s.serve report).enqueued = s.enqueued := by
  unfold Session.serve
  split
  · simp
  · rfl

@[simp] theorem enqueued_poll : (s.poll served).enqueued = s.enqueued := by
  unfold Session.poll
  induction served generalizing s with
  | nil => rfl
  | cons report served ih => rw [List.foldl_cons, ih, enqueued_serve]

/-- A report that is served is counted. -/
theorem Session.Inv.serve (h : s.Inv) : (s.serve report).Inv := by
  unfold Session.serve
  split
  · rename_i hawaits
    obtain ⟨hlt, hnew⟩ := hawaits
    constructor
    · rw [reports_deliveryCallback, List.map_append, List.map_singleton]
      exact List.nodup_append.mpr ⟨h.nodup, List.nodup_singleton _, fun a ha b hb => by
        rw [List.mem_singleton.mp hb]
        exact fun he => hnew (he ▸ ha)⟩
    · intro r hr
      rw [reports_deliveryCallback] at hr
      rw [enqueued_deliveryCallback]
      rcases List.mem_append.mp hr with hr | hr
      · exact h.lt r hr
      · rw [List.mem_singleton.mp hr]
        exact hlt
    · rw [reports_deliveryCallback, List.filter_append, List.length_append]
      unfold deliveryCallback
      cases hreport : report.error with
      | none => simp [h.delivered, hreport]
      | some e => simp [h.delivered, hreport]
    · rw [reports_deliveryCallback, List.filterMap_append]
      unfold deliveryCallback
      cases hreport : report.error with
      | none => simp [h.errors, hreport]
      | some e => simp [h.errors, hreport]
  · exact h

theorem Session.Inv.poll (h : s.Inv) : (s.poll served).Inv := by
  unfold Session.poll
  induction served generalizing s with
  | nil => exact h
  | cons report served ih => exact ih h.serve

theorem Session.Inv.accept (h : s.Inv) :
    ({ s with enqueued := s.enqueued ++ [message] } : Session).Inv := by
  refine ⟨h.nodup, fun r hr => ?_, h.delivered, h.errors⟩
  rw [List.length_append]
  exact Nat.lt_add_right _ (h.lt r hr)

end Invariant

/-! ## The loop -/

section Loop

variable {uuid5 : String → Uuid} {clock : Nat → Datetime} {schedule : Schedule} {s s' : Session}
variable {message : Message} {raises : Option String} {full : List (List Report)} {rows : List StagingOrder}
variable {n : Nat} {result : Except String Unit}

/-- **A message is enqueued once**, however often the queue was full, or an exception is raised. -/
theorem produceLoop_spec (h : s.Inv) (heq : produceLoop message raises full s = (result, s')) :
    s'.Inv ∧ (result = .ok () ∧ s'.enqueued = s.enqueued ++ [message] ∨
      (∃ e, result = .error e) ∧ s'.enqueued = s.enqueued) := by
  induction full generalizing s with
  | nil =>
    unfold produceLoop at heq
    cases raises with
    | none =>
      cases heq
      exact ⟨h.accept, Or.inl ⟨rfl, rfl⟩⟩
    | some e =>
      cases heq
      exact ⟨h, Or.inr ⟨⟨e, rfl⟩, rfl⟩⟩
  | cons served full ih =>
    have hrest := ih (@Session.Inv.poll _ served h) heq
    rwa [enqueued_poll] at hrest

/-- **The loop enqueues the messages of all rows, one each and in their order, or raises before.** -/
theorem publishLoop_spec (h : s.Inv) (heq : publishLoop uuid5 clock schedule n rows s = (result, s')) :
    s'.Inv ∧ ((∃ messages, result = .ok () ∧ MessagesOf uuid5 rows messages ∧
        s'.enqueued = s.enqueued ++ messages) ∨
      (∃ e, result = .error e) ∧ s'.enqueued.length < s.enqueued.length + rows.length) := by
  induction rows generalizing n s with
  | nil =>
    cases heq
    exact ⟨h, Or.inl ⟨[], rfl, List.Forall₂.nil, (List.append_nil _).symm⟩⟩
  | cons row rows ih =>
    unfold publishLoop at heq
    cases hrow : publishRow uuid5 (clock n) row with
    | error e =>
      rw [hrow] at heq
      cases heq
      refine ⟨h, Or.inr ⟨⟨e, rfl⟩, ?_⟩⟩
      simp
    | ok message =>
      rw [hrow] at heq
      dsimp only at heq
      cases hproduce : produceLoop message (schedule.row n).raises (schedule.row n).full s with
      | mk produced s₁ =>
        obtain ⟨hproduced, hcases⟩ := produceLoop_spec h hproduce
        rw [hproduce] at heq
        rcases hcases with ⟨rfl, henqueued⟩ | ⟨⟨e, rfl⟩, henqueued⟩
        · obtain ⟨hinv, hrest⟩ := ih hproduced.poll heq
          rw [enqueued_poll, henqueued] at hrest
          refine ⟨hinv, ?_⟩
          rcases hrest with ⟨messages, hok, hmessages, hall⟩ | ⟨herror, hfewer⟩
          · refine Or.inl ⟨message :: messages, hok, List.Forall₂.cons ⟨_, hrow⟩ hmessages, ?_⟩
            rw [hall, List.append_assoc, List.singleton_append]
          · refine Or.inr ⟨herror, ?_⟩
            simp only [List.length_append, List.length_cons, List.length_nil] at hfewer ⊢
            omega
        · cases heq
          refine ⟨hproduced, Or.inr ⟨⟨e, rfl⟩, ?_⟩⟩
          rw [henqueued, List.length_cons]
          omega

end Loop

/-! ## The checks at the end -/

section Finish

variable {uuid5 : String → Uuid} {s : Session} {rows : List StagingOrder} {topic : String} {printed : Printed}

theorem remaining_eq_zero : s.remaining = 0 ↔
    ∀ message < s.enqueued.length, message ∈ s.reports.map Report.message := by
  unfold Session.remaining
  rw [List.length_eq_zero_iff, List.filter_eq_nil_iff]
  constructor
  · intro h message hlt
    have hnot := h message (List.mem_range.mpr hlt)
    rw [decide_eq_true_iff] at hnot
    exact by_contra fun hnew => hnot ⟨hlt, hnew⟩
  · intro h message hmem
    rw [decide_eq_true_iff]
    exact fun hawaits => hawaits.2 (h message hawaits.1)

/-- Without an error among the reports none is counted. -/
theorem Session.Inv.errors_eq_nil (h : s.Inv) :
    s.delivery_errors = [] ↔ ∀ report ∈ s.reports, report.error = none := by
  rw [h.errors, List.filterMap_eq_nil_iff]

/-- A message has one report at most. -/
theorem Session.Inv.reportsOf_eq (h : s.Inv) {report : Report} (hmem : report ∈ s.reports) :
    s.reportsOf report.message = [report.error] := by
  have hunique : UniqueOn Report.message s.reports := h.nodup
  unfold Session.reportsOf
  rw [hunique.filter_key, hunique.lookup_self hmem]
  rfl

/-- Every accepted message is among the reports, so they are as many. -/
theorem Session.Inv.length_reports (h : s.Inv) (hall : s.remaining = 0) :
    s.reports.length = s.enqueued.length := by
  have hperm : (s.reports.map Report.message).Perm (List.range s.enqueued.length) := by
    refine (List.perm_ext_iff_of_nodup h.nodup List.nodup_range).mpr fun message => ?_
    rw [List.mem_range]
    constructor
    · intro hmem
      obtain ⟨report, hreport, rfl⟩ := List.mem_map.mp hmem
      exact h.lt report hreport
    · exact remaining_eq_zero.mp hall message
  simpa using hperm.length_eq

/-- A message is reported without an error exactly if it has a report, and none with an error. -/
theorem Session.Inv.reported_iff (h : s.Inv) :
    (∀ message < s.enqueued.length, s.reportsOf message = [none]) ↔
      s.remaining = 0 ∧ s.delivery_errors = [] := by
  rw [remaining_eq_zero, h.errors_eq_nil]
  constructor
  · intro hreported
    constructor
    · intro message hlt
      have hmem : none ∈ s.reportsOf message := by
        rw [hreported message hlt]
        exact List.mem_singleton_self _
      obtain ⟨report, hreport, -⟩ := List.mem_map.mp hmem
      obtain ⟨hmem, hmessage⟩ := List.mem_filter.mp hreport
      exact List.mem_map.mpr ⟨report, hmem, of_decide_eq_true hmessage⟩
    · intro report hmem
      have hone := hreported report.message (h.lt report hmem)
      rw [h.reportsOf_eq hmem] at hone
      exact List.head_eq_of_cons_eq hone
  · rintro ⟨hall, hnone⟩ message hlt
    obtain ⟨report, hmem, rfl⟩ := List.mem_map.mp (hall message hlt)
    rw [h.reportsOf_eq hmem, hnone report hmem]

/-- **The checks pass exactly if every message was reported without an error.** -/
theorem finish_eq_ok (h : s.Inv) : finish topic s = .ok printed ↔
    (∀ message < s.enqueued.length, s.reportsOf message = [none]) ∧ printed = ⟨topic, s.enqueued.length⟩ := by
  rw [h.reported_iff]
  unfold finish
  by_cases hremaining : s.remaining = 0
  · rw [if_neg (not_not.mpr hremaining)]
    cases herrors : s.delivery_errors with
    | cons e errors => simp
    | nil =>
      have hdelivered : s.delivered = s.enqueued.length := by
        rw [h.delivered, ← h.length_reports hremaining, List.filter_eq_self.mpr]
        intro report hmem
        rw [h.errors_eq_nil.mp herrors report hmem]
        rfl
      rw [hdelivered]
      simp [hremaining, eq_comm]
  · rw [if_pos hremaining]
    simp [hremaining]

end Finish

section Main

variable {uuid5 : String → Uuid} {clock : Nat → Datetime} {schedule : Schedule} {topic : String} {args : Args}
variable {watermark : Option (Instant × Option Instant)} {rows : List StagingOrder} {w : Window}

/-- **Success is acknowledgement.**  Whatever the client does, `main` returns normally exactly if each
selected row was enqueued once and each message was reported once, without an error, and then it prints
the number of the rows; otherwise it raises. -/
theorem main_ok_iff (uuid5 : String → Uuid) (clock : Nat → Datetime) (schedule : Schedule) (topic : String)
    (args : Args) (watermark : Option (Instant × Option Instant)) (rows : List StagingOrder)
    (printed : Printed) :
    (main uuid5 clock schedule topic args watermark rows).1 = .ok printed ↔
      ∃ w, window args watermark = .ok w ∧
        Acknowledged uuid5 (selectOrders w args.limit rows)
          (main uuid5 clock schedule topic args watermark rows).2 ∧
        printed = ⟨topic, (selectOrders w args.limit rows).length⟩ := by
  unfold main
  cases hwindow : window args watermark with
  | error e => simp
  | ok w =>
    dsimp only
    cases hloop : publishLoop uuid5 clock schedule 0 (selectOrders w args.limit rows) Session.empty with
    | mk result s =>
      obtain ⟨hinv, hcases⟩ := publishLoop_spec Session.Inv.empty hloop
      rcases hcases with ⟨messages, rfl, hmessages, henqueued⟩ | ⟨⟨e, rfl⟩, hfewer⟩
      · have hall : s.enqueued = messages := henqueued
        dsimp only
        rw [finish_eq_ok hinv.poll, enqueued_poll, hall, ← hmessages.length_eq]
        constructor
        · rintro ⟨hreported, hprinted⟩
          refine ⟨w, rfl, ⟨?_, ?_⟩, hprinted⟩
          · rw [enqueued_poll, hall]
            exact hmessages
          · rw [enqueued_poll, hall, ← hmessages.length_eq]
            exact hreported
        · rintro ⟨w', hw', hacknowledged, hprinted⟩
          cases hw'
          refine ⟨fun message hlt => hacknowledged.reported message ?_, hprinted⟩
          rw [enqueued_poll, hall, ← hmessages.length_eq]
          exact hlt
      · -- a row that was not enqueued is missing at the end
        refine iff_of_false nofun ?_
        rintro ⟨w', hw', hacknowledged, -⟩
        cases hw'
        have hlength := hacknowledged.enqueued.length_eq
        have hempty : Session.empty.enqueued.length = 0 := rfl
        dsimp only at hlength
        omega

end Main

/-! ## A prompt client -/

section Prompt

variable {uuid5 : String → Uuid} {clock : Nat → Datetime} {s s' : Session} {rows : List StagingOrder}
variable {message : Message}

/-- The client accepts each message at once, and reports it during the next poll. -/
def Schedule.prompt : Schedule where
  row n := ⟨[], none, [⟨n, none⟩]⟩
  flush := []

/-- Every accepted message is reported without an error. -/
def Session.Settled (s : Session) : Prop := ∀ message < s.enqueued.length, s.reportsOf message = [none]

/-- A message that is reported at once leaves the session settled. -/
theorem settled_prompt (h : s.Inv) (hsettled : s.Settled) :
    (Session.poll { s with enqueued := s.enqueued ++ [message] } [⟨s.enqueued.length, none⟩]).Settled := by
  have hnew : s.enqueued.length ∉ s.reports.map Report.message := by
    intro hmem
    obtain ⟨report, hreport, hmessage⟩ := List.mem_map.mp hmem
    exact absurd (h.lt report hreport) (by omega)
  have hawaits : Session.Awaits { s with enqueued := s.enqueued ++ [message] } s.enqueued.length :=
    ⟨by simp, hnew⟩
  obtain ⟨hall, hnone⟩ := h.reported_iff.mp hsettled
  refine h.accept.poll.reported_iff.mpr ⟨remaining_eq_zero.mpr fun i hi => ?_, ?_⟩
  · rw [enqueued_poll, List.length_append, List.length_singleton] at hi
    unfold Session.poll Session.serve
    rw [List.foldl_cons, List.foldl_nil, if_pos hawaits, reports_deliveryCallback, List.map_append,
      List.mem_append]
    rcases Nat.lt_succ_iff_lt_or_eq.mp hi with hlt | rfl
    · exact Or.inl (remaining_eq_zero.mp hall i hlt)
    · exact Or.inr (List.mem_singleton_self _)
  · unfold Session.poll Session.serve
    rw [List.foldl_cons, List.foldl_nil, if_pos hawaits]
    exact hnone

theorem publishLoop_prompt (h : s.Inv) (hsettled : s.Settled) (hrows : ∀ row ∈ rows, ∃ d, row.updatedAt = some d) :
    ∃ s', publishLoop uuid5 clock Schedule.prompt s.enqueued.length rows s = (.ok (), s') ∧ s'.Settled := by
  induction rows generalizing s with
  | nil => exact ⟨s, rfl, hsettled⟩
  | cons row rows ih =>
    obtain ⟨d, hd⟩ := hrows row List.mem_cons_self
    have hrow := @publishRow_eq uuid5 row (clock s.enqueued.length) d hd
    unfold publishLoop
    rw [hrow]
    dsimp only
    obtain ⟨s', hloop, hsettled'⟩ := ih h.accept.poll (settled_prompt h hsettled)
      fun r hr => hrows r (List.mem_cons_of_mem _ hr)
    rw [enqueued_poll, List.length_append, List.length_singleton] at hloop
    exact ⟨s', hloop, hsettled'⟩

/-- **With a prompt client `main` returns normally.** -/
theorem main_prompt {topic : String} {args : Args} {watermark : Option (Instant × Option Instant)} {w : Window}
    (hwindow : window args watermark = .ok w) :
    (main uuid5 clock Schedule.prompt topic args watermark rows).1 =
      .ok ⟨topic, (selectOrders w args.limit rows).length⟩ := by
  have hdated : ∀ row ∈ selectOrders w args.limit rows, ∃ d, row.updatedAt = some d := by
    intro row hrow
    obtain ⟨-, d, hd, -⟩ := mem_selectOrders hrow
    exact ⟨d, hd⟩
  obtain ⟨s, hloop, hsettled⟩ := @publishLoop_prompt uuid5 clock Session.empty _ Session.Inv.empty nofun hdated
  obtain ⟨hinv, hcases⟩ := publishLoop_spec Session.Inv.empty hloop
  have hlength : (selectOrders w args.limit rows).length = s.enqueued.length := by
    rcases hcases with ⟨messages, -, hmessages, hall⟩ | ⟨⟨e, he⟩, -⟩
    · rw [hall]
      exact hmessages.length_eq
    · cases he
  unfold main
  rw [hwindow, hlength]
  dsimp only
  rw [show publishLoop uuid5 clock Schedule.prompt 0 _ Session.empty = _ from hloop]
  exact (finish_eq_ok hinv).mpr ⟨hsettled, rfl⟩

end Prompt

end LocalDataPlatform.Stream
