import LocalDataPlatform.Gateway.Client
import LocalDataPlatform.Sales.IcebergJobs

/-!
# The Iceberg table behind the gateway

The gateway with the driver each of its processes runs. While the process of an `iceberg-sales` request
runs, its driver takes the steps of `main`; the process of another job leaves the rows of the table;
when a process ends or is killed, its driver is gone.

* `Lab`, `Lab.step`, `Lab.run` — the server, the drivers and the table.
* `Lab.machine` — the lab as runs of the job under one lock.

Principal results: `lab_refines` (every interleaving of requests and drivers is a run of the job where
the gateway starts everything), `lab_table` (so the table keeps its grain, whatever is requested).
-/

set_option autoImplicit false

namespace LocalDataPlatform.Gateway

open Relational Sales.Jobs

variable {O I P Row : Type}

/-- The server, the table, staging, and the driver of each thread's process. -/
structure Lab (O I P Row : Type) where
  server : Server
  table : List Row
  staging : Reads O I P
  drivers : Nat → Phase O I P Row

/-- A step of the server, a step of the driver of a thread's process, or a change of staging. -/
inductive LabAction (O I P : Type)
  | serve (action : Action)
  | drive (thread : Nat)
  | stage (staging : Reads O I P)

/-- The thread runs a process of `iceberg-sales`. -/
def Handler.runsSales : Handler → Bool
  | .running job => decide (job = icebergSales)
  | _ => false

/-- The driver of a thread: it starts with a process of `iceberg-sales` and is gone with it. -/
def driverAfter (before after : Bool) (driver : Phase O I P Row) : Phase O I P Row :=
  match before, after with
  | false, true => .launched
  | true, false => .idle
  | _, _ => driver

namespace Lab

def initial (staging : Reads O I P) : Lab O I P Row := ⟨.initial, [], staging, fun _ => .idle⟩

variable [DecidableEq Row] (k : Sink O I P Row)

/-- One step of the lab. -/
def step (l : Lab O I P Row) : LabAction O I P → Lab O I P Row
  | .serve action =>
    let server := l.server.step action
    { l with
      server := server
      drivers := fun t =>
        driverAfter (l.server.handlers t).runsSales (server.handlers t).runsSales (l.drivers t) }
  | .drive t =>
    if (l.server.handlers t).runsSales then
      { l with
        table := (k.main l.staging l.table (l.drivers t)).2
        drivers := Function.update l.drivers t (k.main l.staging l.table (l.drivers t)).1 }
    else l
  | .stage staging => { l with staging := staging }

/-- An interleaving. -/
def run (staging : Reads O I P) (actions : List (LabAction O I P)) : Lab O I P Row :=
  actions.foldl (step k) (initial staging)

omit [DecidableEq Row] in
/-- The thread whose process of `iceberg-sales` is running. -/
def salesHolder (s : Server) : Option Nat := s.job_lock.filter fun t => (s.handlers t).runsSales

omit [DecidableEq Row] in
/-- The runs of the job, under one lock. -/
def machine (l : Lab O I P Row) : Machine O I P Row := ⟨l.table, l.staging, l.drivers, salesHolder l.server⟩

/-- The server is sound, and a thread has a driver only while it runs the job. -/
structure Coupled (l : Lab O I P Row) : Prop where
  locked : l.server.Locked
  idle : ∀ t, (l.server.handlers t).runsSales = false → l.drivers t = .idle

theorem inside_of_runsSales {h : Handler} (hs : h.runsSales = true) : h.Inside := by
  cases h with
  | running job => trivial
  | _ => cases hs

/-- The process of `iceberg-sales` that runs is that of the holder of the lock. -/
theorem salesHolder_eq_some_iff {s : Server} (hs : s.Locked) {t : Nat} :
    salesHolder s = some t ↔ (s.handlers t).runsSales = true := by
  unfold salesHolder
  rw [Option.filter_eq_some_iff]
  exact and_iff_right_of_imp fun h => (hs t).mp (inside_of_runsSales h)

theorem salesHolder_eq_none {s : Server} (hs : s.Locked) (h : ∀ t, (s.handlers t).runsSales = false) :
    salesHolder s = none := by
  by_contra hne
  obtain ⟨t, ht⟩ := Option.ne_none_iff_exists'.mp hne
  rw [salesHolder_eq_some_iff hs, h t] at ht
  cases ht

/-! ## A step of the server -/

section Serve

variable {k} {l : Lab O I P Row} {s : Server} {t : Nat} {h : Handler} {new : List Event} {lock : Option Nat}

omit [DecidableEq Row] in
@[simp] theorem driverAfter_self (b : Bool) (driver : Phase O I P Row) : driverAfter b b driver = driver := by
  cases b <;> rfl

theorem Coupled.serve (hl : Coupled l) (action : Action) : Coupled (step k l (.serve action)) where
  locked := hl.locked.step action
  idle t hafter := by
    change driverAfter _ ((l.server.step action).handlers t).runsSales _ = _
    have hafter : ((l.server.step action).handlers t).runsSales = false := hafter
    rw [hafter]
    cases hbefore : (l.server.handlers t).runsSales with
    | true => rfl
    | false => exact hl.idle t hbefore

/-- A process of the job starts for a thread that holds the lock and has none yet. -/
theorem Advance.starts (hadvance : Advance t s.job_lock (s.handlers t) h new lock)
    (hbefore : (s.handlers t).runsSales = false) (hafter : h.runsSales = true) :
    (s.handlers t).Inside := by
  generalize s.handlers t = before at hadvance hbefore ⊢
  cases hadvance with
  | spawn job => trivial
  | _ => cases hafter

/-- A process of the job does not go on to be another one. -/
theorem Advance.ends (hadvance : Advance t s.job_lock (s.handlers t) h new lock)
    (hbefore : (s.handlers t).runsSales = true) : h.runsSales = false := by
  generalize s.handlers t = before at hadvance hbefore
  cases hadvance with
  | finish hanswer => rfl
  | raise hanswer => rfl
  | _ => cases hbefore

omit [DecidableEq Row] in
/-- The drivers after a step of one thread are those before, but for its own. -/
theorem drivers_serve (drivers : Nat → Phase O I P Row) :
    (fun t' => driverAfter (s.handlers t').runsSales (Function.update s.handlers t h t').runsSales (drivers t')) =
      Function.update drivers t (driverAfter (s.handlers t).runsSales h.runsSales (drivers t)) := by
  funext t'
  by_cases ht : t' = t
  · subst ht
    rw [Function.update_self, Function.update_self]
  · rw [Function.update_of_ne ht, Function.update_of_ne ht, driverAfter_self]

/-- **A step of the server** starts a run of the job, stops one, or is none of its business. -/
theorem machine_serve (hl : Coupled l) (action : Action) :
    (step k l (.serve action)).machine = l.machine ∨
      (step k l (.serve action)).machine = k.step l.machine (.launch action.thread .gateway) ∨
      (step k l (.serve action)).machine = k.step l.machine (.stop action.thread) := by
  have hafter := hl.locked.step action
  rcases Server.step_advance l.server action with he | ⟨h, new, lock, hadvance, he⟩
  · refine Or.inl ?_
    unfold machine step
    dsimp only
    rw [he]
    simp only [driverAfter_self]
  · have hmachine : (step k l (.serve action)).machine =
        ⟨l.table, l.staging, Function.update l.drivers action.thread
          (driverAfter (l.server.handlers action.thread).runsSales h.runsSales (l.drivers action.thread)),
          salesHolder (l.server.step action)⟩ := by
      unfold machine step
      dsimp only
      rw [he]
      dsimp only
      rw [drivers_serve]
    rw [hmachine]
    rw [he] at hafter ⊢
    have hframe : ∀ t', t' ≠ action.thread →
        (Function.update l.server.handlers action.thread h t').runsSales = (l.server.handlers t').runsSales :=
      fun t' ht => by rw [Function.update_of_ne ht]
    cases hbefore : (l.server.handlers action.thread).runsSales with
    | false =>
      cases hrun : h.runsSales with
      | false =>
        -- no process of the job starts or ends
        refine Or.inl ?_
        have hholder : salesHolder ⟨lock, Function.update l.server.handlers action.thread h,
            l.server.events ++ new⟩ = salesHolder l.server := by
          refine Option.ext fun t' => ?_
          rw [salesHolder_eq_some_iff hafter, salesHolder_eq_some_iff hl.locked]
          by_cases ht : t' = action.thread
          · rw [ht]
            dsimp only
            rw [Function.update_self, hrun, hbefore]
          · exact iff_of_eq (congrArg (· = true) (hframe t' ht))
        rw [hholder, driverAfter_self, Function.update_eq_self]
        rfl
      | true =>
        refine Or.inr (Or.inl ?_)
        have hinside := Advance.starts hadvance hbefore hrun
        have hnone : salesHolder l.server = none := salesHolder_eq_none hl.locked fun t' => by
          by_contra hsales
          have hsales := Bool.eq_true_of_not_eq_false hsales
          cases hl.locked.exclusive hinside (inside_of_runsSales hsales)
          exact absurd (hsales.symm.trans hbefore) nofun
        have hholder : salesHolder ⟨lock, Function.update l.server.handlers action.thread h,
            l.server.events ++ new⟩ = some action.thread := by
          rw [salesHolder_eq_some_iff hafter]
          dsimp only
          rw [Function.update_self, hrun]
        rw [hholder]
        unfold machine Sink.step
        dsimp only
        rw [hl.idle action.thread hbefore, hnone]
        rfl
    | true =>
      refine Or.inr (Or.inr ?_)
      have hrun := Advance.ends hadvance hbefore
      have hheld : salesHolder l.server = some action.thread := (salesHolder_eq_some_iff hl.locked).mpr hbefore
      have hholder : salesHolder ⟨lock, Function.update l.server.handlers action.thread h,
          l.server.events ++ new⟩ = none := by
        refine salesHolder_eq_none hafter fun t' => ?_
        dsimp only
        by_cases ht : t' = action.thread
        · rw [ht, Function.update_self, hrun]
        · rw [hframe t' ht]
          by_contra hsales
          have hsales := Bool.eq_true_of_not_eq_false hsales
          exact ht (hl.locked.exclusive (inside_of_runsSales hsales) (inside_of_runsSales hbefore))
      rw [hholder, hrun]
      unfold machine Sink.step
      dsimp only
      rw [if_pos hheld]
      rfl

theorem machine_drive (t : Nat) :
    (step k l (.drive t)).machine = l.machine ∨ (step k l (.drive t)).machine = k.step l.machine (.step t) := by
  unfold step
  dsimp only
  split
  · exact Or.inr rfl
  · exact Or.inl rfl

theorem Coupled.drive (hl : Coupled l) (t : Nat) : Coupled (step k l (.drive t)) := by
  unfold step
  dsimp only
  split
  · rename_i hsales
    refine ⟨hl.locked, fun t' hidle => ?_⟩
    have ht : t' ≠ t := by
      rintro rfl
      exact absurd (hsales.symm.trans hidle) nofun
    exact (Function.update_of_ne ht _ _).trans (hl.idle t' hidle)
  · exact hl

theorem Coupled.step (hl : Coupled l) (action : LabAction O I P) : Coupled (Lab.step k l action) := by
  cases action with
  | serve action => exact hl.serve action
  | drive t => exact hl.drive t
  | stage staging => exact ⟨hl.locked, hl.idle⟩

/-- A step of the lab is a step of the runs of the job, or none. -/
theorem machine_step (hl : Coupled l) (action : LabAction O I P) :
    (Lab.step k l action).machine = l.machine ∨
      ∃ a : Sales.Jobs.Action O I P, a.ByGateway ∧ (Lab.step k l action).machine = k.step l.machine a := by
  cases action with
  | serve action =>
    rcases machine_serve hl action with he | he | he
    · exact Or.inl he
    · exact Or.inr ⟨.launch action.thread .gateway, rfl, he⟩
    · exact Or.inr ⟨.stop action.thread, trivial, he⟩
  | drive t =>
    rcases machine_drive (k := k) (l := l) t with he | he
    · exact Or.inl he
    · exact Or.inr ⟨.step t, trivial, he⟩
  | stage staging => exact Or.inr ⟨.stage staging, trivial, rfl⟩

end Serve

/-! ## A run -/

omit [DecidableEq Row] in
theorem coupled_initial (staging : Reads O I P) : Coupled (initial staging : Lab O I P Row) :=
  ⟨Server.locked_run [], fun _ _ => rfl⟩

/-- **Every interleaving of requests and drivers is a run of the job in which the gateway starts
everything.** -/
theorem lab_refines (staging : Reads O I P) (actions : List (LabAction O I P)) :
    Coupled (run k staging actions) ∧ ∃ done : List (Sales.Jobs.Action O I P),
      (∀ a ∈ done, a.ByGateway) ∧ (run k staging actions).machine = k.run staging done := by
  induction actions using List.reverseRecOn with
  | nil => exact ⟨coupled_initial staging, [], fun _ h => absurd h List.not_mem_nil, rfl⟩
  | append_singleton actions action ih =>
    obtain ⟨hl, done, hgateway, hmachine⟩ := ih
    have hrun : run k staging (actions ++ [action]) = step k (run k staging actions) action := by
      unfold run
      rw [List.foldl_append]
      rfl
    rw [hrun]
    refine ⟨hl.step action, ?_⟩
    rcases machine_step hl action with he | ⟨a, ha, he⟩
    · exact ⟨done, hgateway, he.trans hmachine⟩
    · refine ⟨done ++ [a], fun b hb => ?_, ?_⟩
      · rcases List.mem_append.mp hb with hb | hb
        · exact hgateway b hb
        · rw [List.mem_singleton.mp hb]
          exact ha
      · rw [he, hmachine, run_append]

/-- **Whatever is requested of the gateway, and however its processes end, the table keeps one row for
each `order_item_id`**, and a run that found it empty finds it so until it appends. -/
theorem lab_table (k : Sink O I P Row) (staging : Reads O I P) (actions : List (LabAction O I P)) :
    UniqueOn k.order_item_id (run k staging actions).table ∧
      ∀ t, ((run k staging actions).drivers t).table_is_empty = some true →
        (run k staging actions).table = [] := by
  obtain ⟨-, done, hgateway, hmachine⟩ := lab_refines (k := k) staging actions
  obtain ⟨hserialized, hunique⟩ := gateway_append_empty k staging done hgateway
  rw [← hmachine] at hserialized hunique
  exact ⟨hunique, hserialized.empty⟩

end Lab

end LocalDataPlatform.Gateway
