import Mathlib
import LocalDataPlatform.Stream.Views

/-!
# Replayed and half-committed batches converge

A micro-batch is attempted until it completes.  An attempt that fails stops after some of its
three table commits, and the batch is attempted again over the same offsets; a batch whose commits
all went through may still be attempted again, because its checkpoint was not yet written.

* `Attempt` — one call of `merge_batch`, with the number of commits it got to.
* `committedEvents`, `committedDeadLetters` — what the attempts that reached a commit brought to
  it, as sets.
* `eventView`, `currentView`, `deadLetterView` — the columns that do not depend on when a record
  was processed.

Principal results: `runAttempts_progress` (each table describes what was committed to it, over any
run of attempts), `positionText_injective` (the hashed text names the Kafka position),
`replay_converges` (once every batch has completed, the tables are those of a run that processed
each batch exactly once).
-/

set_option autoImplicit false

namespace LocalDataPlatform.Stream

open Relational

/-! ## The hashed text names the Kafka position -/

theorem split_at_first {α : Type} {c : α} : ∀ {xs ys zs ws : List α}, c ∉ xs → c ∉ ys →
    xs ++ c :: zs = ys ++ c :: ws → xs = ys ∧ zs = ws
  | [], [], _, _, _, _, h => ⟨rfl, List.tail_eq_of_cons_eq h⟩
  | [], y :: ys, _, _, _, hy, h =>
    absurd (List.head_eq_of_cons_eq h) (fun e => hy (e ▸ List.mem_cons_self))
  | x :: xs, [], _, _, hx, _, h =>
    absurd (List.head_eq_of_cons_eq h) (fun e => hx (e ▸ List.mem_cons_self))
  | x :: xs, y :: ys, zs, ws, hx, hy, h => by
    obtain ⟨hxs, hzs⟩ := split_at_first (fun hm => hx (List.mem_cons_of_mem _ hm))
      (fun hm => hy (List.mem_cons_of_mem _ hm)) (List.tail_eq_of_cons_eq h)
    exact ⟨by rw [List.head_eq_of_cons_eq h, hxs], hzs⟩

theorem colon_notMem_toDigits (m : Nat) : ':' ∉ Nat.toDigits 10 m := by
  intro h
  have hdigit := Nat.isDigit_of_mem_toDigits (by decide) (by decide) h
  exact absurd hdigit (by decide)

theorem colon_notMem_toString (n : Int) : ':' ∉ (toString n).toList := by
  rw [show toString n = n.repr from rfl, Int.repr_eq_if]
  split
  · simpa using colon_notMem_toDigits n.toNat
  · simpa using colon_notMem_toDigits (-n).toNat

/-- **Different positions have different texts.**  The text is read from the right, so a colon in
a topic name does no harm. -/
theorem positionText_injective : Function.Injective positionText := by
  intro c c' h
  have hl := congrArg (fun s => s.toList.reverse) h
  simp only [positionText, String.toList_append, List.reverse_append, String.reduceToList, List.reverse_cons,
    List.reverse_nil, List.nil_append, List.cons_append] at hl
  obtain ⟨ho, hl⟩ := split_at_first (by simpa using colon_notMem_toString c.offset)
    (by simpa using colon_notMem_toString c'.offset) hl
  obtain ⟨hp, ht⟩ := split_at_first (by simpa using colon_notMem_toString c.partition)
    (by simpa using colon_notMem_toString c'.partition) hl
  have inj : ∀ {a b : Int}, (toString a).toList.reverse = (toString b).toList.reverse → a = b :=
    fun hab => Int.repr_injective (String.toList_injective (List.reverse_injective hab))
  have htopic := String.toList_injective (List.reverse_injective ht)
  obtain ⟨topic, partition, offset⟩ := c
  obtain ⟨topic', partition', offset'⟩ := c'
  rw [Coord.mk.injEq]
  exact ⟨htopic, inj hp, inj ho⟩

/-- The hash tells the positions of a log apart. -/
def CollisionFree (sp : Spark) (log : List KafkaRecord) : Prop :=
  ∀ r ∈ log, ∀ r' ∈ log, sp.sha256 (positionText r.coord) = sp.sha256 (positionText r'.coord) →
    positionText r.coord = positionText r'.coord

theorem CollisionFree.coord_eq {sp : Spark} {log : List KafkaRecord} {r r' : KafkaRecord}
    (h : CollisionFree sp log) (hr : r ∈ log) (hr' : r' ∈ log)
    (hid : deadLetterId sp r.coord = deadLetterId sp r'.coord) : r.coord = r'.coord :=
  positionText_injective (h r hr r' hr' hid)

/-! ## Attempts -/

/-- One attempt at a micro-batch. -/
structure Attempt where
  records : List KafkaRecord
  execution : Execution
  now : Instant
  /-- The table commits made before a failure; `none` when the attempt completed. -/
  stoppedAfter : Option Nat

def Attempt.batch (sp : Spark) (a : Attempt) : List ParsedEvent :=
  parseKafkaEvents sp a.now a.records

/-- The effect of one attempt. -/
def Attempt.run (sp : Spark) (t : Tables) (a : Attempt) : Tables :=
  match a.stoppedAfter with
  | none => mergeBatch sp a.execution (a.batch sp) t
  | some n => ((batchCommits sp a.execution (a.batch sp)).take n).foldl (fun t commit => commit t) t

/-- Attempts, one after another. -/
def runAttempts (sp : Spark) (t : Tables) (attempts : List Attempt) : Tables :=
  attempts.foldl (Attempt.run sp) t

/-- Whether the attempt got through its `i`-th commit. -/
def Attempt.committed (a : Attempt) (i : Nat) : Prop := ∀ n ∈ a.stoppedAfter, i < n

/-- The accepted events that the attempts brought to their `i`-th commit. -/
def committedEvents (sp : Spark) (i : Nat) (attempts : List Attempt) : Set OrderEvent :=
  {e | ∃ a ∈ attempts, a.committed i ∧ e ∈ eventsOf (a.batch sp)}

/-- The dead letters that the attempts committed. -/
def committedDeadLetters (sp : Spark) (attempts : List Attempt) : Set DeadLetter :=
  {d | ∃ a ∈ attempts, a.committed 2 ∧ d ∈ invalid sp (a.batch sp)}

/-- Each table describes what was committed to it. -/
structure Progress (sp : Spark) (attempts : List Attempt) (t : Tables) : Prop where
  orderEvents : OnePerKey OrderEvent.eventId (committedEvents sp 0 attempts) t.orderEvents
  currentOrders : LatestOrders (committedEvents sp 1 attempts) t.currentOrders
  deadLetters : OnePerKey DeadLetter.deadLetterId (committedDeadLetters sp attempts)
    t.deadLetterEvents

section Step

variable {sp : Spark} {a : Attempt} {t : Tables}

/-- **The tables after an attempt**: the commits it got to, whichever they were. -/
theorem run_cases (sp : Spark) (t : Tables) (a : Attempt) :
    (a.committed 0 ∧
        (a.run sp t).orderEvents =
          insertNew OrderEvent.eventId t.orderEvents (valid a.execution .orderEvents (a.batch sp)) ∨
      ¬ a.committed 0 ∧ (a.run sp t).orderEvents = t.orderEvents) ∧
    (a.committed 1 ∧
        (a.run sp t).currentOrders = mergeInto CurrentOrder.orderId notOlder t.currentOrders
          (currentUpdates a.execution (a.batch sp)) ∨
      ¬ a.committed 1 ∧ (a.run sp t).currentOrders = t.currentOrders) ∧
    (a.committed 2 ∧
        (a.run sp t).deadLetterEvents =
          insertNew DeadLetter.deadLetterId t.deadLetterEvents (invalid sp (a.batch sp)) ∨
      ¬ a.committed 2 ∧ (a.run sp t).deadLetterEvents = t.deadLetterEvents) := by
  unfold Attempt.run Attempt.committed
  rcases a.stoppedAfter with _ | _ | _ | _ | n
  · simp [mergeBatch_orderEvents, mergeBatch_currentOrders, mergeBatch_deadLetterEvents]
  · simp
  · simp [batchCommits, commitOrderEvents_eq]
  · simp [batchCommits, commitOrderEvents_eq, commitCurrentOrders_eq]
  · simp [batchCommits, commitOrderEvents_eq, commitCurrentOrders_eq, commitDeadLetters_eq]

theorem committedEvents_append {i : Nat} {attempts : List Attempt} :
    committedEvents sp i (attempts ++ [a]) =
      committedEvents sp i attempts ∪ {e | a.committed i ∧ e ∈ eventsOf (a.batch sp)} := by
  ext e
  simp only [committedEvents, List.mem_append, List.mem_singleton, Set.mem_union,
    Set.mem_ofPred_eq, or_and_right, exists_or, exists_eq_left]

theorem committedDeadLetters_append {attempts : List Attempt} :
    committedDeadLetters sp (attempts ++ [a]) =
      committedDeadLetters sp attempts ∪ {d | a.committed 2 ∧ d ∈ invalid sp (a.batch sp)} := by
  ext d
  simp only [committedDeadLetters, List.mem_append, List.mem_singleton, Set.mem_union,
    Set.mem_ofPred_eq, or_and_right, exists_or, exists_eq_left]

theorem eq_empty_of_not {α : Type} {p : Prop} {q : α → Prop} (hp : ¬ p) : {x | p ∧ q x} = (∅ : Set α) :=
  Set.eq_empty_iff_forall_notMem.mpr (fun _ h => hp h.1)

theorem eq_of_true {α : Type} {p : Prop} {q : α → Prop} (hp : p) : {x | p ∧ q x} = {x | q x} :=
  Set.ext (fun _ => ⟨And.right, fun h => ⟨hp, h⟩⟩)

/-- **One attempt adds what it committed** to what the tables describe. -/
theorem Progress.run {attempts : List Attempt} (h : Progress sp attempts t)
    (hid : EventIdentity (eventsOf (a.batch sp)))
    (hdl : UniqueOn DeadLetter.deadLetterId (invalid sp (a.batch sp))) :
    Progress sp (attempts ++ [a]) (a.run sp t) := by
  obtain ⟨hevents, horders, hletters⟩ := run_cases sp t a
  refine ⟨?_, ?_, ?_⟩
  · rw [committedEvents_append]
    rcases hevents with ⟨hc, he⟩ | ⟨hc, he⟩
    · rw [he, eq_of_true hc]
      exact h.orderEvents.insertNew valid_onePerKey
    · rw [he, eq_empty_of_not hc, Set.union_empty]
      exact h.orderEvents
  · rw [committedEvents_append]
    rcases horders with ⟨hc, he⟩ | ⟨hc, he⟩
    · rw [he, eq_of_true hc]
      exact h.currentOrders.merge (currentUpdates_latest hid)
    · rw [he, eq_empty_of_not hc, Set.union_empty]
      exact h.currentOrders
  · rw [committedDeadLetters_append]
    rcases hletters with ⟨hc, he⟩ | ⟨hc, he⟩
    · rw [he, eq_of_true hc]
      exact h.deadLetters.insertNew ⟨hdl, fun _ hr => hr, fun d hd => ⟨d, hd, rfl⟩⟩
    · rw [he, eq_empty_of_not hc, Set.union_empty]
      exact h.deadLetters

theorem Progress.empty : Progress sp [] Tables.empty where
  orderEvents := by
    rw [show committedEvents sp 0 [] = ∅ from Set.eq_empty_iff_forall_notMem.mpr (by simp [committedEvents])]
    exact OnePerKey.nil
  currentOrders := by
    rw [show committedEvents sp 1 [] = ∅ from Set.eq_empty_iff_forall_notMem.mpr (by simp [committedEvents])]
    exact LatestOrders.empty
  deadLetters := by
    rw [show committedDeadLetters sp [] = ∅ from
      Set.eq_empty_iff_forall_notMem.mpr (by simp [committedDeadLetters])]
    exact OnePerKey.nil

end Step

/-- **Over any run of attempts each table describes what was committed to it.** -/
theorem runAttempts_progress {sp : Spark} : ∀ (attempts done : List Attempt) (t : Tables),
    Progress sp done t →
    (∀ a ∈ attempts, EventIdentity (eventsOf (a.batch sp)) ∧
      UniqueOn DeadLetter.deadLetterId (invalid sp (a.batch sp))) →
    Progress sp (done ++ attempts) (runAttempts sp t attempts)
  | [], done, t, h, _ => by
    rw [List.append_nil]
    exact h
  | a :: attempts, done, t, h, hok => by
    obtain ⟨hid, hdl⟩ := hok a List.mem_cons_self
    have hrest := runAttempts_progress attempts (done ++ [a]) (a.run sp t) (h.run hid hdl)
      (fun b hb => hok b (List.mem_cons_of_mem _ hb))
    rwa [List.append_assoc] at hrest

/-! ## What a record brings does not depend on the attempt -/

/-- The record is accepted, as the event `e` up to its ingestion time. -/
def Carries (sp : Spark) (r : KafkaRecord) (e : OrderEvent) : Prop :=
  ∃ now, (parseKafkaEvent sp now r).isValid = some true ∧ (parseKafkaEvent sp now r).orderEvent = some e

/-- The accepted events of a log. -/
def logEvents (sp : Spark) (log : List KafkaRecord) : Set OrderEvent := {e | ∃ r ∈ log, Carries sp r e}

/-- The records of a log that carry an event id. -/
def carriers (sp : Spark) (log : List KafkaRecord) (eventId : String) : List KafkaRecord :=
  log.filter (fun r => decide ((parseKafkaEvent sp 0 r).isValid = some true ∧
    (parseKafkaEvent sp 0 r).eventId = some eventId))

/-- A row of `order_events` without the columns that depend on when and how often it was sent:
the ingestion and production times, and the Kafka position when several records carry the id. -/
structure EventView where
  eventId : String
  eventType : String
  schemaVersion : Int
  occurredAt : Option Instant
  order : OrderFacts
  messageKey : Option String
  position : Option (Coord × Instant)

def eventView (sp : Spark) (log : List KafkaRecord) (e : OrderEvent) : EventView where
  eventId := e.eventId
  eventType := e.eventType
  schemaVersion := e.schemaVersion
  occurredAt := e.occurredAt
  order := e.order
  messageKey := e.messageKey
  position := if (carriers sp log e.eventId).length = 1 then some (e.coord, e.kafkaTimestamp) else none

/-- A row of `current_orders` without `updated_at`. -/
def currentView (c : CurrentOrder) : OrderFacts × String := (c.order, c.latestEventId)

/-- A row of `dead_letter_events` without `ingested_at`. -/
def deadLetterView (d : DeadLetter) : String × Option String × String × Coord × Instant :=
  (d.deadLetterId, d.rawValue, d.errorReason, d.coord, d.kafkaTimestamp)

/-- The producer's identity: besides the order data, `event_id` determines the occurrence time and
the message key, which the producer takes from the order as well. -/
structure ProducerIdentity (S : Set OrderEvent) : Prop extends EventIdentity S where
  envelope : ∀ a ∈ S, ∀ b ∈ S, a.eventId = b.eventId →
    a.occurredAt = b.occurredAt ∧ a.messageKey = b.messageKey

section Record

variable {sp : Spark} {log : List KafkaRecord} {r : KafkaRecord} {e e' : OrderEvent}

theorem orderEvent_at {p : ParsedEvent} {now : Instant} :
    ({ p with ingestedAt := now } : ParsedEvent).orderEvent =
      p.orderEvent.map (fun v => { v with ingestedAt := now }) := by
  obtain ⟨_, _, _, _, eventId, eventType, schemaVersion, _, _, orderId, _, _, _, _, updatedAt, _⟩ := p
  cases eventId <;> cases eventType <;> cases schemaVersion <;> cases orderId <;>
    cases updatedAt <;> rfl

theorem Carries.at (h : Carries sp r e) (now : Instant) :
    (parseKafkaEvent sp now r).isValid = some true ∧
      (parseKafkaEvent sp now r).orderEvent = some { e with ingestedAt := now } := by
  obtain ⟨now₀, hv, he⟩ := h
  refine ⟨hv, ?_⟩
  have hat : (parseKafkaEvent sp now r).orderEvent =
      ((parseKafkaEvent sp now₀ r).orderEvent).map (fun v => { v with ingestedAt := now }) :=
    orderEvent_at (p := parseKafkaEvent sp now₀ r)
  rw [hat, he]
  rfl

/-- Two readings of one record differ in the ingestion time only. -/
theorem Carries.eq (h : Carries sp r e) (h' : Carries sp r e') :
    e' = { e with ingestedAt := e'.ingestedAt } := by
  obtain ⟨now, -, he'⟩ := h'
  have hat := (h.at now).2
  rw [he'] at hat
  cases hat
  rfl

theorem Carries.supported (h : Carries sp r e) :
    e.eventType = EVENT_TYPE ∧ e.schemaVersion = SCHEMA_VERSION := by
  obtain ⟨now, hv, he⟩ := h
  obtain ⟨-, hty, hsv, -, -⟩ := isValid_eq_true.mp hv
  unfold ParsedEvent.orderEvent at he
  split at he
  · rename_i hty' hsv' _ _
    cases he
    exact ⟨Option.some.inj (hty'.symm.trans hty), Option.some.inj (hsv'.symm.trans hsv)⟩
  · cases he

theorem Carries.mem_carriers (h : Carries sp r e) (hr : r ∈ log) : r ∈ carriers sp log e.eventId := by
  obtain ⟨hv, he⟩ := h.at 0
  refine List.mem_filter.mpr ⟨hr, decide_eq_true ⟨hv, ?_⟩⟩
  exact eventId_orderEvent (v := { e with ingestedAt := 0 }) he

/-- **The event id determines every column that a table view keeps.** -/
theorem eventView_eq (hid : ProducerIdentity (logEvents sp log)) (h : e ∈ logEvents sp log)
    (h' : e' ∈ logEvents sp log) (hk : e.eventId = e'.eventId) :
    eventView sp log e = eventView sp log e' := by
  have henv := hid.envelope e h e' h' hk
  have hdata := hid.data e h e' h' hk
  obtain ⟨r, hr, hc⟩ := h
  obtain ⟨r', hr', hc'⟩ := h'
  have hs := hc.supported
  have hs' := hc'.supported
  have hpos : (carriers sp log e.eventId).length = 1 →
      (e.coord, e.kafkaTimestamp) = (e'.coord, e'.kafkaTimestamp) := by
    intro hone
    obtain ⟨x, hx⟩ := List.length_eq_one_iff.mp hone
    have hrx := hc.mem_carriers hr
    have hrx' := hc'.mem_carriers hr'
    rw [← hk] at hrx'
    rw [hx, List.mem_singleton] at hrx hrx'
    rw [hrx] at hc
    rw [hrx'] at hc'
    rw [hc.eq hc']
  unfold eventView
  rw [← hk]
  split
  · rename_i hone
    simp only [hs, hs', henv, hdata, hpos hone]
  · simp only [hs, hs', henv, hdata]

end Record

/-- **Two tables of latest orders agree when their events are below each other.** -/
theorem LatestOrders.perm_map {S T U : Set OrderEvent} {rows rows' : List CurrentOrder}
    (h : LatestOrders S rows) (h' : LatestOrders T rows') (hS : S ⊆ U) (hT : T ⊆ U)
    (hid : EventIdentity U) (hST : Below S T) (hTS : Below T S) :
    (rows.map currentView).Perm (rows'.map currentView) := by
  have hview : ∀ (o : String) (rows : List CurrentOrder),
      lookup (fun v : OrderFacts × String => v.1.orderId) (rows.map currentView) o =
        (lookup CurrentOrder.orderId rows o).map currentView := fun _ _ => lookup_map (fun _ => rfl)
  have hunique : ∀ rows : List CurrentOrder, UniqueOn CurrentOrder.orderId rows →
      UniqueOn (fun v : OrderFacts × String => v.1.orderId) (rows.map currentView) :=
    fun _ hu => hu.map_proj (fun _ => rfl)
  refine perm_of_lookup_eq (hunique rows h.unique) (hunique rows' h'.unique) fun o => ?_
  rw [hview, hview]
  have hrow := h.row o
  have hrow' := h'.row o
  cases hl : lookup CurrentOrder.orderId rows o with
  | none =>
    rw [hl] at hrow
    have hempty := hTS.ofOrder_empty hrow
    cases hl' : lookup CurrentOrder.orderId rows' o with
    | none => rfl
    | some row' =>
      rw [hl'] at hrow'
      obtain ⟨b, hb, -, -⟩ := hrow'
      exact absurd hb.mem (Set.eq_empty_iff_forall_notMem.mp hempty b)
  | some row =>
    rw [hl] at hrow
    obtain ⟨a, ha, hdata, hlatest⟩ := hrow
    cases hl' : lookup CurrentOrder.orderId rows' o with
    | none =>
      rw [hl'] at hrow'
      have hempty := hST.ofOrder_empty hrow'
      exact absurd ha.mem (Set.eq_empty_iff_forall_notMem.mp hempty a)
    | some row' =>
      rw [hl'] at hrow'
      obtain ⟨b, hb, hdata', hlatest'⟩ := hrow'
      obtain ⟨hab, hfacts⟩ := latest_eq hid hS hT hST hTS ha hb
      simp only [Option.map_some, currentView, hdata, hdata', hlatest, hlatest', hfacts, hab]

/-! ## Runs that complete every batch -/

/-- Every attempt is at a piece of the log, and every record is in a completed attempt. -/
structure Completes (log : List KafkaRecord) (attempts : List Attempt) : Prop where
  sub : ∀ a ∈ attempts, a.records.Sublist log
  all : ∀ r ∈ log, ∃ a ∈ attempts, r ∈ a.records ∧ a.stoppedAfter = none

section Run

variable {sp : Spark} {log : List KafkaRecord} {attempts : List Attempt}

/-- Attempts that complete every batch of a log complete the log. -/
theorem completes_of_batches {batches : List (List KafkaRecord)} (hcut : batches.flatten = log)
    (hattempts : ∀ a ∈ attempts, a.records ∈ batches)
    (hdone : ∀ b ∈ batches, ∃ a ∈ attempts, a.records = b ∧ a.stoppedAfter = none) :
    Completes log attempts := by
  refine ⟨fun a ha => hcut ▸ List.sublist_flatten_of_mem (hattempts a ha), fun r hr => ?_⟩
  rw [← hcut] at hr
  obtain ⟨b, hb, hrb⟩ := List.mem_flatten.mp hr
  obtain ⟨a, ha, rfl, hn⟩ := hdone b hb
  exact ⟨a, ha, hrb, hn⟩

theorem mem_eventsOf_batch {a : Attempt} {e : OrderEvent} :
    e ∈ eventsOf (a.batch sp) ↔ ∃ r ∈ a.records,
      (parseKafkaEvent sp a.now r).isValid = some true ∧
        (parseKafkaEvent sp a.now r).orderEvent = some e := by
  unfold eventsOf Attempt.batch parseKafkaEvents
  rw [Set.mem_ofPred_eq, mem_accepted]
  simp only [List.mem_map, exists_exists_and_eq_and]

theorem committedEvents_subset (sp : Spark) (hsub : ∀ a ∈ attempts, a.records.Sublist log) (i : Nat) :
    committedEvents sp i attempts ⊆ logEvents sp log := by
  rintro e ⟨a, ha, -, he⟩
  obtain ⟨r, hr, hv, hrow⟩ := mem_eventsOf_batch.mp he
  exact ⟨r, (hsub a ha).subset hr, a.now, hv, hrow⟩

/-- A run that completes every batch commits every accepted event of the log. -/
theorem exists_committedEvent (h : Completes log attempts) (i : Nat) {e : OrderEvent}
    (he : e ∈ logEvents sp log) : ∃ e' ∈ committedEvents sp i attempts, e'.eventId = e.eventId := by
  obtain ⟨r, hr, hc⟩ := he
  obtain ⟨a, ha, hra, hdone⟩ := h.all r hr
  obtain ⟨hv, hrow⟩ := hc.at a.now
  refine ⟨_, ⟨a, ha, ?_, mem_eventsOf_batch.mpr ⟨r, hra, hv, hrow⟩⟩, rfl⟩
  intro n hn
  rw [hdone] at hn
  cases hn

/-- The rejected records of a log, as dead letters read at time `now`. -/
def logDeadLetters (sp : Spark) (now : Instant) (log : List KafkaRecord) : List DeadLetter :=
  invalid sp (parseKafkaEvents sp now log)

theorem mem_logDeadLetters {now : Instant} {d : DeadLetter} :
    d ∈ logDeadLetters sp now log ↔ ∃ r ∈ log, (parseKafkaEvent sp 0 r).isValid = some false ∧
      deadLetter sp (parseKafkaEvent sp now r) = d := by
  unfold logDeadLetters parseKafkaEvents
  rw [mem_invalid]
  simp only [List.mem_map, exists_exists_and_eq_and]
  rfl

theorem logDeadLetters_unique (hsha : CollisionFree sp log) (hcoord : (log.map (·.coord)).Nodup)
    {records : List KafkaRecord} (hsub : records.Sublist log) (now : Instant) :
    UniqueOn DeadLetter.deadLetterId (logDeadLetters sp now records) := by
  have hlog : UniqueOn (fun e : ParsedEvent => deadLetterId sp e.coord)
      (parseKafkaEvents sp now records) := by
    unfold UniqueOn parseKafkaEvents
    rw [List.map_map]
    refine List.Nodup.map_on ?_ (List.Nodup.of_map _ hcoord |>.sublist hsub)
    intro r hr r' hr' hid
    have hc := hsha.coord_eq (hsub.subset hr) (hsub.subset hr') hid
    exact List.inj_on_of_nodup_map hcoord (hsub.subset hr) (hsub.subset hr') hc
  exact (hlog.sublist List.filter_sublist).map_proj (fun _ => rfl)

/-- **The dead letters of a completed run are the rejected records of the log.** -/
theorem deadLetters_perm (h : Completes log attempts) (hsha : CollisionFree sp log)
    (hcoord : (log.map (·.coord)).Nodup) {rows : List DeadLetter}
    (hrows : OnePerKey DeadLetter.deadLetterId (committedDeadLetters sp attempts) rows) :
    (rows.map deadLetterView).Perm ((logDeadLetters sp 0 log).map deadLetterView) := by
  have hlog : OnePerKey DeadLetter.deadLetterId {d | d ∈ logDeadLetters sp 0 log}
      (logDeadLetters sp 0 log) :=
    ⟨logDeadLetters_unique hsha hcoord (List.Sublist.refl _) 0, fun _ hd => hd, fun d hd => ⟨d, hd, rfl⟩⟩
  -- a committed dead letter is a rejected record of the log, read by some attempt
  have hrecord : ∀ d ∈ committedDeadLetters sp attempts, ∃ r ∈ log, ∃ now,
      (parseKafkaEvent sp 0 r).isValid = some false ∧ deadLetter sp (parseKafkaEvent sp now r) = d := by
    rintro d ⟨a, ha, -, hd⟩
    obtain ⟨r, hr, hv, hd⟩ := mem_logDeadLetters.mp hd
    exact ⟨r, (h.sub a ha).subset hr, a.now, hv, hd⟩
  have hview : ∀ d : DeadLetter, (deadLetterView d).1 = d.deadLetterId := fun _ => rfl
  refine hrows.perm_map hlog hview (fun id => ?_) ?_
  · constructor
    · rintro ⟨d, hd, rfl⟩
      obtain ⟨r, hr, now, hv, rfl⟩ := hrecord d hd
      exact ⟨_, mem_logDeadLetters.mpr ⟨r, hr, hv, rfl⟩, rfl⟩
    · rintro ⟨d, hd, rfl⟩
      obtain ⟨r, hr, hv, rfl⟩ := mem_logDeadLetters.mp hd
      obtain ⟨a, ha, hra, hdone⟩ := h.all r hr
      refine ⟨_, ⟨a, ha, ?_, mem_logDeadLetters.mpr ⟨r, hra, hv, rfl⟩⟩, rfl⟩
      intro n hn
      rw [hdone] at hn
      cases hn
  · intro d hd d' hd' hk
    obtain ⟨r, hr, now, -, rfl⟩ := hrecord d hd
    obtain ⟨r', hr', -, rfl⟩ := mem_logDeadLetters.mp hd'
    have hc : r.coord = r'.coord := hsha.coord_eq hr hr' hk
    rw [List.inj_on_of_nodup_map hcoord hr hr' hc]
    rfl

/-- The tables of a run that completes every batch. -/
theorem Completes.progress (h : Completes log attempts) (hsha : CollisionFree sp log)
    (hcoord : (log.map (·.coord)).Nodup) (hid : EventIdentity (logEvents sp log)) :
    Progress sp attempts (runAttempts sp Tables.empty attempts) := by
  refine runAttempts_progress attempts [] Tables.empty Progress.empty fun a ha => ⟨?_, ?_⟩
  · refine hid.mono fun e he => ?_
    obtain ⟨r, hr, hv, hrow⟩ := mem_eventsOf_batch.mp he
    exact ⟨r, (h.sub a ha).subset hr, a.now, hv, hrow⟩
  · exact logDeadLetters_unique hsha hcoord (h.sub a ha) a.now

end Run

/-- **Replay converges.**  Whatever attempts were made at the batches of a log, and wherever the
failed ones stopped, once every batch has completed the tables are those of a run that processed
each batch exactly once. -/
theorem replay_converges (sp : Spark) (log : List KafkaRecord) (batches : List (List KafkaRecord))
    (attempts once : List Attempt) (hcut : batches.flatten = log)
    (hcoord : (log.map (·.coord)).Nodup) (hsha : CollisionFree sp log)
    (hid : ProducerIdentity (logEvents sp log))
    (hattempts : ∀ a ∈ attempts, a.records ∈ batches)
    (hdone : ∀ b ∈ batches, ∃ a ∈ attempts, a.records = b ∧ a.stoppedAfter = none)
    (honce : once.map (·.records) = batches) (hfull : ∀ a ∈ once, a.stoppedAfter = none) :
    ((runAttempts sp Tables.empty attempts).orderEvents.map (eventView sp log)).Perm
        ((runAttempts sp Tables.empty once).orderEvents.map (eventView sp log)) ∧
      ((runAttempts sp Tables.empty attempts).currentOrders.map currentView).Perm
        ((runAttempts sp Tables.empty once).currentOrders.map currentView) ∧
      ((runAttempts sp Tables.empty attempts).deadLetterEvents.map deadLetterView).Perm
        ((runAttempts sp Tables.empty once).deadLetterEvents.map deadLetterView) ∧
      UniqueOn OrderEvent.eventId (runAttempts sp Tables.empty attempts).orderEvents ∧
      (∀ id, (∃ row ∈ (runAttempts sp Tables.empty attempts).orderEvents, row.eventId = id) ↔
        ∃ e ∈ logEvents sp log, e.eventId = id) ∧
      ((runAttempts sp Tables.empty attempts).deadLetterEvents.map deadLetterView).Perm
        ((logDeadLetters sp 0 log).map deadLetterView) := by
  have hrun : Completes log attempts := completes_of_batches hcut hattempts hdone
  have hsingle : Completes log once := by
    refine completes_of_batches hcut (fun a ha => honce ▸ List.mem_map_of_mem ha) fun b hb => ?_
    rw [← honce] at hb
    obtain ⟨a, ha, rfl⟩ := List.mem_map.mp hb
    exact ⟨a, ha, rfl, hfull a ha⟩
  have hp := hrun.progress hsha hcoord hid.toEventIdentity
  have hp' := hsingle.progress hsha hcoord hid.toEventIdentity
  have hsub := committedEvents_subset sp hrun.sub
  have hsub' := committedEvents_subset sp hsingle.sub
  have hdead := deadLetters_perm hrun hsha hcoord hp.deadLetters
  have hdead' := deadLetters_perm hsingle hsha hcoord hp'.deadLetters
  have hids : ∀ i, ∀ e ∈ committedEvents sp i attempts,
      ∃ e' ∈ committedEvents sp i once, e'.eventId = e.eventId :=
    fun i e he => exists_committedEvent hsingle i (hsub i he)
  have hids' : ∀ i, ∀ e ∈ committedEvents sp i once,
      ∃ e' ∈ committedEvents sp i attempts, e'.eventId = e.eventId :=
    fun i e he => exists_committedEvent hrun i (hsub' i he)
  refine ⟨?_, ?_, hdead.trans hdead'.symm, hp.orderEvents.unique, fun id => ?_, hdead⟩
  · have hview : ∀ e, (eventView sp log e).eventId = e.eventId := fun _ => rfl
    refine hp.orderEvents.perm_map hp'.orderEvents hview (fun id => ?_) ?_
    · constructor
      · rintro ⟨e, he, rfl⟩
        exact hids 0 e he
      · rintro ⟨e, he, rfl⟩
        exact hids' 0 e he
    · exact fun a ha b hb hk => eventView_eq hid (hsub 0 ha) (hsub' 0 hb) hk
  · exact hp.currentOrders.perm_map hp'.currentOrders (hsub 1) (hsub' 1) hid.toEventIdentity
      (Below.of_ids hid.toEventIdentity (hsub 1) (hsub' 1) (hids 1))
      (Below.of_ids hid.toEventIdentity (hsub' 1) (hsub 1) (hids' 1))
  · constructor
    · rintro ⟨row, hrow, rfl⟩
      exact ⟨row, hsub 0 (hp.orderEvents.sub row hrow), rfl⟩
    · rintro ⟨e, he, rfl⟩
      obtain ⟨e', he', hk⟩ := exists_committedEvent hrun 0 he
      obtain ⟨row, hrow, hk'⟩ := hp.orderEvents.cover e' he'
      exact ⟨row, hrow, hk'.trans hk⟩

/-! ## A batch that stops after its first commit -/

def typedText : String :=
  "\x7b\"event_id\":\"e1\",\"event_type\":\"order.upserted\",\"schema_version\":1," ++
    "\"data\":\x7b\"order_id\":\"o1\",\"source_updated_at\":" ++
    "\"2026-01-02T10:00:30+00:00\"\x7d\x7d"

def typedJson : Json :=
  .obj [("event_id", .str "e1"), ("event_type", .str "order.upserted"), ("schema_version", .num 1 0),
    ("data", .obj [("order_id", .str "o1"),
      ("source_updated_at", .str "2026-01-02T10:00:30+00:00")])]

def sparkOnTyped : Spark :=
  Spark.onTexts [(typedText, typedJson)] [("2026-01-02T10:00:30+00:00", 1767348030000000)]
    [("orders:0:0", "77ed311f169573c52a188b51f60d58b57cf7c1c26e8cfcbd18d8bb7376096994"),
      ("orders:0:1", "4b30467497e5206e0a6af671ba309355c0692217d40c7f050ff7afbaca42430d"),
      ("orders:0:2", "fe25adfed2b5d3fac580cc4836effd3d15700d342e7a39aa908495da4c3c9e0f")]

def recordAt (offset : Int) (text : String) : KafkaRecord where
  key := some (asciiBytes "o1")
  value := some (asciiBytes text)
  coord := ⟨"orders", 0, offset⟩
  timestamp := offset

/-- An event, a record that is not JSON, and the event sent again. -/
def replayedLog : List KafkaRecord := [recordAt 0 typedText, recordAt 1 "x", recordAt 2 typedText]

def attemptAt (now : Instant) (records : List KafkaRecord) (stoppedAfter : Option Nat) : Attempt :=
  ⟨records, Execution.inOrder, now, stoppedAfter⟩

/-- The first batch stops after `order_events`, completes, and is attempted once more. -/
def replayedAttempts : List Attempt :=
  [attemptAt 1 (replayedLog.take 2) (some 1), attemptAt 2 (replayedLog.take 2) none,
    attemptAt 3 (replayedLog.take 2) none, attemptAt 4 (replayedLog.drop 2) none]

/-- The identity of a log, checked on its events read at time 0. -/
theorem producerIdentity_of_forall {sp : Spark} {log : List KafkaRecord}
    (h : ∀ a ∈ accepted (parseKafkaEvents sp 0 log), ∀ b ∈ accepted (parseKafkaEvents sp 0 log),
      (a.eventId = b.eventId ↔ a.orderId = b.orderId ∧ a.sourceVersion = b.sourceVersion) ∧
        (a.eventId = b.eventId →
          a.order = b.order ∧ a.occurredAt = b.occurredAt ∧ a.messageKey = b.messageKey)) :
    ProducerIdentity (logEvents sp log) := by
  have hread : ∀ e ∈ logEvents sp log,
      ({ e with ingestedAt := 0 } : OrderEvent) ∈ accepted (parseKafkaEvents sp 0 log) := by
    rintro e ⟨r, hr, hc⟩
    obtain ⟨hv, hrow⟩ := hc.at 0
    exact mem_accepted.mpr ⟨_, List.mem_map_of_mem hr, hv, hrow⟩
  exact {
    version := fun a ha b hb => (h _ (hread a ha) _ (hread b hb)).1
    data := fun a ha b hb hk => ((h _ (hread a ha) _ (hread b hb)).2 hk).1
    envelope := fun a ha b hb hk => ((h _ (hread a ha) _ (hread b hb)).2 hk).2 }

set_option maxRecDepth 4000 in
theorem replay_converges_replayed :
    ((runAttempts sparkOnTyped Tables.empty replayedAttempts).deadLetterEvents.map
      deadLetterView).Perm ((logDeadLetters sparkOnTyped 0 replayedLog).map deadLetterView) := by
  have hall := replay_converges sparkOnTyped replayedLog [replayedLog.take 2, replayedLog.drop 2]
    replayedAttempts [attemptAt 5 (replayedLog.take 2) none, attemptAt 6 (replayedLog.drop 2) none]
    rfl (by decide) (by unfold CollisionFree; decide) (producerIdentity_of_forall (by decide))
    (by simp [replayedAttempts, attemptAt]) (by simp [replayedAttempts, attemptAt]) rfl
    (by simp [attemptAt])
  exact hall.2.2.2.2.2

end LocalDataPlatform.Stream
