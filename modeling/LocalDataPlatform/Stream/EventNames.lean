import LocalDataPlatform.Stream.Producer

/-!
# The names of events

The UUID of an event is made from a name, `{order_id}:{updated_at}`, whose second part is the text of a
datetime as the connection returns it: with the offset of the time zone of the session.

* `eventName` — the name under which an order version is published.
* `Publication` — an execution of the producer, with the time zone of its session.
* `NamesVersions` — two executions give two events one name exactly for one order version.
* `SameOffsets` — for the order versions that both publish, the sessions have the same offset from UTC.

Principal results: `eventName_inj` (what a name determines), `namesVersions_iff` (two executions name
versions alike exactly when their offsets agree), `namesVersions_of_same_zone`.
-/

set_option autoImplicit false

namespace LocalDataPlatform.Stream

open Text

/-- `f"{row['order_id']}:{row['updated_at'].isoformat()}"`. -/
def eventName (order_id : Uuid) (updated_at : Datetime) : String :=
  uuidText order_id ++ ":" ++ isoformatText updated_at

/-- An execution of the producer: its window, what it finds in staging, and the offset from UTC that the
time zone of its session has at an instant, in seconds. -/
structure Publication where
  window : Window
  limit : Option Nat
  rows : List StagingOrder
  offset : Instant → Int
  /-- A `timestamptz` comes back in the time zone of the session. -/
  aware : ∀ row ∈ rows, ∀ d ∈ row.updatedAt, d.utcoffset = offset d.instant

/-- The orders it publishes, each with its `updated_at`. -/
def Publication.events (p : Publication) : List (Uuid × Datetime) :=
  (selectOrders p.window p.limit p.rows).filterMap fun row => row.updatedAt.map fun d => (row.orderId, d)

/-- Two events have one name exactly if they are of one order version. -/
def NamesVersions (p q : Publication) : Prop :=
  ∀ e ∈ p.events, ∀ f ∈ q.events,
    eventName e.1 e.2 = eventName f.1 f.2 ↔ e.1 = f.1 ∧ e.2.instant = f.2.instant

/-- At the order versions that both publish, the time zones have the same offset. -/
def SameOffsets (p q : Publication) : Prop :=
  ∀ e ∈ p.events, ∀ f ∈ q.events, e.1 = f.1 → e.2.instant = f.2.instant →
    p.offset e.2.instant = q.offset e.2.instant

section Names

variable {uuid5 : String → Uuid} {id id' : Uuid} {d d' : Datetime} {p q : Publication}

/-- The identifier of an event is made from its name. -/
theorem eventId_eq : eventId uuid5 id d = uuid5 (eventName id d) := rfl

theorem isoformatText_injective : Function.Injective isoformatText := by
  intro d e h
  have hread : ∀ d : Datetime, readDatetime.readAll (isoformatText d).toList = some d := by
    intro d
    unfold isoformatText
    rw [String.toList_ofList]
    exact (reads_isoformat d).readAll stops_nil
  have hd := hread d
  rw [h, hread e] at hd
  exact (Option.some.inj hd).symm

theorem length_uuidText (u : Uuid) : (uuidText u).toList.length = 36 := by
  unfold uuidText
  rw [String.toList_ofList]
  simp only [List.length_append, List.length_take, List.length_drop, List.length_cons, List.length_nil,
    length_fixedDigits]
  omega

/-- **A name determines the order and the datetime, offset included.** -/
theorem eventName_inj : eventName id d = eventName id' d' ↔ id = id' ∧ d = d' := by
  constructor
  · intro h
    unfold eventName at h
    have hlist := congrArg String.toList h
    simp only [String.toList_append, List.append_assoc] at hlist
    have hlength : (uuidText id).toList.length = (uuidText id').toList.length := by
      rw [length_uuidText, length_uuidText]
    obtain ⟨hid, hrest⟩ := List.append_inj hlist hlength
    have htext := List.append_cancel_left hrest
    exact ⟨uuidText_injective (String.toList_inj.mp hid), isoformatText_injective (String.toList_inj.mp htext)⟩
  · rintro ⟨rfl, rfl⟩
    rfl

/-- What is published is in staging, in the time zone of the session. -/
theorem Publication.utcoffset_of_mem {e : Uuid × Datetime} (h : e ∈ p.events) :
    e.2.utcoffset = p.offset e.2.instant := by
  obtain ⟨row, hrow, he⟩ := List.mem_filterMap.mp h
  obtain ⟨d, hd, rfl⟩ := Option.map_eq_some_iff.mp he
  exact p.aware row (mem_selectOrders hrow).1 d hd

theorem SameOffsets.of_names (h : NamesVersions p q) : SameOffsets p q := by
  intro e he f hf hid hinstant
  obtain ⟨-, hsame⟩ := eventName_inj.mp ((h e he f hf).mpr ⟨hid, hinstant⟩)
  have hp := Publication.utcoffset_of_mem he
  have hq := Publication.utcoffset_of_mem hf
  rw [← hsame] at hq
  exact hp.symm.trans hq

theorem SameOffsets.names (h : SameOffsets p q) : NamesVersions p q := by
  intro e he f hf
  rw [eventName_inj]
  constructor
  · rintro ⟨hid, hsame⟩
    exact ⟨hid, by rw [hsame]⟩
  · rintro ⟨hid, hinstant⟩
    refine ⟨hid, Datetime.ext_instant hinstant ?_⟩
    rw [Publication.utcoffset_of_mem he, Publication.utcoffset_of_mem hf, ← hinstant]
    exact h e he f hf hid hinstant

/-- **Two executions name order versions alike exactly when their time zones agree on them.** -/
theorem namesVersions_iff (p q : Publication) : NamesVersions p q ↔ SameOffsets p q :=
  ⟨SameOffsets.of_names, SameOffsets.names⟩

/-- **In one time zone the name is that of the order version**, across changes of its offset. -/
theorem namesVersions_of_same_zone (h : p.offset = q.offset) : NamesVersions p q :=
  SameOffsets.names fun _ _ _ _ _ _ => by rw [h]

end Names

/-! ## One order version from two time zones -/

section Zones

/-- Midnight of 1970-01-01 in UTC. -/
def midnightUtc : Datetime := ⟨⟨1970, 1, 1, 0, 0, 0, 0, 0⟩, by decide⟩

/-- The same instant at an offset of seven hours. -/
def midnightIndochina : Datetime := ⟨⟨1970, 1, 1, 7, 0, 0, 0, 25200⟩, by decide⟩

/-- An execution that finds one order, in a time zone with one offset. -/
def publicationOf (updated_at : Datetime) : Publication where
  window := .candidate (-1) 0
  limit := none
  rows := [⟨1, none, some "pending", none, none, some updated_at⟩]
  offset := fun _ => updated_at.utcoffset
  aware row hrow d hd := by
    rw [List.mem_singleton.mp hrow] at hd
    cases hd
    rfl

/-- The version is named `..:1970-01-01T00:00:00+00:00` from one session and `..:1970-01-01T07:00:00+07:00`
from the other. -/
theorem names_differ : midnightUtc.instant = midnightIndochina.instant ∧
    (publicationOf midnightUtc).events = [(1, midnightUtc)] ∧
    (publicationOf midnightIndochina).events = [(1, midnightIndochina)] ∧
    eventName 1 midnightUtc ≠ eventName 1 midnightIndochina ∧
    ¬ NamesVersions (publicationOf midnightUtc) (publicationOf midnightIndochina) := by
  have hinstant : midnightUtc.instant = midnightIndochina.instant := by decide
  have hutc : (publicationOf midnightUtc).events = [(1, midnightUtc)] := rfl
  have hindochina : (publicationOf midnightIndochina).events = [(1, midnightIndochina)] := rfl
  have hnames : eventName 1 midnightUtc ≠ eventName 1 midnightIndochina := by
    intro h
    have hsame := congrArg (fun d : Datetime => d.hour) (eventName_inj.mp h).2
    cases hsame
  refine ⟨hinstant, hutc, hindochina, hnames, fun h => hnames ?_⟩
  refine (h (1, midnightUtc) ?_ (1, midnightIndochina) ?_).mpr ⟨rfl, hinstant⟩
  · rw [hutc]
    exact List.mem_singleton_self _
  · rw [hindochina]
    exact List.mem_singleton_self _

end Zones

end LocalDataPlatform.Stream
