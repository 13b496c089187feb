import LocalDataPlatform.Text.Datetime

/-!
# Timestamps as operators write them

ISO 8601 texts `YYYY-MM-DDTHH:MM:SS[.f]` with up to six decimals and a zone: `Z`, `±HH:MM`, or none for
the time zone of the session.

* `Timestamp` — a datetime with its offset, or without one.
* `readTimestamp` — the reader, with or without `Z` as a zone.
* `replaceZ` — a text with `+00:00` for every `Z`.
* `ReadsThrough` — what one reader takes of the replaced text, another takes of the text itself.

Principal result: `read_replaceZ` (a text whose replacement is read without `Z` is read with it as the
same timestamp).
-/

set_option autoImplicit false

namespace LocalDataPlatform.Text

/-- A datetime that knows its offset, or a date and a time of the session's zone. -/
inductive Timestamp where
  | aware (d : Datetime)
  | naive (d : Datetime)
  deriving DecidableEq, Repr

/-- The instant a timestamp denotes; `zone` reads a date and a time in the session's zone. -/
def Timestamp.instant (zone : Datetime → Int) : Timestamp → Int
  | .aware d => d.instant
  | .naive d => zone d

/-! ## The reader -/

/-- Up to six decimals of a second, in microseconds. -/
def readFraction : Reader Nat := do
  let present ← Reader.optional '.'
  if present then do
    let ds ← Reader.digitRun
    if 1 ≤ ds.length ∧ ds.length ≤ 6 then pure (Nat.ofDigitChars 10 ds 0 * 10 ^ (6 - ds.length))
    else failure
  else pure 0

/-- The hours and minutes of an offset, in seconds. -/
def readHoursMinutes : Reader Int := do
  let hours ← Reader.fixed 10 2
  Reader.char ':'
  let minutes ← Reader.fixed 10 2
  if hours < 24 ∧ minutes < 60 then pure ((hours * 60 + minutes) * 60 : Nat) else failure

/-- `±HH:MM`, `Z` where it is a zone, or nothing. -/
def readZone (zulu : Bool) : Reader (Option Int)
  | [] => some (none, [])
  | c :: cs =>
    if c = '+' then (some <$> readHoursMinutes).run cs
    else if c = '-' then ((fun offset => some (-offset)) <$> readHoursMinutes).run cs
    else if c = 'Z' ∧ zulu then some (some 0, cs)
    else none

/-- What is read, with the zone last. -/
def Timestamp.make (f : DatetimeFields) : Option Int → Reader Timestamp
  | some utcoffset => .aware <$> checked { f with utcoffset := utcoffset }
  | none => .naive <$> checked f

def readTimestamp (zulu : Bool) : Reader Timestamp := do
  let (year, month, day) ← readDate
  Reader.char 'T'
  let (hour, minute, second) ← readTime
  let microsecond ← readFraction
  let zone ← readZone zulu
  Timestamp.make ⟨year, month, day, hour, minute, second, microsecond, 0⟩ zone

/-! ## A text with its `Z` replaced -/

/-- `text.replace("Z", "+00:00")`. -/
def replaceZ (text : List Char) : List Char :=
  text.flatMap fun c => if c = 'Z' then ['+', '0', '0', ':', '0', '0'] else [c]

section Replace

variable {α β : Type} {r r' : Reader α} {f f' : α → Reader β} {cs rest : List Char} {c : Char}

@[simp] theorem replaceZ_nil : replaceZ [] = [] := rfl

theorem replaceZ_cons (h : c ≠ 'Z') : replaceZ (c :: cs) = c :: replaceZ cs := by
  simp [replaceZ, h]

theorem replaceZ_zulu : replaceZ ('Z' :: cs) = ['+', '0', '0', ':', '0', '0'] ++ replaceZ cs := rfl

theorem replaceZ_eq_nil (h : replaceZ cs = []) : cs = [] := by
  cases cs with
  | nil => rfl
  | cons c cs =>
    by_cases hc : c = 'Z'
    · subst hc
      cases h
    · rw [replaceZ_cons hc] at h
      cases h

/-- A character other than a plus sign is one of the text. -/
theorem of_replaceZ_cons (h : replaceZ cs = c :: rest) (hc : c ≠ '+') :
    ∃ cs', cs = c :: cs' ∧ rest = replaceZ cs' := by
  cases cs with
  | nil => cases h
  | cons c' cs =>
    by_cases hz : c' = 'Z'
    · subst hz
      rw [replaceZ_zulu] at h
      exact absurd (List.cons.inj h).1.symm hc
    · rw [replaceZ_cons hz] at h
      obtain ⟨rfl, rfl⟩ := List.cons.inj h
      exact ⟨cs, rfl, rfl⟩

/-- What `r` takes of a replaced text, `r'` takes of the text. -/
def ReadsThrough (r r' : Reader α) : Prop :=
  ∀ cs a rest, r.run (replaceZ cs) = some (a, rest) → ∃ cs', r'.run cs = some (a, cs') ∧ rest = replaceZ cs'

theorem ReadsThrough.pure (a : α) : ReadsThrough (Pure.pure a : Reader α) (Pure.pure a) := by
  intro cs b rest h
  cases h
  exact ⟨cs, rfl, rfl⟩

theorem ReadsThrough.failure : ReadsThrough (failure : Reader α) failure := fun _ _ _ h => by cases h

/-- **Readers in sequence.** -/
theorem ReadsThrough.bind (h : ReadsThrough r r') (h' : ∀ a, ReadsThrough (f a) (f' a)) :
    ReadsThrough (r >>= f) (r' >>= f') := by
  intro cs b rest hread
  rw [StateT.run_bind] at hread
  obtain ⟨⟨a, middle⟩, hfirst, hsecond⟩ := Option.bind_eq_some_iff.mp hread
  obtain ⟨cs₁, hfirst', rfl⟩ := h cs a middle hfirst
  obtain ⟨cs₂, hsecond', rfl⟩ := h' a cs₁ b rest hsecond
  refine ⟨cs₂, ?_, rfl⟩
  rw [StateT.run_bind, hfirst']
  exact hsecond'

theorem ReadsThrough.map (h : ReadsThrough r r') (g : α → β) : ReadsThrough (g <$> r) (g <$> r') := by
  intro cs b rest hread
  rw [StateT.run_map] at hread
  obtain ⟨⟨a, rest'⟩, hfirst, he⟩ := Option.map_eq_some_iff.mp hread
  cases he
  obtain ⟨cs', hfirst', rfl⟩ := h cs a rest' hfirst
  refine ⟨cs', ?_, rfl⟩
  rw [StateT.run_map, hfirst']
  rfl

/-- A test between readers. -/
theorem ReadsThrough.ite {p : Prop} [Decidable p] {s s' : Reader α} (h : ReadsThrough r r')
    (h' : ReadsThrough s s') : ReadsThrough (if p then r else s) (if p then r' else s') := by
  split
  · exact h
  · exact h'

/-- A reader of one character that takes no plus sign. -/
theorem readsThrough_next {g : Char → Reader α} (hplus : ∀ cs, (g '+').run cs = none)
    (hg : ∀ c, ReadsThrough (g c) (g c)) : ReadsThrough (Reader.next >>= g) (Reader.next >>= g) := by
  intro cs a rest h
  cases hcs : replaceZ cs with
  | nil =>
    rw [hcs] at h
    cases h
  | cons c rest' =>
    rw [hcs] at h
    change (g c).run rest' = some (a, rest) at h
    have hc : c ≠ '+' := by
      rintro rfl
      rw [hplus] at h
      cases h
    obtain ⟨cs', rfl, rfl⟩ := of_replaceZ_cons hcs hc
    exact hg c cs' a rest h

theorem readsThrough_char (hc : c ≠ '+') : ReadsThrough (Reader.char c) (Reader.char c) := by
  refine readsThrough_next (fun cs => ?_) fun c' => ?_
  · rw [if_neg hc.symm]
    rfl
  · exact ReadsThrough.ite (ReadsThrough.pure ()) ReadsThrough.failure

theorem readsThrough_digit : ReadsThrough (Reader.digit 10) (Reader.digit 10) := by
  refine readsThrough_next (fun cs => rfl) fun c => ?_
  cases digitValue c with
  | none => exact ReadsThrough.failure
  | some d => exact ReadsThrough.ite (ReadsThrough.pure d) ReadsThrough.failure

theorem readsThrough_fixed (width : Nat) :
    ReadsThrough (Reader.fixed 10 width) (Reader.fixed 10 width) := by
  induction width with
  | zero => exact ReadsThrough.pure 0
  | succ width ih =>
    exact ih.bind fun n => readsThrough_digit.bind fun d => ReadsThrough.pure (n * 10 + d)

theorem readsThrough_optional (hc : c ≠ '+') (hz : c ≠ 'Z') :
    ReadsThrough (Reader.optional c) (Reader.optional c) := by
  intro cs present rest h
  cases cs with
  | nil =>
    cases h
    exact ⟨[], rfl, rfl⟩
  | cons c' cs =>
    by_cases hz' : c' = 'Z'
    · subst hz'
      refine ⟨'Z' :: cs, ?_, ?_⟩
      · change (if 'Z' = c then some (true, cs) else some (false, 'Z' :: cs)) = _
        rw [if_neg hz.symm]
        change (if '+' = c then some (true, _) else some (false, _)) = some (present, rest) at h
        rw [if_neg hc.symm] at h
        cases h
        rfl
      · change (if '+' = c then some (true, _) else some (false, _)) = some (present, rest) at h
        rw [if_neg hc.symm] at h
        cases h
        rfl
    · rw [replaceZ_cons hz'] at h
      change (if c' = c then some (true, replaceZ cs) else some (false, c' :: replaceZ cs)) =
        some (present, rest) at h
      by_cases he : c' = c
      · rw [if_pos he] at h
        cases h
        exact ⟨cs, if_pos he, rfl⟩
      · rw [if_neg he] at h
        cases h
        exact ⟨c' :: cs, if_neg he, (replaceZ_cons hz').symm⟩

theorem readsThrough_digitRun : ReadsThrough Reader.digitRun Reader.digitRun := by
  have hspan : ∀ cs : List Char, (replaceZ cs).takeWhile Char.isDigit = cs.takeWhile Char.isDigit ∧
      (replaceZ cs).dropWhile Char.isDigit = replaceZ (cs.dropWhile Char.isDigit) := by
    intro cs
    induction cs with
    | nil => exact ⟨rfl, rfl⟩
    | cons c cs ih =>
      by_cases hz : c = 'Z'
      · subst hz
        exact ⟨rfl, rfl⟩
      · rw [replaceZ_cons hz]
        cases hd : c.isDigit with
        | true => simp [hd, ih.1, ih.2]
        | false => simp [hd, replaceZ_cons hz]
  intro cs ds rest h
  unfold Reader.digitRun at h ⊢
  simp only [StateT.run, List.span_eq_takeWhile_dropWhile, (hspan cs).1, (hspan cs).2, Option.some.injEq,
    Prod.mk.injEq] at h ⊢
  exact ⟨_, ⟨h.1, rfl⟩, h.2.symm⟩

theorem readsThrough_date : ReadsThrough readDate readDate :=
  (readsThrough_fixed 4).bind fun _ => (readsThrough_char (by decide)).bind fun _ =>
    (readsThrough_fixed 2).bind fun _ => (readsThrough_char (by decide)).bind fun _ =>
      (readsThrough_fixed 2).bind fun _ => ReadsThrough.pure _

theorem readsThrough_time : ReadsThrough readTime readTime :=
  (readsThrough_fixed 2).bind fun _ => (readsThrough_char (by decide)).bind fun _ =>
    (readsThrough_fixed 2).bind fun _ => (readsThrough_char (by decide)).bind fun _ =>
      (readsThrough_fixed 2).bind fun _ => ReadsThrough.pure _

theorem readsThrough_fraction : ReadsThrough readFraction readFraction := by
  refine (readsThrough_optional (by decide) (by decide)).bind fun present => ReadsThrough.ite ?_ ?_
  · exact readsThrough_digitRun.bind fun ds => ReadsThrough.ite (ReadsThrough.pure _) ReadsThrough.failure
  · exact ReadsThrough.pure 0

theorem readsThrough_hoursMinutes : ReadsThrough readHoursMinutes readHoursMinutes :=
  (readsThrough_fixed 2).bind fun _ => (readsThrough_char (by decide)).bind fun _ =>
    (readsThrough_fixed 2).bind fun _ => ReadsThrough.ite (ReadsThrough.pure _) ReadsThrough.failure

/-- **A replaced zone is read as the zone.** -/
theorem readsThrough_zone : ReadsThrough (readZone false) (readZone true) := by
  intro cs zone rest h
  cases cs with
  | nil =>
    cases h
    exact ⟨[], rfl, rfl⟩
  | cons c cs =>
    by_cases hz : c = 'Z'
    · -- `+00:00` is read as an offset of zero, before what followed the `Z`
      subst hz
      have hzero : (readZone false).run (replaceZ ('Z' :: cs)) = some (some 0, replaceZ cs) := rfl
      rw [hzero] at h
      cases h
      exact ⟨cs, rfl, rfl⟩
    · rw [replaceZ_cons hz] at h
      by_cases hplus : c = '+'
      · subst hplus
        exact readsThrough_hoursMinutes.map some cs zone rest h
      · by_cases hminus : c = '-'
        · subst hminus
          exact readsThrough_hoursMinutes.map (fun offset => some (-offset)) cs zone rest h
        · have hnone : (readZone false).run (c :: replaceZ cs) = none := by
            change (if c = '+' then _ else if c = '-' then _ else if c = 'Z' ∧ false then _ else none) = none
            simp [hplus, hminus]
          rw [hnone] at h
          cases h

theorem readsThrough_checked (f : DatetimeFields) : ReadsThrough (checked f) (checked f) := by
  unfold checked
  split
  · exact ReadsThrough.pure _
  · exact ReadsThrough.failure

theorem readsThrough_make (f : DatetimeFields) (zone : Option Int) :
    ReadsThrough (Timestamp.make f zone) (Timestamp.make f zone) := by
  cases zone with
  | none => exact (readsThrough_checked f).map Timestamp.naive
  | some utcoffset => exact (readsThrough_checked _).map Timestamp.aware

theorem readsThrough_timestamp : ReadsThrough (readTimestamp false) (readTimestamp true) :=
  readsThrough_date.bind fun _ => (readsThrough_char (by decide)).bind fun _ =>
    readsThrough_time.bind fun _ => readsThrough_fraction.bind fun _ =>
      readsThrough_zone.bind fun zone => readsThrough_make _ zone

/-- **A text whose replacement is read without `Z` is read with it**, as the same timestamp. -/
theorem read_replaceZ {text : List Char} {ts : Timestamp}
    (h : (readTimestamp false).readAll (replaceZ text) = some ts) :
    (readTimestamp true).readAll text = some ts := by
  unfold Reader.readAll at h ⊢
  split at h
  · rename_i hread
    cases h
    obtain ⟨cs, hread', hrest⟩ := readsThrough_timestamp text ts [] hread
    rw [hread', replaceZ_eq_nil hrest.symm]
  · cases h

end Replace

example : readFraction.run ".5Z".toList = some (500000, ['Z']) := by decide

end LocalDataPlatform.Text
