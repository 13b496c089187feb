import LocalDataPlatform.Text.Reader
import Mathlib

/-!
# Datetimes and their ISO 8601 texts

* `Datetime` — a date of the proleptic Gregorian calendar, a time to the microsecond and an offset from
  UTC in seconds; `Datetime.instant` — microseconds since 1970-01-01 00:00:00+00.
* `isoformat` — the text `YYYY-MM-DDTHH:MM:SS[.ffffff]±HH:MM[:SS]`.
* `readDatetime` — its reader.

Principal results: `Datetime.ext_instant` (a datetime is its instant and its offset), `reads_isoformat`
(the text of a datetime is read as that datetime).
-/

set_option autoImplicit false

namespace LocalDataPlatform.Text

/-! ## The calendar -/

def isLeap (year : Nat) : Bool := year % 4 == 0 && (year % 100 != 0 || year % 400 == 0)

def daysInMonth (year : Nat) : Nat → Nat
  | 2 => if isLeap year then 29 else 28
  | 4 | 6 | 9 | 11 => 30
  | _ => 31

/-- The days of a year before the first of a month. -/
def daysBeforeMonth (year month : Nat) : Nat :=
  ((List.range month).filter (0 < ·)).foldl (fun days m => days + daysInMonth year m) 0

/-- The days before the first of January, from year 1 on. -/
def daysBeforeYear (year : Nat) : Nat :=
  let y := year - 1
  y * 365 + y / 4 - y / 100 + y / 400

/-- What a datetime is made of. -/
structure DatetimeFields where
  year : Nat
  month : Nat
  day : Nat
  hour : Nat
  minute : Nat
  second : Nat
  microsecond : Nat
  utcoffset : Int
  deriving DecidableEq, Repr

def DatetimeFields.Valid (f : DatetimeFields) : Prop :=
  (1 ≤ f.year ∧ f.year ≤ 9999) ∧ (1 ≤ f.month ∧ f.month ≤ 12) ∧
    (1 ≤ f.day ∧ f.day ≤ daysInMonth f.year f.month) ∧
    f.hour < 24 ∧ f.minute < 60 ∧ f.second < 60 ∧ f.microsecond < 1000000 ∧ f.utcoffset.natAbs < 86400

instance (f : DatetimeFields) : Decidable f.Valid := inferInstanceAs (Decidable (_ ∧ _))

structure Datetime extends DatetimeFields where
  valid : toDatetimeFields.Valid
  deriving DecidableEq, Repr

/-- 1 for the first of January of year 1. -/
def DatetimeFields.toordinal (f : DatetimeFields) : Nat :=
  daysBeforeYear f.year + daysBeforeMonth f.year f.month + f.day

/-- Microseconds since 1970-01-01 00:00:00+00. -/
def DatetimeFields.instant (f : DatetimeFields) : Int :=
  (((((f.toordinal : Int) - 719163) * 24 + f.hour) * 60 + f.minute) * 60 + f.second - f.utcoffset) *
    1000000 + f.microsecond

/-! ## Dates and their ordinals -/

section Ordinals

variable {year month : Nat} {f g : DatetimeFields}

theorem daysBeforeMonth_succ (hmonth : 1 ≤ month) :
    daysBeforeMonth year (month + 1) = daysBeforeMonth year month + daysInMonth year month := by
  unfold daysBeforeMonth
  have hpos : decide (0 < month) = true := by simp; omega
  rw [List.range_succ, List.filter_append, List.foldl_append]
  simp [hpos]

theorem daysBeforeMonth_mono {month' : Nat} (hmonth : 1 ≤ month) (hle : month ≤ month') :
    daysBeforeMonth year month ≤ daysBeforeMonth year month' := by
  induction month', hle using Nat.le_induction with
  | base => exact le_refl _
  | succ m hm ih =>
    rw [daysBeforeMonth_succ (by omega)]
    omega

theorem daysInYear (year : Nat) : daysBeforeMonth year 13 = if isLeap year then 366 else 365 := by
  cases hleap : isLeap year <;>
    simp [daysBeforeMonth, List.range_succ, daysInMonth, hleap]

/-- The leap days up to a year. -/
theorem leapDays_succ (y : Nat) : (y + 1) / 4 - (y + 1) / 100 + (y + 1) / 400 =
    y / 4 - y / 100 + y / 400 + if isLeap (y + 1) then 1 else 0 := by
  have hfour : (y + 1) / 4 = y / 4 + if (y + 1) % 4 = 0 then 1 else 0 := by split <;> omega
  have hhundred : (y + 1) / 100 = y / 100 + if (y + 1) % 100 = 0 then 1 else 0 := by split <;> omega
  have hfourHundred : (y + 1) / 400 = y / 400 + if (y + 1) % 400 = 0 then 1 else 0 := by split <;> omega
  have hle : y / 100 ≤ y / 4 := by omega
  have hhundred' : (y + 1) % 100 = 0 → (y + 1) % 4 = 0 := by omega
  have hfourHundred' : (y + 1) % 400 = 0 → (y + 1) % 100 = 0 := by omega
  rw [hfour, hhundred, hfourHundred]
  unfold isLeap
  by_cases h4 : (y + 1) % 4 = 0 <;> by_cases h100 : (y + 1) % 100 = 0 <;>
    by_cases h400 : (y + 1) % 400 = 0 <;> simp [h4, h100, h400] <;> omega

theorem daysBeforeYear_succ (hyear : 1 ≤ year) :
    daysBeforeYear (year + 1) = daysBeforeYear year + daysBeforeMonth year 13 := by
  obtain ⟨y, rfl⟩ : ∃ y, year = y + 1 := ⟨year - 1, by omega⟩
  have hleap := leapDays_succ y
  have hle : y / 100 ≤ y / 4 := by omega
  have hle' : (y + 1) / 100 ≤ (y + 1) / 4 := by omega
  rw [daysInYear]
  unfold daysBeforeYear
  simp only [Nat.add_sub_cancel]
  cases hy : isLeap (y + 1) with
  | true =>
    simp only [hy, if_true] at hleap ⊢
    omega
  | false =>
    simp only [hy, Bool.false_eq_true, if_false] at hleap ⊢
    omega

theorem daysBeforeYear_mono {year' : Nat} (hyear : 1 ≤ year) (hle : year ≤ year') :
    daysBeforeYear year ≤ daysBeforeYear year' := by
  induction year', hle using Nat.le_induction with
  | base => exact le_refl _
  | succ y hy ih =>
    rw [daysBeforeYear_succ (by omega)]
    omega

/-- The day of its year that a date is. -/
theorem day_of_year_le (h : f.Valid) :
    daysBeforeMonth f.year f.month + f.day ≤ daysBeforeMonth f.year 13 := by
  obtain ⟨-, ⟨hmonth, hmonth'⟩, ⟨-, hday⟩, -⟩ := h
  have hnext := @daysBeforeMonth_succ f.year f.month hmonth
  have hle := @daysBeforeMonth_mono f.year (f.month + 1) 13 (by omega) (by omega)
  omega

/-- **A date is determined by its ordinal.** -/
theorem toordinal_inj (hf : f.Valid) (hg : g.Valid) (h : f.toordinal = g.toordinal) :
    f.year = g.year ∧ f.month = g.month ∧ f.day = g.day := by
  have hyears : ∀ {f g : DatetimeFields}, f.Valid → g.Valid → f.year < g.year → f.toordinal < g.toordinal := by
    intro f g hf hg hlt
    have hbound := day_of_year_le hf
    have hnext := @daysBeforeYear_succ f.year hf.1.1
    have hle := @daysBeforeYear_mono (f.year + 1) g.year (by omega) hlt
    have hday := hg.2.2.1.1
    unfold DatetimeFields.toordinal
    omega
  have hyear : f.year = g.year := by
    rcases Nat.lt_trichotomy f.year g.year with hlt | heq | hlt
    · have := hyears hf hg hlt
      omega
    · exact heq
    · have := hyears hg hf hlt
      omega
  have hmonths : ∀ {f g : DatetimeFields}, f.Valid → g.Valid → f.year = g.year → f.month < g.month →
      f.toordinal < g.toordinal := by
    intro f g hf hg hsame hlt
    have hnext := @daysBeforeMonth_succ f.year f.month hf.2.1.1
    have hle := @daysBeforeMonth_mono f.year (f.month + 1) g.month (by omega) hlt
    have hday := hf.2.2.1.2
    have hday' := hg.2.2.1.1
    unfold DatetimeFields.toordinal
    rw [← hsame]
    omega
  have hmonth : f.month = g.month := by
    rcases Nat.lt_trichotomy f.month g.month with hlt | heq | hlt
    · have := hmonths hf hg hyear hlt
      omega
    · exact heq
    · have := hmonths hg hf hyear.symm hlt
      omega
  unfold DatetimeFields.toordinal at h
  rw [hyear, hmonth] at h
  exact ⟨hyear, hmonth, by omega⟩

/-- **A datetime is determined by its instant and its offset.** -/
theorem Datetime.ext_instant {d e : Datetime} (hinstant : d.instant = e.instant)
    (hoffset : d.utcoffset = e.utcoffset) : d = e := by
  obtain ⟨f, hf⟩ := d
  obtain ⟨g, hg⟩ := e
  replace hinstant : f.instant = g.instant := hinstant
  replace hoffset : f.utcoffset = g.utcoffset := hoffset
  have hdate : f.toordinal = g.toordinal ∧ f.hour = g.hour ∧ f.minute = g.minute ∧ f.second = g.second ∧
      f.microsecond = g.microsecond := by
    have hf' := hf.2.2.2
    have hg' := hg.2.2.2
    unfold DatetimeFields.instant at hinstant
    omega
  obtain ⟨hord, hhour, hminute, hsecond, hmicro⟩ := hdate
  obtain ⟨hyear, hmonth, hday⟩ := toordinal_inj hf hg hord
  have hsame : f = g := by
    cases f
    cases g
    simp_all
  subst hsame
  rfl

end Ordinals

/-! ## The text -/

def dateText (f : DatetimeFields) : List Char :=
  fixedDigits 10 4 f.year ++ (['-'] ++ (fixedDigits 10 2 f.month ++ (['-'] ++ fixedDigits 10 2 f.day)))

def timeText (f : DatetimeFields) : List Char :=
  fixedDigits 10 2 f.hour ++ ([':'] ++ (fixedDigits 10 2 f.minute ++ ([':'] ++ fixedDigits 10 2 f.second)))

/-- The fraction of a second, left out when it is zero. -/
def fractionText (microsecond : Nat) : List Char :=
  if microsecond = 0 then [] else ['.'] ++ fixedDigits 10 6 microsecond

/-- The seconds of an offset, left out when they are zero. -/
def offsetSecondsText (seconds : Nat) : List Char :=
  if seconds = 0 then [] else [':'] ++ fixedDigits 10 2 seconds

def offsetText (utcoffset : Int) : List Char :=
  [if utcoffset < 0 then '-' else '+'] ++
    (fixedDigits 10 2 (utcoffset.natAbs / 3600) ++ ([':'] ++
      (fixedDigits 10 2 (utcoffset.natAbs / 60 % 60) ++ offsetSecondsText (utcoffset.natAbs % 60))))

/-- `datetime.isoformat()`. -/
def isoformat (f : DatetimeFields) : List Char :=
  dateText f ++ (['T'] ++ (timeText f ++ (fractionText f.microsecond ++ offsetText f.utcoffset)))

/-! ## The reader -/

def readDate : Reader (Nat × Nat × Nat) := do
  let year ← Reader.fixed 10 4
  Reader.char '-'
  let month ← Reader.fixed 10 2
  Reader.char '-'
  let day ← Reader.fixed 10 2
  pure (year, month, day)

def readTime : Reader (Nat × Nat × Nat) := do
  let hour ← Reader.fixed 10 2
  Reader.char ':'
  let minute ← Reader.fixed 10 2
  Reader.char ':'
  let second ← Reader.fixed 10 2
  pure (hour, minute, second)

/-- What a leading character announces, or zero. -/
def readAfter (c : Char) (width : Nat) : Reader Nat := do
  let present ← Reader.optional c
  if present then Reader.fixed 10 width else pure 0

def readSign : Reader Int := do
  let c ← Reader.next
  if c = '-' then pure (-1) else if c = '+' then pure 1 else failure

def readOffset : Reader Int := do
  let sign ← readSign
  let hours ← Reader.fixed 10 2
  Reader.char ':'
  let minutes ← Reader.fixed 10 2
  let seconds ← readAfter ':' 2
  pure (sign * ((hours * 60 + minutes) * 60 + seconds : Nat))

/-- The fields, if they are those of a datetime. -/
def checked (f : DatetimeFields) : Reader Datetime :=
  if h : f.Valid then pure ⟨f, h⟩ else failure

def readDatetime : Reader Datetime := do
  let (year, month, day) ← readDate
  Reader.char 'T'
  let (hour, minute, second) ← readTime
  let microsecond ← readAfter '.' 6
  let utcoffset ← readOffset
  checked ⟨year, month, day, hour, minute, second, microsecond, utcoffset⟩

/-! ## The text is read as the datetime -/

section Reads

variable {follow : List Char → Prop} {f : DatetimeFields}

/-- Three numerals apart by a character. -/
theorem reads_date (h : f.Valid) : Reads Anything readDate (dateText f) (f.year, f.month, f.day) := by
  obtain ⟨⟨-, hyear⟩, ⟨-, hmonth⟩, ⟨-, hday⟩, -⟩ := h
  have hdays : daysInMonth f.year f.month ≤ 31 := by
    unfold daysInMonth
    split <;> first | split | skip
    all_goals omega
  refine (reads_fixed (by decide) (by decide) (by omega)).andThen ((reads_char '-').andThen
    ((reads_fixed (by decide) (by decide) (by omega)).andThen ((reads_char '-').andThen
      (reads_fixed (by decide) (by decide) (by omega)).map)))

theorem reads_time (h : f.Valid) : Reads Anything readTime (timeText f) (f.hour, f.minute, f.second) := by
  obtain ⟨-, -, -, hhour, hminute, hsecond, -, -⟩ := h
  exact (reads_fixed (by decide) (by decide) (by omega)).andThen ((reads_char ':').andThen
    ((reads_fixed (by decide) (by decide) (by omega)).andThen ((reads_char ':').andThen
      (reads_fixed (by decide) (by decide) (by omega)).map)))

/-- A part that is left out when it is zero. -/
theorem reads_after {c : Char} {width n : Nat} (hn : n < 10 ^ width) :
    Reads (Stops fun c' => decide (c' = c)) (readAfter c width)
      (if n = 0 then [] else [c] ++ fixedDigits 10 width n) n := by
  split
  · rename_i hzero
    rw [hzero]
    exact reads_optional_absent.finish (Reads.pure 0)
  · exact (reads_optional c).andThen (reads_fixed (by decide) (by decide) hn)

theorem reads_sign (z : Int) :
    Reads follow readSign [if z < 0 then '-' else '+'] (if z < 0 then -1 else 1) := by
  intro rest _
  split <;> rfl

theorem reads_offset {z : Int} (hz : z.natAbs < 86400) :
    Reads (Stops fun c => decide (c = ':')) readOffset (offsetText z) z := by
  have hvalue : (if z < 0 then -1 else 1) *
      (((z.natAbs / 3600 * 60 + z.natAbs / 60 % 60) * 60 + z.natAbs % 60 : Nat) : Int) = z := by
    have habs : (z.natAbs / 3600 * 60 + z.natAbs / 60 % 60) * 60 + z.natAbs % 60 = z.natAbs := by omega
    rw [habs]
    split <;> omega
  have hread : Reads (Stops fun c => decide (c = ':')) readOffset (offsetText z)
      ((if z < 0 then -1 else 1) *
        (((z.natAbs / 3600 * 60 + z.natAbs / 60 % 60) * 60 + z.natAbs % 60 : Nat) : Int)) :=
    (reads_sign z).andThen ((reads_fixed (by decide) (by decide) (by omega)).andThen
      ((reads_char ':').andThen ((reads_fixed (by decide) (by decide) (by omega)).andThen
        (reads_after (by omega)).map)))
  rwa [hvalue] at hread

/-- **The text of a datetime is read as that datetime.** -/
theorem reads_isoformat (d : Datetime) :
    Reads (Stops fun c => decide (c = ':')) readDatetime (isoformat d.toDatetimeFields) d := by
  have hchecked : Reads (Stops fun c => decide (c = ':')) (checked d.toDatetimeFields) [] d := by
    unfold checked
    rw [dif_pos d.valid]
    exact Reads.pure d
  -- a sign follows the fraction
  have hsign : ∀ rest, Stops (fun c => decide (c = '.')) (offsetText d.utcoffset ++ rest) := by
    intro rest
    refine stops_cons ?_
    split <;> decide
  exact (reads_date d.valid).andThen ((reads_char 'T').andThen ((reads_time d.valid).andThen
    ((reads_after d.valid.2.2.2.2.2.2.1).bind
      ((reads_offset d.valid.2.2.2.2.2.2.2).finish hchecked) fun rest _ => hsign rest)))

end Reads

example : isoformat ⟨1900, 1, 2, 11, 30, 0, 1, 25590⟩ = "1900-01-02T11:30:00.000001+07:06:30".toList := by
  decide

example : DatetimeFields.instant ⟨2026, 10, 10, 3, 30, 0, 7, 12600⟩ = 1791590400000007 := by decide

end LocalDataPlatform.Text
