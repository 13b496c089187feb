import LocalDataPlatform.Stream.Envelope
import LocalDataPlatform.Text.Reader
import Mathlib

/-!
# JSON texts

* `Json.write` — the text `json.dumps` writes with the separators `,` and `:`, in ASCII.
* `Json.read` — a reader of compact JSON.

Principal result: `read_write` (every value is read back from its text).
-/

set_option autoImplicit false

namespace LocalDataPlatform.Stream

open Text

/-! ## Writing -/

/-- A UTF-16 code unit as an escape. -/
def unicodeEscape (unit : Nat) : List Char := ['\x5c', 'u'] ++ fixedDigits 16 4 unit

/-- A character of a string, with `ensure_ascii`. -/
def escapeChar (c : Char) : List Char :=
  if c = '\x22' then ['\x5c', '\x22']
  else if c = '\x5c' then ['\x5c', '\x5c']
  else if c = '\n' then ['\x5c', 'n']
  else if c = '\r' then ['\x5c', 'r']
  else if c = '\t' then ['\x5c', 't']
  else if c = '\x0c' then ['\x5c', 'f']
  else if c = '\x08' then ['\x5c', 'b']
  else if ' ' ≤ c ∧ c ≤ '~' then [c]
  else if c.toNat < 0x10000 then unicodeEscape c.toNat
  else unicodeEscape (0xd800 + (c.toNat - 0x10000) / 0x400) ++
    unicodeEscape (0xdc00 + (c.toNat - 0x10000) % 0x400)

def bodyText (cs : List Char) : List Char := cs.flatMap escapeChar ++ ['\x22']

def stringText (s : String) : List Char := ['\x22'] ++ bodyText s.toList

/-- The digits after the point, which is left out when there are none. -/
def pointText (scale n : Nat) : List Char :=
  if scale = 0 then [] else ['.'] ++ fixedDigits 10 scale n

def numberText (mantissa : Int) (scale : Nat) : List Char :=
  (if mantissa < 0 then ['-'] else []) ++ (Nat.toDigits 10 (mantissa.natAbs / 10 ^ scale) ++
    pointText scale (mantissa.natAbs % 10 ^ scale))

mutual
def Json.write : Json → List Char
  | .null => ['n', 'u', 'l', 'l']
  | .bool true => ['t', 'r', 'u', 'e']
  | .bool false => ['f', 'a', 'l', 's', 'e']
  | .num mantissa scale => numberText mantissa scale
  | .str s => stringText s
  | .arr items => ['['] ++ commaText ']' (writeItems items)
  | .obj fields => ['\x7b'] ++ commaText '\x7d' (writeFields fields)

def writeItems : List Json → List (List Char)
  | [] => []
  | v :: items => v.write :: writeItems items

def writeFields : List (String × Json) → List (List Char)
  | [] => []
  | (name, v) :: fields => (stringText name ++ ([':'] ++ v.write)) :: writeFields fields
end

/-! ## Reading -/

def simpleEscape (c : Char) : Option Char :=
  if c = '\x22' ∨ c = '\x5c' ∨ c = '/' then some c
  else if c = 'n' then some '\n'
  else if c = 'r' then some '\r'
  else if c = 't' then some '\t'
  else if c = 'f' then some '\x0c'
  else if c = 'b' then some '\x08'
  else none

/-- The character of one code unit, or of a surrogate pair. -/
def readUnicode : Reader Char := do
  let high ← Reader.fixed 16 4
  if 0xd800 ≤ high ∧ high < 0xdc00 then do
    Reader.literal ['\x5c', 'u']
    let low ← Reader.fixed 16 4
    if 0xdc00 ≤ low ∧ low < 0xe000 then
      pure (Char.ofNat (0x10000 + (high - 0xd800) * 0x400 + (low - 0xdc00)))
    else failure
  else if 0xdc00 ≤ high ∧ high < 0xe000 then failure
  else pure (Char.ofNat high)

def readEscape : Reader Char := do
  let c ← Reader.next
  if c = 'u' then readUnicode
  else
    match simpleEscape c with
    | some d => pure d
    | none => failure

/-- A character of a string, or its end. -/
def readChar : Reader (Option Char) := do
  let c ← Reader.next
  if c = '\x22' then pure none
  else if c = '\x5c' then do
    let d ← readEscape
    pure (some d)
  else if c < ' ' then failure
  else pure (some c)

def readBody : Nat → Reader (List Char)
  | 0 => failure
  | fuel + 1 => do
    let c ← readChar
    match c with
    | none => pure []
    | some c => do
      let cs ← readBody fuel
      pure (c :: cs)

def readString : Reader String := do
  Reader.char '\x22'
  let fuel ← Reader.remaining
  let cs ← readBody fuel
  pure (String.ofList cs)

/-- The digits after a point, at least one. -/
def readPoint : Reader (List Char) := do
  let point ← Reader.optional '.'
  if point then do
    let ds ← Reader.digitRun
    if ds = [] then failure else pure ds
  else pure []

def readNumber : Reader Json := do
  let negative ← Reader.optional '-'
  let n ← Reader.numeral
  let ds ← readPoint
  pure (.num ((if negative then -1 else 1) * ((n * 10 ^ ds.length + Nat.ofDigitChars 10 ds 0 : Nat) : Int))
    ds.length)

def readNamed (value : Reader Json) : Reader (String × Json) := do
  let name ← readString
  Reader.char ':'
  let v ← value
  pure (name, v)

def readValue : Nat → Reader Json
  | 0 => failure
  | fuel + 1 => do
    let c ← Reader.peek
    if c = '\x22' then do
      let s ← readString
      pure (.str s)
    else if c = '[' then do
      Reader.char '['
      let items ← Reader.bracketed (readValue fuel) ']' fuel
      pure (.arr items)
    else if c = '\x7b' then do
      Reader.char '\x7b'
      let fields ← Reader.bracketed (readNamed (readValue fuel)) '\x7d' fuel
      pure (.obj fields)
    else if c = 'n' then do
      Reader.literal ['n', 'u', 'l', 'l']
      pure .null
    else if c = 't' then do
      Reader.literal ['t', 'r', 'u', 'e']
      pure (.bool true)
    else if c = 'f' then do
      Reader.literal ['f', 'a', 'l', 's', 'e']
      pure (.bool false)
    else readNumber

/-- A text that is one JSON value. -/
def Json.read (text : List Char) : Option Json := (readValue text.length).readAll text

/-! ## Strings are read back -/

section Strings

variable {follow : List Char → Prop}

theorem reads_unicode {u : Nat} (hu : u < 0xd800 ∨ 0xdfff < u ∧ u < 0x10000) :
    Reads follow readUnicode (fixedDigits 16 4 u) (Char.ofNat u) := by
  refine (reads_fixed (by decide) (by decide) (by omega)).finish ?_
  rw [if_neg (by omega), if_neg (by omega)]
  exact Reads.pure _

theorem reads_surrogates {v : Nat} (hv : v < 0x100000) :
    Reads follow readUnicode
      (fixedDigits 16 4 (0xd800 + v / 0x400) ++ unicodeEscape (0xdc00 + v % 0x400))
      (Char.ofNat (0x10000 + v)) := by
  have hsum : 0x10000 + (0xd800 + v / 0x400 - 0xd800) * 0x400 + (0xdc00 + v % 0x400 - 0xdc00) = 0x10000 + v := by
    omega
  refine (reads_fixed (by decide) (by decide) (by omega)).andThen ?_
  rw [if_pos (by omega)]
  refine (reads_literal ['\x5c', 'u']).andThen ((reads_fixed (by decide) (by decide) (by omega)).finish ?_)
  rw [if_pos (by omega), hsum]
  exact Reads.pure _

/-- A character that is written as it is. -/
theorem reads_plain {c : Char} (hprintable : ' ' ≤ c) (hquote : c ≠ '\x22') (hslash : c ≠ '\x5c') :
    Reads follow readChar [c] (some c) := by
  refine (reads_next c).finish ?_
  rw [if_neg hquote, if_neg hslash, if_neg (not_lt.mpr hprintable)]
  exact Reads.pure _

theorem reads_simple {c d : Char} (h : simpleEscape c = some d) (hu : c ≠ 'u') :
    Reads follow readChar ['\x5c', c] (some d) := by
  have hescape : Reads follow readEscape [c] d := by
    refine (reads_next c).finish ?_
    rw [if_neg hu, h]
    exact Reads.pure _
  refine (reads_next '\x5c').andThen ?_
  rw [if_neg (by decide), if_pos rfl]
  exact hescape.map

theorem reads_unicodeEscape {text : List Char} {c : Char} (h : Reads follow readUnicode text c) :
    Reads follow readChar (['\x5c', 'u'] ++ text) (some c) := by
  have hescape : Reads follow readEscape (['u'] ++ text) c := by
    refine (reads_next 'u').andThen ?_
    rw [if_pos rfl]
    exact h
  refine (reads_next '\x5c').andThen ?_
  rw [if_neg (by decide), if_pos rfl]
  exact hescape.map

theorem unicodeEscape_append (unit : Nat) (text : List Char) :
    unicodeEscape unit ++ text = ['\x5c', 'u'] ++ (fixedDigits 16 4 unit ++ text) := by
  unfold unicodeEscape
  rw [List.append_assoc]

/-- **A character is read back from its escape.** -/
theorem reads_escapeChar (c : Char) : Reads follow readChar (escapeChar c) (some c) := by
  have hvalid : c.toNat < 0xd800 ∨ 0xdfff < c.toNat ∧ c.toNat < 0x110000 := c.valid
  unfold escapeChar
  split
  · rename_i h
    exact reads_simple (by rw [h]; decide) (by decide)
  split
  · rename_i h
    exact reads_simple (by rw [h]; decide) (by decide)
  split
  · rename_i h
    exact reads_simple (by rw [h]; decide) (by decide)
  split
  · rename_i h
    exact reads_simple (by rw [h]; decide) (by decide)
  split
  · rename_i h
    exact reads_simple (by rw [h]; decide) (by decide)
  split
  · rename_i h
    exact reads_simple (by rw [h]; decide) (by decide)
  split
  · rename_i h
    exact reads_simple (by rw [h]; decide) (by decide)
  split
  · rename_i hquote hslash _ _ _ _ _ hprintable
    exact reads_plain hprintable.1 hquote hslash
  split
  · rename_i hunit
    have hread := @reads_unicode follow c.toNat (by omega)
    rw [Char.ofNat_toNat] at hread
    exact reads_unicodeEscape hread
  · rename_i hunit
    have hread := @reads_surrogates follow (c.toNat - 0x10000) (by omega)
    rw [show 0x10000 + (c.toNat - 0x10000) = c.toNat by omega, Char.ofNat_toNat] at hread
    rw [unicodeEscape_append]
    exact reads_unicodeEscape hread

/-- A string is read up to its closing quote. -/
theorem reads_body {cs : List Char} {fuel : Nat} (hfuel : cs.length < fuel) :
    Reads follow (readBody fuel) (bodyText cs) cs := by
  induction cs generalizing fuel with
  | nil =>
    obtain ⟨fuel, rfl⟩ : ∃ n, fuel = n + 1 := ⟨fuel - 1, by omega⟩
    have hquote : Reads follow readChar ['\x22'] none := by
      refine (reads_next '\x22').finish ?_
      rw [if_pos rfl]
      exact Reads.pure none
    exact hquote.finish (Reads.pure [])
  | cons c cs ih =>
    obtain ⟨fuel, rfl⟩ : ∃ n, fuel = n + 1 := ⟨fuel - 1, by omega⟩
    rw [List.length_cons] at hfuel
    unfold bodyText
    rw [List.flatMap_cons, List.append_assoc]
    exact (reads_escapeChar c).andThen (ih (by omega)).map

theorem length_bodyText (cs : List Char) : cs.length < (bodyText cs).length := by
  have hpos : ∀ c, 0 < (escapeChar c).length := by
    intro c
    unfold escapeChar unicodeEscape
    repeat' split
    all_goals simp
  induction cs with
  | nil => exact Nat.one_pos
  | cons c cs ih =>
    unfold bodyText at ih ⊢
    rw [List.flatMap_cons, List.append_assoc, List.length_append, List.length_cons]
    have hc := hpos c
    omega

/-- **A string is read back from its text.** -/
theorem reads_string (s : String) : Reads follow readString (stringText s) s := by
  refine (reads_char '\x22').andThen (Reads.remaining fun fuel hfuel => ?_)
  have hbody : Reads follow (readBody fuel) (bodyText s.toList) s.toList :=
    reads_body ((length_bodyText s.toList).trans_le hfuel)
  have hread := @Reads.map _ _ _ _ _ _ String.ofList hbody
  rwa [String.ofList_toList] at hread

end Strings

/-! ## Numbers are read back -/

/-- A character that continues a number. -/
def continuesNumber (c : Char) : Bool := c.isDigit || decide (c = '.')

section Numbers

variable {scale n : Nat}

/-- The digits after the point. -/
def pointDigits (scale n : Nat) : List Char := if scale = 0 then [] else fixedDigits 10 scale n

theorem reads_point : Reads (Stops continuesNumber) readPoint (pointText scale n) (pointDigits scale n) := by
  unfold pointText pointDigits
  split
  · have habsent : Reads (Stops continuesNumber) (Reader.optional '.') [] false := by
      refine reads_optional_absent.weaken fun rest hrest c hc => ?_
      exact (Bool.or_eq_false_iff.mp (hrest c hc)).2
    exact habsent.finish (Reads.pure [])
  · rename_i hscale
    have hdigits : Reads (Stops continuesNumber) Reader.digitRun (fixedDigits 10 scale n)
        (fixedDigits 10 scale n) := by
      refine (reads_digitRun isDigit_fixedDigits).weaken fun rest hrest c hc => ?_
      exact (Bool.or_eq_false_iff.mp (hrest c hc)).1
    have hne : fixedDigits 10 scale n ≠ [] := by
      intro hnil
      have hlength := @length_fixedDigits 10 scale n
      rw [hnil] at hlength
      exact hscale hlength.symm
    refine (reads_optional '.').andThen (hdigits.finish ?_)
    rw [if_neg hne]
    exact Reads.pure _

/-- What follows the whole part of a number: its point, or the end of the number. -/
theorem stops_pointText {rest : List Char} (hrest : Stops continuesNumber rest) :
    Stops Char.isDigit (pointText scale n ++ rest) := by
  unfold pointText
  split
  · exact fun c hc => (Bool.or_eq_false_iff.mp (hrest c hc)).1
  · exact stops_cons (by decide)

theorem pointDigits_spec (hn : n < 10 ^ scale) :
    (pointDigits scale n).length = scale ∧ Nat.ofDigitChars 10 (pointDigits scale n) 0 = n := by
  unfold pointDigits
  split
  · rename_i hscale
    rw [hscale, pow_zero, Nat.lt_one_iff] at hn
    rw [hn, hscale]
    exact ⟨rfl, rfl⟩
  · exact ⟨length_fixedDigits, ofDigitChars_fixedDigits hn⟩

theorem toDigits_head (n : Nat) : ∃ c cs, Nat.toDigits 10 n = c :: cs ∧ c.isDigit = true := by
  cases hds : Nat.toDigits 10 n with
  | nil => exact absurd hds Nat.toDigits_ne_nil
  | cons c cs =>
    have hmem : c ∈ Nat.toDigits 10 n := hds ▸ List.mem_cons_self
    exact ⟨c, cs, rfl, Nat.isDigit_of_mem_toDigits (by decide) (by decide) hmem⟩

theorem reads_minus (z : Int) (n : Nat) (rest : List Char) :
    (Reader.optional '-').run ((if z < 0 then ['-'] else []) ++ (Nat.toDigits 10 n ++ rest)) =
      some (decide (z < 0), Nat.toDigits 10 n ++ rest) := by
  split
  · rename_i hz
    rw [decide_eq_true hz]
    exact @reads_optional Anything '-' _ trivial
  · rename_i hz
    obtain ⟨c, cs, hds, hc⟩ := toDigits_head n
    have hne : ¬ c = '-' := by
      rintro rfl
      cases hc
    rw [decide_eq_false hz, hds]
    exact if_neg hne

/-- **A number is read back from its text.** -/
theorem reads_number (mantissa : Int) (scale : Nat) :
    Reads (Stops continuesNumber) readNumber (numberText mantissa scale) (.num mantissa scale) := by
  have hmod : mantissa.natAbs % 10 ^ scale < 10 ^ scale := Nat.mod_lt _ (by positivity)
  obtain ⟨hlength, hvalue⟩ := pointDigits_spec hmod
  have hmantissa : (if decide (mantissa < 0) = true then -1 else 1) *
      ((mantissa.natAbs / 10 ^ scale * 10 ^ scale + mantissa.natAbs % 10 ^ scale : Nat) : Int) = mantissa := by
    rw [Nat.div_add_mod' mantissa.natAbs (10 ^ scale)]
    simp only [decide_eq_true_eq]
    split <;> omega
  have hrest : Reads (Stops continuesNumber) (do
        let n ← Reader.numeral
        let ds ← readPoint
        pure (Json.num ((if decide (mantissa < 0) = true then -1 else 1) *
          ((n * 10 ^ ds.length + Nat.ofDigitChars 10 ds 0 : Nat) : Int)) ds.length))
      (Nat.toDigits 10 (mantissa.natAbs / 10 ^ scale) ++ pointText scale (mantissa.natAbs % 10 ^ scale))
      (.num mantissa scale) := by
    refine (reads_numeral _).bind (reads_point.finish ?_) fun rest hrest => stops_pointText hrest
    rw [hlength, hvalue, hmantissa]
    exact Reads.pure _
  intro rest hstops
  unfold readNumber numberText
  rw [StateT.run_bind, List.append_assoc, List.append_assoc, reads_minus, ← List.append_assoc]
  exact hrest rest hstops

end Numbers

/-! ## Values are read back -/

theorem numberText_head (mantissa : Int) (scale : Nat) :
    ∃ c cs, numberText mantissa scale = c :: cs ∧ (c = '-' ∨ c.isDigit = true) := by
  obtain ⟨c, cs, hds, hc⟩ := toDigits_head (mantissa.natAbs / 10 ^ scale)
  unfold numberText
  split
  · exact ⟨'-', _, rfl, Or.inl rfl⟩
  · rw [hds]
    exact ⟨c, _, rfl, Or.inr hc⟩

/-- No value begins like the end of an array. -/
theorem write_head (v : Json) : ∃ c cs, v.write = c :: cs ∧ c ≠ ']' := by
  cases v with
  | bool b => cases b <;> exact ⟨_, _, rfl, by decide⟩
  | num mantissa scale =>
    obtain ⟨c, cs, hcs, hc⟩ := numberText_head mantissa scale
    refine ⟨c, cs, hcs, ?_⟩
    rintro rfl
    rcases hc with hc | hc <;> cases hc
  | _ => exact ⟨_, _, rfl, by decide⟩

theorem writeItems_head {items : List Json} :
    ∀ text ∈ writeItems items, ∃ c cs, text = c :: cs ∧ c ≠ ']' := by
  induction items with
  | nil => exact fun _ h => absurd h List.not_mem_nil
  | cons v items ih =>
    intro text ht
    rcases List.mem_cons.mp ht with rfl | ht
    · exact write_head v
    · exact ih text ht

theorem writeFields_head {fields : List (String × Json)} :
    ∀ text ∈ writeFields fields, ∃ c cs, text = c :: cs ∧ c ≠ '\x7d' := by
  induction fields with
  | nil => exact fun _ h => absurd h List.not_mem_nil
  | cons field fields ih =>
    intro text ht
    rcases List.mem_cons.mp ht with rfl | ht
    · exact ⟨'\x22', _, rfl, by decide⟩
    · exact ih text ht

/-- Each item is shorter than the text of all. -/
theorem length_le_of_commaText {close : Char} {texts : List (List Char)} {fuel : Nat}
    (h : (commaText close texts).length ≤ fuel) : ∀ text ∈ texts, text.length ≤ fuel :=
  fun _ ht => ((length_lt_commaText ht).trans_le h).le

/-- What follows a value in an array or an object ends a number. -/
theorem stops_continuesNumber (rest : List Char) :
    Stops continuesNumber (',' :: rest) ∧ Stops continuesNumber (']' :: rest) ∧
      Stops continuesNumber ('\x7d' :: rest) :=
  ⟨stops_cons (by decide), stops_cons (by decide), stops_cons (by decide)⟩

mutual
/-- **A value is read back from its text**, with the length of the text as fuel. -/
theorem reads_write : ∀ (v : Json) (fuel : Nat), v.write.length ≤ fuel →
    Reads (Stops continuesNumber) (readValue fuel) v.write v
  | v, 0, h => by
    obtain ⟨c, cs, hcs, -⟩ := write_head v
    rw [hcs] at h
    cases h
  | .null, _ + 1, _ => Reads.peek ((reads_literal ['n', 'u', 'l', 'l']).finish (Reads.pure _))
  | .bool true, _ + 1, _ => Reads.peek ((reads_literal ['t', 'r', 'u', 'e']).finish (Reads.pure _))
  | .bool false, _ + 1, _ => Reads.peek ((reads_literal ['f', 'a', 'l', 's', 'e']).finish (Reads.pure _))
  | .num mantissa scale, fuel + 1, _ => by
    have hread := reads_number mantissa scale
    obtain ⟨c, cs, hcs, hc⟩ := numberText_head mantissa scale
    unfold Json.write
    rw [hcs] at hread ⊢
    refine Reads.peek ?_
    have hother : c ≠ '\x22' ∧ c ≠ '[' ∧ c ≠ '\x7b' ∧ c ≠ 'n' ∧ c ≠ 't' ∧ c ≠ 'f' := by
      refine ⟨?_, ?_, ?_, ?_, ?_, ?_⟩ <;> rintro rfl <;> rcases hc with hc | hc <;> cases hc
    obtain ⟨h₁, h₂, h₃, h₄, h₅, h₆⟩ := hother
    rw [if_neg h₁, if_neg h₂, if_neg h₃, if_neg h₄, if_neg h₅, if_neg h₆]
    exact hread
  | .str s, _ + 1, _ => Reads.peek (reads_string s).map
  | .arr items, fuel + 1, h => by
    have hfuel : (commaText ']' (writeItems items)).length ≤ fuel := Nat.le_of_succ_le_succ h
    have hitems := reads_writeItems items fuel (length_le_of_commaText hfuel)
    refine Reads.peek ((reads_char '[').andThen (Reads.map ?_))
    exact reads_bracketed (by decide) (fun rest => (stops_continuesNumber rest).1)
      (fun rest => (stops_continuesNumber rest).2.1) hitems writeItems_head (length_le_commaText.trans hfuel)
  | .obj fields, fuel + 1, h => by
    have hfuel : (commaText '\x7d' (writeFields fields)).length ≤ fuel := Nat.le_of_succ_le_succ h
    have hfields := reads_writeFields fields fuel (length_le_of_commaText hfuel)
    refine Reads.peek ((reads_char '\x7b').andThen (Reads.map ?_))
    exact reads_bracketed (by decide) (fun rest => (stops_continuesNumber rest).1)
      (fun rest => (stops_continuesNumber rest).2.2) hfields writeFields_head (length_le_commaText.trans hfuel)

theorem reads_writeItems : ∀ (items : List Json) (fuel : Nat), (∀ text ∈ writeItems items, text.length ≤ fuel) →
    List.Forall₂ (Reads (Stops continuesNumber) (readValue fuel)) (writeItems items) items
  | [], _, _ => List.Forall₂.nil
  | v :: items, fuel, h =>
    List.Forall₂.cons (reads_write v fuel (h _ List.mem_cons_self))
      (reads_writeItems items fuel fun text ht => h text (List.mem_cons_of_mem _ ht))

theorem reads_writeFields : ∀ (fields : List (String × Json)) (fuel : Nat),
    (∀ text ∈ writeFields fields, text.length ≤ fuel) →
    List.Forall₂ (Reads (Stops continuesNumber) (readNamed (readValue fuel))) (writeFields fields) fields
  | [], _, _ => List.Forall₂.nil
  | (name, v) :: fields, fuel, h => by
    have hlength : (stringText name ++ ([':'] ++ v.write)).length ≤ fuel := h _ List.mem_cons_self
    rw [List.length_append, List.length_append] at hlength
    exact List.Forall₂.cons
      ((reads_string name).andThen ((reads_char ':').andThen (reads_write v fuel (by omega)).map))
      (reads_writeFields fields fuel fun text ht => h text (List.mem_cons_of_mem _ ht))
end

/-- **Every value is read back from its text.** -/
theorem read_write (v : Json) : Json.read v.write = some v :=
  (reads_write v v.write.length le_rfl).readAll stops_nil

example : (Json.arr [.str "\"\u00e9\n", .num (-5) 2, .null]).write = "[\"\\\"\\u00e9\\n\",-0.05,null]".toList := by
  decide

end LocalDataPlatform.Stream
