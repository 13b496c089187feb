import Mathlib.Algebra.Order.Ring.Nat
import Mathlib.Data.List.TakeDrop

/-!
# Readers

A reader takes a value off the front of a text. A writer and a reader agree if the reader takes exactly
the text that was written, whatever follows it, or whatever follows it under a condition.

* `Reader` — readers; `Reader.readAll` — a text that is read to its end.
* `Reads` — a reader takes a text, and what may follow it.
* `fixedDigits`, `fixed` — numerals of a given width and base; `numeral` — decimal numerals without
  leading zeros; `digitRun` — the digits after a point.

Principal results: `Reads.bind` (readers in sequence), `reads_fixed`, `reads_numeral`,
`reads_digitRun` (each reads what it is written as).
-/

set_option autoImplicit false

namespace LocalDataPlatform.Text

/-- What takes a value off the front of a text. -/
abbrev Reader (α : Type) := StateT (List Char) Option α

namespace Reader

/-- The next character. -/
def next : Reader Char
  | [] => none
  | c :: cs => some (c, cs)

/-- The next character, which stays. -/
def peek : Reader Char
  | [] => none
  | c :: cs => some (c, c :: cs)

/-- A character that has to be there. -/
def char (c : Char) : Reader Unit := do
  let c' ← next
  if c' = c then pure () else failure

/-- A text that has to be there. -/
def literal : List Char → Reader Unit
  | [] => pure ()
  | c :: cs => do
    char c
    literal cs

/-- A character that may be there. -/
def optional (c : Char) : Reader Bool
  | [] => some (false, [])
  | c' :: cs => if c' = c then some (true, cs) else some (false, c' :: cs)

/-- How much is left. -/
def remaining : Reader Nat := fun cs => some (cs.length, cs)

/-- Items apart by commas, up to `close`. -/
def commaList {α : Type} (item : Reader α) (close : Char) : Nat → Reader (List α)
  | 0 => failure
  | fuel + 1 => do
    let a ← item
    let c ← next
    if c = ',' then do
      let as ← commaList item close fuel
      pure (a :: as)
    else if c = close then pure [a]
    else failure

/-- Items apart by commas, or none, up to `close`. -/
def bracketed {α : Type} (item : Reader α) (close : Char) (fuel : Nat) : Reader (List α) := do
  let c ← peek
  if c = close then do
    char close
    pure []
  else commaList item close fuel

/-- The whole of a text. -/
def readAll {α : Type} (r : Reader α) (text : List Char) : Option α :=
  match r.run text with
  | some (a, []) => some a
  | _ => none

end Reader

/-- The reader takes `text` as `a`, before every rest that `follow` allows. -/
def Reads {α : Type} (follow : List Char → Prop) (r : Reader α) (text : List Char) (a : α) : Prop :=
  ∀ rest, follow rest → r.run (text ++ rest) = some (a, rest)

/-- Any rest. -/
def Anything (_rest : List Char) : Prop := True

/-- A rest where a run of `p` ends. -/
def Stops (p : Char → Bool) (rest : List Char) : Prop := ∀ c ∈ rest.head?, p c = false

section Rules

variable {α β : Type} {follow follow' : List Char → Prop} {r : Reader α} {f : α → Reader β}
variable {text text' : List Char} {a : α} {b : β} {c : Char} {p : Char → Bool}

theorem stops_nil : Stops p [] := fun _ h => by cases h

theorem stops_cons {cs : List Char} (h : p c = false) : Stops p (c :: cs) := by
  rintro c' hc'
  cases hc'
  exact h

theorem Reads.pure (a : α) : Reads follow (Pure.pure a : Reader α) [] a := fun _ _ => rfl

/-- **Readers in sequence**: what the second takes may follow what the first takes. -/
theorem Reads.bind (h : Reads follow r text a) (h' : Reads follow' (f a) text' b)
    (hfollow : ∀ rest, follow' rest → follow (text' ++ rest)) :
    Reads follow' (r >>= f) (text ++ text') b := by
  intro rest hrest
  have hfirst := h (text' ++ rest) (hfollow rest hrest)
  rw [StateT.run_bind, List.append_assoc, hfirst]
  exact h' rest hrest

/-- A first reader that stops by itself. -/
theorem Reads.andThen (h : Reads Anything r text a) (h' : Reads follow (f a) text' b) :
    Reads follow (r >>= f) (text ++ text') b :=
  h.bind h' fun _ _ => trivial

theorem Reads.weaken (h : Reads follow r text a) (hfollow : ∀ rest, follow' rest → follow rest) :
    Reads follow' r text a :=
  fun rest hrest => h rest (hfollow rest hrest)

/-- A second reader that takes nothing. -/
theorem Reads.finish (h : Reads follow r text a) (h' : Reads follow (f a) [] b) :
    Reads follow (r >>= f) text b := by
  have hboth : Reads follow (r >>= f) (text ++ []) b := Reads.bind h h' fun _ hrest => hrest
  rwa [List.append_nil] at hboth

theorem Reads.map {g : α → β} (h : Reads follow r text a) :
    Reads follow (r >>= fun a => Pure.pure (g a)) text (g a) :=
  h.finish (Reads.pure (g a))

theorem Reads.readAll (h : Reads follow r text a) (hnil : follow []) : r.readAll text = some a := by
  have hrun := h [] hnil
  rw [List.append_nil] at hrun
  unfold Reader.readAll
  rw [hrun]

theorem reads_next (c : Char) : Reads follow Reader.next [c] c := fun _ _ => rfl

theorem reads_char (c : Char) : Reads follow (Reader.char c) [c] () := by
  intro rest _
  unfold Reader.char
  rw [StateT.run_bind]
  change (if c = c then Pure.pure () else failure : Reader Unit).run rest = _
  rw [if_pos rfl]
  rfl

theorem reads_literal (cs : List Char) : Reads follow (Reader.literal cs) cs () := by
  induction cs with
  | nil => exact Reads.pure ()
  | cons c cs ih => exact (reads_char c).andThen ih

theorem reads_optional (c : Char) : Reads follow (Reader.optional c) [c] true :=
  fun _ _ => if_pos rfl

/-- The character is not there. -/
theorem reads_optional_absent : Reads (Stops fun c' => decide (c' = c)) (Reader.optional c) [] false := by
  intro rest hrest
  cases rest with
  | nil => rfl
  | cons c' cs =>
    have hne : ¬ c' = c := of_decide_eq_false (hrest c' rfl)
    exact if_neg hne

theorem Reads.remaining {g : Nat → Reader α} (h : ∀ n, text.length ≤ n → Reads follow (g n) text a) :
    Reads follow (Reader.remaining >>= g) text a := by
  intro rest hrest
  have hlength : text.length ≤ (text ++ rest).length := by
    rw [List.length_append]
    omega
  exact h _ hlength rest hrest

/-- A first look does not take the character. -/
theorem Reads.peek {cs : List Char} {g : Char → Reader α} (h : Reads follow (g c) (c :: cs) a) :
    Reads follow (Reader.peek >>= g) (c :: cs) a :=
  fun rest hrest => h rest hrest

end Rules

/-! ## Items apart by commas -/

def commaText (close : Char) : List (List Char) → List Char
  | [] => [close]
  | [text] => text ++ [close]
  | text :: more :: texts => text ++ ([','] ++ commaText close (more :: texts))

section Commas

variable {α : Type} {follow follow' : List Char → Prop} {item : Reader α} {close : Char}
variable {texts : List (List Char)} {values : List α}

theorem length_lt_commaText {text : List Char} (h : text ∈ texts) :
    text.length < (commaText close texts).length := by
  induction texts with
  | nil => cases h
  | cons t texts ih =>
    cases texts with
    | nil =>
      rw [List.mem_singleton.mp h]
      simp [commaText]
    | cons more texts =>
      unfold commaText
      rw [List.length_append, List.length_append]
      rcases List.mem_cons.mp h with rfl | h
      · have hpos : [','].length = 1 := rfl
        omega
      · have hmore := ih h
        omega

theorem length_le_commaText : texts.length ≤ (commaText close texts).length := by
  induction texts with
  | nil => exact Nat.zero_le _
  | cons t texts ih =>
    cases texts with
    | nil => simp [commaText]
    | cons more texts =>
      unfold commaText
      rw [List.length_append, List.length_append, List.length_cons]
      have hpos : [','].length = 1 := rfl
      omega

/-- One or more items. -/
theorem reads_commaList (hclose : close ≠ ',') (hcomma : ∀ rest, follow (',' :: rest))
    (hend : ∀ rest, follow (close :: rest)) (h : List.Forall₂ (Reads follow item) texts values) {fuel : Nat}
    (hne : texts ≠ []) (hfuel : texts.length ≤ fuel) :
    Reads follow' (Reader.commaList item close fuel) (commaText close texts) values := by
  induction h generalizing fuel with
  | nil => exact absurd rfl hne
  | @cons text a texts values hitem hitems ih =>
    obtain ⟨fuel, rfl⟩ : ∃ n, fuel = n + 1 := ⟨fuel - 1, by simp at hfuel; omega⟩
    cases hitems with
    | nil =>
      refine hitem.bind ?_ fun rest _ => hend rest
      refine (reads_next close).finish ?_
      rw [if_neg hclose, if_pos rfl]
      exact Reads.pure [a]
    | cons hnext hitems =>
      refine hitem.bind ?_ fun rest _ => hcomma _
      refine (reads_next ',').andThen ?_
      rw [if_pos rfl]
      exact (ih (List.cons_ne_nil _ _) (by simp at hfuel ⊢; omega)).map

/-- **Items apart by commas are read as their list.** -/
theorem reads_bracketed (hclose : close ≠ ',') (hcomma : ∀ rest, follow (',' :: rest))
    (hend : ∀ rest, follow (close :: rest)) (h : List.Forall₂ (Reads follow item) texts values)
    (hhead : ∀ text ∈ texts, ∃ c cs, text = c :: cs ∧ c ≠ close) {fuel : Nat} (hfuel : texts.length ≤ fuel) :
    Reads follow' (Reader.bracketed item close fuel) (commaText close texts) values := by
  cases texts with
  | nil =>
    cases h
    refine Reads.peek ?_
    rw [if_pos rfl]
    exact (reads_char close).finish (Reads.pure [])
  | cons text texts =>
    obtain ⟨c, cs, hc, hne⟩ := hhead text List.mem_cons_self
    have hitems : Reads follow' (Reader.commaList item close fuel) (commaText close (text :: texts)) values :=
      reads_commaList hclose hcomma hend h (List.cons_ne_nil _ _) hfuel
    obtain ⟨cs', hcs'⟩ : ∃ cs', commaText close (text :: texts) = c :: cs' := by
      subst hc
      cases texts <;> exact ⟨_, rfl⟩
    rw [hcs'] at hitems ⊢
    refine Reads.peek ?_
    rw [if_neg hne]
    exact hitems

end Commas

/-! ## Digits -/

/-- The value of a digit. -/
def digitValue (c : Char) : Option Nat :=
  if '0' ≤ c ∧ c ≤ '9' then some (c.toNat - 48)
  else if 'a' ≤ c ∧ c ≤ 'f' then some (c.toNat - 87)
  else if 'A' ≤ c ∧ c ≤ 'F' then some (c.toNat - 55)
  else none

theorem digitValue_digitChar {d : Nat} (h : d < 16) : digitValue (Nat.digitChar d) = some d := by
  have hall : ∀ d < 16, digitValue (Nat.digitChar d) = some d := by decide
  exact hall d h

/-- A digit of a base. -/
def Reader.digit (base : Nat) : Reader Nat := do
  let c ← Reader.next
  match digitValue c with
  | some d => if d < base then pure d else failure
  | none => failure

theorem reads_digit {base d : Nat} {follow : List Char → Prop} (hd : d < base) (hbase : base ≤ 16) :
    Reads follow (Reader.digit base) [Nat.digitChar d] d := by
  intro rest _
  unfold Reader.digit
  rw [StateT.run_bind]
  change (match digitValue (Nat.digitChar d) with
    | some d => if d < base then Pure.pure d else failure
    | none => failure : Reader Nat).run rest = _
  rw [digitValue_digitChar (hd.trans_le hbase)]
  dsimp only
  rw [if_pos hd]
  rfl

/-- A numeral of `width` digits. -/
def fixedDigits (base : Nat) : Nat → Nat → List Char
  | 0, _ => []
  | width + 1, n => fixedDigits base width (n / base) ++ [Nat.digitChar (n % base)]

def Reader.fixed (base : Nat) : Nat → Reader Nat
  | 0 => pure 0
  | width + 1 => do
    let n ← Reader.fixed base width
    let d ← Reader.digit base
    pure (n * base + d)

section Fixed

variable {base width n : Nat} {follow : List Char → Prop}

theorem length_fixedDigits : (fixedDigits base width n).length = width := by
  induction width generalizing n with
  | zero => rfl
  | succ width ih =>
    unfold fixedDigits
    rw [List.length_append, ih]
    rfl

/-- **A numeral of a given width is read as its number.** -/
theorem reads_fixed (hbase : 1 < base) (hbase' : base ≤ 16) (hn : n < base ^ width) :
    Reads follow (Reader.fixed base width) (fixedDigits base width n) n := by
  induction width generalizing n follow with
  | zero =>
    rw [pow_zero, Nat.lt_one_iff] at hn
    rw [hn]
    exact Reads.pure 0
  | succ width ih =>
    have hhigh : n / base < base ^ width := Nat.div_lt_of_lt_mul (by rwa [pow_succ'] at hn)
    have hlow : n % base < base := Nat.mod_lt n (by omega)
    have hsum : n / base * base + n % base = n := Nat.div_add_mod' n base
    have hlast : Reads follow (Reader.digit base >>= fun d => pure (n / base * base + d))
        [Nat.digitChar (n % base)] (n / base * base + n % base) :=
      (reads_digit hlow hbase').map
    rw [hsum] at hlast
    exact (ih hhigh).andThen hlast

end Fixed

/-! ## Decimal numerals -/

/-- The longest run of decimal digits. -/
def Reader.digitRun : Reader (List Char) := fun cs => some (cs.span Char.isDigit)

/-- A decimal numeral without leading zeros. -/
def Reader.numeral : Reader Nat := do
  let ds ← Reader.digitRun
  if Nat.toDigits 10 (Nat.ofDigitChars 10 ds 0) = ds then pure (Nat.ofDigitChars 10 ds 0) else failure

theorem reads_digitRun {ds : List Char} (hds : ∀ c ∈ ds, c.isDigit = true) :
    Reads (Stops Char.isDigit) Reader.digitRun ds ds := by
  intro rest hrest
  have hstop : rest.takeWhile Char.isDigit = [] ∧ rest.dropWhile Char.isDigit = rest := by
    cases rest with
    | nil => exact ⟨rfl, rfl⟩
    | cons c cs =>
      have hc : ¬ c.isDigit = true := by simp [hrest c rfl]
      exact ⟨List.takeWhile_cons_of_neg hc, List.dropWhile_cons_of_neg hc⟩
  change some (List.span Char.isDigit (ds ++ rest)) = _
  rw [List.span_eq_takeWhile_dropWhile, List.takeWhile_append_of_pos hds,
    List.dropWhile_append_of_pos hds, hstop.1, hstop.2, List.append_nil]

/-- **A decimal numeral is read as its number.** -/
theorem reads_numeral (n : Nat) :
    Reads (Stops Char.isDigit) Reader.numeral (Nat.toDigits 10 n) n := by
  have hds : ∀ c ∈ Nat.toDigits 10 n, c.isDigit = true :=
    fun c hc => Nat.isDigit_of_mem_toDigits (by decide) (by decide) hc
  have hvalue : Nat.ofDigitChars 10 (Nat.toDigits 10 n) 0 = n := Nat.ofDigitChars_ten_toDigits
  refine (reads_digitRun hds).finish ?_
  rw [hvalue, if_pos rfl]
  exact Reads.pure n

/-- The digits of a numeral of a given width, and their value. -/
theorem isDigit_fixedDigits {width n : Nat} : ∀ c ∈ fixedDigits 10 width n, c.isDigit = true := by
  induction width generalizing n with
  | zero => exact fun _ h => absurd h List.not_mem_nil
  | succ width ih =>
    intro c hc
    rcases List.mem_append.mp hc with hc | hc
    · exact ih c hc
    · rw [List.mem_singleton.mp hc, Nat.isDigit_digitChar]
      exact decide_eq_true (Nat.mod_lt n (by decide))

theorem ofDigitChars_fixedDigits {width n : Nat} (hn : n < 10 ^ width) :
    Nat.ofDigitChars 10 (fixedDigits 10 width n) 0 = n := by
  induction width generalizing n with
  | zero =>
    rw [pow_zero, Nat.lt_one_iff] at hn
    rw [hn]
    rfl
  | succ width ih =>
    have hhigh : n / 10 < 10 ^ width := Nat.div_lt_of_lt_mul (by rwa [pow_succ'] at hn)
    unfold fixedDigits
    rw [Nat.ofDigitChars_append, ih hhigh, Nat.ofDigitChars_cons_digitChar_of_lt_ten (Nat.mod_lt n (by decide)),
      Nat.ofDigitChars_nil]
    exact Nat.div_add_mod n 10

end LocalDataPlatform.Text
