import Mathlib.Data.List.Basic

/-!
# Loops that may be refused

A loop whose turns may fail is a `foldlM` in `Except`.

* `bind_eq_ok` — how a sequence of two steps succeeds.
* `foldlM_invariant` — what each turn preserves, the loop preserves, indexed by the items done.
* `foldlM_total` — a loop of turns that always succeed succeeds.
* `foldl_filter_of_skip` — a loop may leave out the items on which a turn does nothing.
-/

set_option autoImplicit false

namespace Runs

universe u v

variable {ε α β : Type u} {ι : Type v}

theorem bind_eq_ok {x : Except ε α} {f : α → Except ε β} {b : β} :
    (x >>= f) = .ok b ↔ ∃ a, x = .ok a ∧ f a = .ok b := by
  constructor
  · intro h
    cases x with
    | error e => cases h
    | ok a => exact ⟨a, rfl, h⟩
  · rintro ⟨a, rfl, hf⟩
    exact hf

variable {turn : β → ι → Except ε β}

/-- **What each turn preserves, the loop preserves.** -/
theorem foldlM_invariant {P : List ι → β → Prop}
    (hstep : ∀ done item b b', P done b → turn b item = .ok b' → P (done ++ [item]) b') :
    ∀ (items done : List ι) {b b' : β}, P done b → items.foldlM turn b = .ok b' →
      P (done ++ items) b'
  | [], done, b, b', hb, h => by
    cases h
    rwa [List.append_nil]
  | item :: items, done, b, b', hb, h => by
    rw [List.foldlM_cons] at h
    obtain ⟨next, hturn, hrest⟩ := bind_eq_ok.mp h
    have hdone := foldlM_invariant hstep items (done ++ [item]) (hstep done item b next hb hturn) hrest
    rwa [List.append_assoc] at hdone

/-- A loop of turns that always succeed succeeds. -/
theorem foldlM_total : ∀ (items : List ι) (b : β), (∀ item ∈ items, ∀ b, ∃ b', turn b item = .ok b') →
    ∃ b', items.foldlM turn b = .ok b'
  | [], b, _ => ⟨b, rfl⟩
  | item :: items, b, h => by
    obtain ⟨next, hturn⟩ := h item List.mem_cons_self b
    obtain ⟨b', hrest⟩ := foldlM_total items next (fun i hi => h i (List.mem_cons_of_mem _ hi))
    exact ⟨b', by rw [List.foldlM_cons, hturn]; exact hrest⟩

/-- **A loop may leave out the items on which a turn does nothing.** -/
theorem foldl_filter_of_skip {f : β → ι → β} {p : ι → Bool} : ∀ (items : List ι) (b : β),
    (∀ item ∈ items, p item = false → ∀ b, f b item = b) →
    items.foldl f b = (items.filter p).foldl f b
  | [], _, _ => rfl
  | item :: items, b, h => by
    have hrest := foldl_filter_of_skip items (f b item) (fun i hi => h i (List.mem_cons_of_mem _ hi))
    rw [List.foldl_cons, hrest]
    cases hp : p item with
    | true => rw [List.filter_cons_of_pos hp, List.foldl_cons]
    | false => rw [List.filter_cons_of_neg (by simp [hp]), h item List.mem_cons_self hp b]

end Runs
