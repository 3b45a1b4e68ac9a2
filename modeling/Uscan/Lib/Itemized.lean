import Mathlib.Data.List.Basic
import Mathlib.Tactic.Common

/-!
# Lists of encoded items

A list that is a concatenation of encoded items, and the loop that reads it with a cursor. `Itemized
enc R s is` says that `s` is the items `is`, one after the other, each in the relation `R` to what
follows it; `R` is what the reader asks of an item before it goes on. `ItemLoop` is what a step of
the loop does: it takes an item, or it gives up where no item can be taken. From it follows what a
whole run does: `ItemLoop.of_itemized` if the rest of the data is a list of items, and
`ItemLoop.of_not_itemized` if it is not.
-/

namespace Uscan

variable {σ ι S γ : Type}

/-- The list is a concatenation of encoded items, each in the relation `R` to what follows it. -/
inductive Itemized (enc : ι → List σ) (R : ι → List σ → Prop) : List σ → List ι → Prop
  /-- No items. -/
  | nil : Itemized enc R [] []
  /-- An item and the rest. -/
  | cons {i : ι} {rest : List σ} {is : List ι} (hi : R i rest) (hrest : Itemized enc R rest is) :
      Itemized enc R (enc i ++ rest) (i :: is)

variable {enc : ι → List σ} {R : ι → List σ → Prop}

/-- A list of items is their concatenation. -/
theorem Itemized.eq_flatMap {s : List σ} {is : List ι} (h : Itemized enc R s is) :
    s = is.flatMap enc := by
  induction h with
  | nil => rfl
  | cons hi hrest ih => rw [List.flatMap_cons, ← ih]

/-- A loop that reads the items of `data` into a state: `loop pos s` goes on at `pos` with the state
`s`. It ends with `fin` of the state, or with `bad`. -/
structure ItemLoop (data : List σ) (enc : ι → List σ) (R : ι → List σ → Prop) (upd : S → ι → S)
    (loop : ℕ → S → γ) (fin : S → γ) (bad : γ) : Prop where
  /-- An item has an element at least. -/
  enc_ne : ∀ i, enc i ≠ []
  /-- At the end of the data the loop ends. -/
  done : ∀ pos s, data.length ≤ pos → loop pos s = fin s
  /-- An item is taken. -/
  item : ∀ pos s i rest, data.drop pos = enc i ++ rest → R i rest →
    loop pos s = loop (pos + (enc i).length) (upd s i)
  /-- Without an item to take, the loop gives up. -/
  stuck : ∀ pos s, pos < data.length → (∀ i rest, data.drop pos = enc i ++ rest → ¬ R i rest) →
    loop pos s = bad

namespace ItemLoop

variable {data : List σ} {upd : S → ι → S} {loop : ℕ → S → γ} {fin : S → γ} {bad : γ}

/-- What follows an item. -/
theorem drop_add {x rest : List σ} {pos : ℕ} (h : data.drop pos = x ++ rest) :
    data.drop (pos + x.length) = rest := by
  rw [← List.drop_drop, h, List.drop_left]

/-- On a list of items the loop takes them all. -/
theorem of_itemized (hloop : ItemLoop data enc R upd loop fin bad) {pos : ℕ} {is : List ι}
    (h : Itemized enc R (data.drop pos) is) (s : S) : loop pos s = fin (is.foldl upd s) := by
  generalize hd : data.drop pos = d at h
  induction h generalizing pos s with
  | nil => exact hloop.done pos s (List.drop_eq_nil_iff.mp hd)
  | cons hi hrest ih => rw [hloop.item pos s _ _ hd hi, ih _ (drop_add hd), List.foldl_cons]

/-- On anything else it gives up. The induction is on how much is left: an item that can be taken
leaves something that is not a list of items either. -/
theorem of_not_itemized (hloop : ItemLoop data enc R upd loop fin bad) {pos : ℕ}
    (h : ∀ is, ¬ Itemized enc R (data.drop pos) is) (s : S) : loop pos s = bad := by
  induction hn : data.length - pos using Nat.strongRecOn generalizing pos s with
  | ind n ih =>
    have hlt : pos < data.length := by
      by_contra hge
      rw [List.drop_eq_nil_of_le (Nat.not_lt.mp hge)] at h
      exact h [] .nil
    by_cases hitem : ∃ i rest, data.drop pos = enc i ++ rest ∧ R i rest
    · obtain ⟨i, rest, hd, hi⟩ := hitem
      have hpos := List.length_pos_iff.mpr (hloop.enc_ne i)
      rw [hloop.item pos s i rest hd hi]
      refine ih _ (by omega) ?_ _ rfl
      intro is his
      rw [drop_add hd] at his
      exact h (i :: is) (hd ▸ .cons hi his)
    · refine hloop.stuck pos s hlt ?_
      intro i rest hd hi
      exact hitem ⟨i, rest, hd, hi⟩

end ItemLoop

end Uscan
