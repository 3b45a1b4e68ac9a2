import Mathlib.Tactic.Common
import Uscan.Lib.Bytes

/-!
# Readers with a cursor

A parser that moves a cursor through a list, and fails where it would read past the end. `Decodes r
x f` says both things that matter about such a parser `r` and an encoding `x`: where the encoding
stands at the cursor, `r` returns the value, with the cursor after it, and where the list ends
inside the encoding, `r` fails. Both go through a `do` block together (`Decodes.bind`), so that the
parser of a packet reads what was encoded, whatever follows it, and nothing else that is a start of
it.

Where an item may be written in more than one way, a relation says where it starts and where it
ends, and `Laid` that a list of items is written so, one after another. It is what a loop of such a
parser is about.
-/

namespace Uscan

variable {σ α β : Type}

/-- At a cursor in the list where `x` stands, `r` returns `f` of the cursor after it; where the list
ends inside `x`, it fails. -/
def Decodes (r : List σ → ℕ → Option β) (x : List σ) (f : ℕ → β) : Prop :=
  ∀ b p, p ≤ b.length →
    (Stands b p x → r b p = some (f (p + x.length))) ∧ (Cut b p x → r b p = none)

/-- Returning a value reads nothing. -/
theorem decodes_pure (f : ℕ → β) : Decodes (fun (_ : List σ) p => some (f p)) [] f :=
  fun _ _ _ => ⟨fun _ => rfl, fun h => absurd h not_cut_nil⟩

/-- The rule of sequencing: the second reader starts where the first one stopped. -/
theorem Decodes.bind {r : List σ → ℕ → Option (α × ℕ)} {k : List σ → α × ℕ → Option β}
    {x y : List σ} {a : α} {f : ℕ → β} (hr : Decodes r x fun q => (a, q))
    (hk : Decodes (fun b q => k b (a, q)) y f) : Decodes (fun b p => r b p >>= k b) (x ++ y) f := by
  intro b p hp
  obtain ⟨hreads, hfails⟩ := hr b p hp
  have hstop : Stands b p x → p + x.length ≤ b.length := by
    intro hx
    have hle := hx.length_le
    rw [List.length_drop] at hle
    omega
  constructor
  · intro h
    obtain ⟨hx, hy⟩ := stands_append.mp h
    show (r b p >>= k b) = _
    rw [hreads hx, List.length_append, ← Nat.add_assoc]
    exact (hk b _ (hstop hx)).1 hy
  · intro h
    show (r b p >>= k b) = _
    rcases cut_append.mp h with hx | ⟨hx, hy⟩
    · rw [hfails hx]
      rfl
    · rw [hreads hx]
      exact (hk b _ (hstop hx)).2 hy

/-- A reader at the start of an encoding, whatever follows it. -/
theorem Decodes.append {r : List σ → ℕ → Option β} {x : List σ} {f : ℕ → β} (h : Decodes r x f)
    (tail : List σ) : r (x ++ tail) 0 = some (f x.length) := by
  rw [(h (x ++ tail) 0 (Nat.zero_le _)).1 (stands_zero tail), Nat.zero_add]

/-- A proper prefix of an encoding is not read. -/
theorem Decodes.take {r : List σ → ℕ → Option β} {x : List σ} {f : ℕ → β} (h : Decodes r x f)
    {n : ℕ} (hn : n < x.length) : r (x.take n) 0 = none :=
  (h _ 0 (Nat.zero_le _)).2 (cut_take hn)

/-- The next element. -/
theorem decodes_getElem (a : σ) :
    Decodes (fun (b : List σ) p => b[p]?.map fun c => (c, p + 1)) [a] fun q => (a, q) := by
  intro b p _
  constructor
  · intro h
    simp only [h.head?, Option.map_some, List.length_singleton]
  · intro h
    simp only [h.getElem?_singleton, Option.map_none]

/-! ## Items one after another -/

/-- The items stand one after another from `p` to `stop`, each one as `At` says. -/
inductive Laid {ι : Type} (At : ι → ℕ → ℕ → Prop) : List ι → ℕ → ℕ → Prop where
  /-- No items. -/
  | nil {p : ℕ} : Laid At [] p p
  /-- An item and the others after it. -/
  | cons {i : ι} {is : List ι} {p q stop : ℕ} (h : At i p q) (rest : Laid At is q stop) :
      Laid At (i :: is) p stop

/-- The encodings of items, one after another, if each item may be written as its encoding. -/
theorem laid_flatMap {ι : Type} {At : ι → ℕ → ℕ → Prop} {enc : ι → List σ} {b : List σ}
    (hat : ∀ i p, Stands b p (enc i) → At i p (p + (enc i).length)) {is : List ι} {p : ℕ}
    (h : Stands b p (is.flatMap enc)) : Laid At is p (p + (is.flatMap enc).length) := by
  induction is generalizing p with
  | nil => exact .nil
  | cons i is ih =>
    rw [List.flatMap_cons] at h
    obtain ⟨hitem, hrest⟩ := stands_append.mp h
    refine .cons (hat i p hitem) ?_
    rw [List.flatMap_cons, List.length_append, ← Nat.add_assoc]
    exact ih hrest

end Uscan
