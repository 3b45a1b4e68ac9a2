import Uscan.Lib.Regex

/-!
# Scanners that follow a regular expression

A scanner written by hand goes through a text from left to right. Here it is a function of the part
it has passed and the part in front of it. `Follows fail r k k'` says that the scanner `k` fails
where `r` does not match, and otherwise goes on as `k'` after the match. A scanner of several steps
follows the sequence of what its steps follow, if that sequence needs no backtracking
(`Follows.seq`).
-/

namespace Uscan.Re

variable {α γ : Type} {fail : γ} {k k' k'' : List α → List α → γ}

/-- The scanner `k` matches `r` and goes on as `k'`. -/
def Follows (fail : γ) (r : Re α) (k k' : List α → List α → γ) : Prop :=
  ∀ u v, k u v = (first r v).elim fail fun h => k' (u ++ h.text) h.rest

/-- A step that passes over a given text. -/
theorem follows_lit [DecidableEq α] {w : List α} (hpos : ∀ u t, k u (w ++ t) = k' (u ++ w) t)
    (hneg : ∀ u v, ¬ w <+: v → k u v = fail) : Follows fail (lit w) k k' := by
  intro u v
  by_cases h : w <+: v
  · obtain ⟨t, rfl⟩ := h
    rw [hpos, first_lit_append]
    rfl
  · rw [hneg u v h, first_lit_neg h]
    rfl

/-- A step that passes over the elements of a class. -/
theorem follows_many {p : α → Bool}
    (h : ∀ u v, k u v = k' (u ++ v.takeWhile p) (v.dropWhile p)) : Follows fail (many p) k k' := by
  intro u v
  rw [h, first_many]
  rfl

/-- A step that passes over the elements of a class, of which there must be one. -/
theorem follows_many1 {p : α → Bool}
    (hpos : ∀ u v, v.takeWhile p ≠ [] → k u v = k' (u ++ v.takeWhile p) (v.dropWhile p))
    (hneg : ∀ u v, v.takeWhile p = [] → k u v = fail) : Follows fail (many1 p) k k' := by
  intro u v
  by_cases h : v.takeWhile p = []
  · rw [hneg u v h, first_many1_neg h]
    rfl
  · cases v with
    | nil => exact absurd rfl h
    | cons a t =>
      have ha : p a = true := by
        by_contra hnot
        exact h (List.takeWhile_cons_of_neg hnot)
      rw [hpos u _ h, first_many1_pos ha]
      rfl

/-- Two steps, one after the other. -/
theorem Follows.seq {r q : Re α} (h : Follows fail r k k') (h' : Follows fail q k' k'')
    (hc : Commits r q) : Follows fail (seq r q) k k'' := by
  intro u v
  rw [h u v, hc.first_seq]
  cases first r v with
  | none => rfl
  | some x =>
    rw [Option.elim_some, h', Option.bind_some]
    cases first q x.rest with
    | none => rfl
    | some y => rw [Option.elim_some, Option.map_some, Option.elim_some, Hit.andThen,
        List.append_assoc]

end Uscan.Re
