import Mathlib.Data.List.Induction
import Mathlib.Order.Lattice
import Mathlib.Tactic.Common

/-!
# Records of a sequence

An element of a sequence is a record when it is greater than all elements before it, by a rank `f`.
The last record is the first element of the greatest rank (`getLast?_records`), and where the ranks
differ it does not depend on the order of the sequence (`FirstMax.perm`).
-/

namespace Uscan

section Records

variable {α β : Type} [LinearOrder β] (f : α → β)

/-- The records among the elements that follow `before`. -/
def recordsAfter (before : List α) : List α → List α
  | [] => []
  | a :: as =>
    if ∀ x ∈ before, f x < f a then a :: recordsAfter (before ++ [a]) as
    else recordsAfter (before ++ [a]) as

/-- The records of a sequence. -/
def records (as : List α) : List α := recordsAfter f [] as

variable {f}

/-- The last element is the only one whose record it can be. -/
theorem recordsAfter_concat (before as : List α) (a : α) :
    recordsAfter f before (as ++ [a]) =
      recordsAfter f before as ++ if ∀ x ∈ before ++ as, f x < f a then [a] else [] := by
  induction as generalizing before with
  | nil => simp [recordsAfter]
  | cons b as ih =>
    have hrest := ih (before ++ [b])
    rw [List.append_assoc, List.singleton_append] at hrest
    rw [List.cons_append, recordsAfter, recordsAfter, hrest]
    by_cases hb : ∀ x ∈ before, f x < f b
    · rw [if_pos hb, if_pos hb, List.cons_append]
    · rw [if_neg hb, if_neg hb]

/-- A sequence that goes on has one more record, or none. -/
theorem records_concat (as : List α) (a : α) :
    records f (as ++ [a]) = records f as ++ if ∀ x ∈ as, f x < f a then [a] else [] :=
  recordsAfter_concat [] as a

/-- The records are elements of the sequence. -/
theorem mem_of_mem_records {as : List α} {a : α} (h : a ∈ records f as) : a ∈ as := by
  induction as using List.reverseRecOn with
  | nil => exact h
  | append_singleton as b ih =>
    rw [records_concat] at h
    rcases List.mem_append.mp h with h | h
    · exact List.mem_append_left _ (ih h)
    · split_ifs at h
      · exact List.mem_append_right _ h
      · exact absurd h List.not_mem_nil

/-- An element has the greatest rank of a sequence, and is the first one of that rank. -/
def FirstMax (f : α → β) (as : List α) (a : α) : Prop :=
  ∃ before after, as = before ++ a :: after ∧ (∀ x ∈ before, f x < f a) ∧ ∀ x ∈ after, f x ≤ f a

/-- The first element of the greatest rank is an element. -/
theorem FirstMax.mem {as : List α} {a : α} (h : FirstMax f as a) : a ∈ as := by
  obtain ⟨before, after, rfl, -⟩ := h
  exact List.mem_append_right _ List.mem_cons_self

/-- No element has a greater rank. -/
theorem FirstMax.le {as : List α} {a : α} (h : FirstMax f as a) : ∀ x ∈ as, f x ≤ f a := by
  obtain ⟨before, after, rfl, hbefore, hafter⟩ := h
  intro x hx
  rcases List.mem_append.mp hx with hx | hx
  · exact (hbefore x hx).le
  · rcases List.mem_cons.mp hx with rfl | hx
    · exact le_rfl
    · exact hafter x hx

/-- A greater element that follows is the first one of the greatest rank. -/
theorem firstMax_concat_of_lt {as : List α} {a : α} (h : ∀ x ∈ as, f x < f a) :
    FirstMax f (as ++ [a]) a :=
  ⟨as, [], rfl, h, fun _ hx => absurd hx List.not_mem_nil⟩

/-- An element that is not greater and follows changes nothing. -/
theorem FirstMax.concat_of_le {as : List α} {a b : α} (h : FirstMax f as a) (hb : f b ≤ f a) :
    FirstMax f (as ++ [b]) a := by
  obtain ⟨before, after, rfl, hbefore, hafter⟩ := h
  refine ⟨before, after ++ [b], by simp, hbefore, fun x hx => ?_⟩
  rcases List.mem_append.mp hx with hx | hx
  · exact hafter x hx
  · rwa [List.mem_singleton.mp hx]

/-- The last record is the first element of the greatest rank. The induction is on the last
element. -/
theorem getLast?_records {as : List α} (h : as ≠ []) :
    ∃ a, (records f as).getLast? = some a ∧ FirstMax f as a := by
  induction as using List.reverseRecOn with
  | nil => exact absurd rfl h
  | append_singleton as b ih =>
    rw [records_concat]
    by_cases hb : ∀ x ∈ as, f x < f b
    · rw [if_pos hb]
      exact ⟨b, List.getLast?_concat, firstMax_concat_of_lt hb⟩
    · rw [if_neg hb, List.append_nil]
      have hne : as ≠ [] := by
        rintro rfl
        exact hb fun x hx => absurd hx List.not_mem_nil
      obtain ⟨a, ha, hmax⟩ := ih hne
      refine ⟨a, ha, hmax.concat_of_le ?_⟩
      by_contra hlt
      exact hb fun x hx => (hmax.le x hx).trans_lt (not_le.mp hlt)

/-- Where the ranks differ, all orders of a sequence have the same element of the greatest rank. -/
theorem FirstMax.perm {as as' : List α} {a a' : α} (h : FirstMax f as a) (h' : FirstMax f as' a')
    (hperm : as.Perm as') (hinj : ∀ x ∈ as, ∀ y ∈ as, f x = f y → x = y) : a = a' := by
  have ha' : a' ∈ as := hperm.mem_iff.mpr h'.mem
  have hle := h.le a' ha'
  have hge := h'.le a (hperm.mem_iff.mp h.mem)
  exact hinj a h.mem a' ha' (le_antisymm hge hle)

end Records

end Uscan
