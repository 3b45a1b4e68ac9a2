import Mathlib.Algebra.GroupWithZero.Nat
import Mathlib.Algebra.Order.BigOperators.Group.List
import Mathlib.Data.List.DropRight
import Mathlib.Tactic.Common

/-!
# Splitting and joining

How many parts a list is split into, and what stands in joined parts. A list is also cut at the last
element without a property (`rtakeWhile_append_cons`). Parts of known lengths are determined by the
joined parts (`intercalate_append_inj`); `chunks` are such parts.

The parts of a path are joined by `joinPath`, whether the path is characters or bytes.
-/

namespace Uscan

variable {α : Type}

/-- Behind the last element without a property stands what has it. -/
theorem rtakeWhile_append_cons {p : α → Bool} {a : α} {r : List α} (l : List α)
    (hr : ∀ b ∈ r, p b = true) (ha : p a = false) : (l ++ a :: r).rtakeWhile p = r := by
  have hrev : ∀ b ∈ r.reverse, p b = true := fun b hb => hr b (List.mem_reverse.mp hb)
  rw [List.rtakeWhile, List.reverse_append, List.reverse_cons, List.append_assoc,
    List.singleton_append, List.takeWhile_append_of_pos hrev,
    List.takeWhile_cons_of_neg (by rw [ha]; exact Bool.false_ne_true), List.append_nil,
    List.reverse_reverse]

/-- Before it stands the rest of the list. -/
theorem rdropWhile_append_cons {p : α → Bool} {a : α} {r : List α} (l : List α)
    (hr : ∀ b ∈ r, p b = true) (ha : p a = false) :
    (l ++ a :: r).rdropWhile p = l ++ [a] := by
  have h := List.rdropWhile_append_rtakeWhile (p := p) (l := l ++ a :: r)
  rw [rtakeWhile_append_cons l hr ha, List.append_cons] at h
  rw [List.append_cons]
  exact List.append_cancel_right h

/-- A text is split into one part more than it has separators. -/
theorem length_splitOn [BEq α] [LawfulBEq α] (a : α) (xs : List α) :
    (xs.splitOn a).length = xs.count a + 1 := by
  induction xs with
  | nil => rfl
  | cons x xs ih =>
    rw [List.splitOn_cons_eq_if_modifyHead, List.count_cons]
    split_ifs with h
    · rw [List.length_cons, ih]
    · rw [List.length_modifyHead, ih]

/-- Joined parts have the separators of the parts, and one between any two of them. -/
theorem count_intercalate [BEq α] [LawfulBEq α] (a : α) {parts : List (List α)}
    (h : parts ≠ []) :
    ([a].intercalate parts).count a + 1 = (parts.map (List.count a)).sum + parts.length := by
  induction parts with
  | nil => exact absurd rfl h
  | cons part parts ih =>
    cases parts with
    | nil => simp
    | cons part' parts =>
      have hrest := ih (by simp)
      rw [List.intercalate_cons_cons, List.count_append, List.count_append,
        List.count_singleton_self, List.map_cons, List.sum_cons, List.length_cons]
      omega

/-- Joined parts have no further separator exactly when they are as many as the parts that the
text is split into. -/
theorem length_splitOn_intercalate [BEq α] [LawfulBEq α] {a : α}
    {parts : List (List α)} (h : parts ≠ []) :
    (([a].intercalate parts).splitOn a).length = parts.length ↔ ∀ part ∈ parts, a ∉ part := by
  have hcount := count_intercalate a h
  have hsum : (parts.map (List.count a)).sum = 0 ↔ ∀ part ∈ parts, a ∉ part := by
    rw [List.sum_eq_zero_iff_forall_eq_nat, List.forall_mem_map]
    exact forall₂_congr fun part _ => List.count_eq_zero
  rw [length_splitOn, ← hsum]
  omega

/-- No part of a split text has a separator. -/
theorem notMem_of_mem_splitOn [BEq α] [LawfulBEq α] {a : α} {xs part : List α}
    (h : part ∈ xs.splitOn a) : a ∉ part := by
  have hlen := length_splitOn_intercalate (a := a) (List.splitOn_ne_nil a xs)
  rw [List.intercalate_splitOn] at hlen
  exact hlen.mp rfl part h

/-- What stands in a part stands in the joined parts. -/
theorem mem_intercalate {sep part : List α} {parts : List (List α)} {c : α}
    (hpart : part ∈ parts) (hc : c ∈ part) : c ∈ sep.intercalate parts := by
  induction parts with
  | nil => exact absurd hpart List.not_mem_nil
  | cons first parts ih =>
    cases parts with
    | nil =>
      obtain rfl := List.mem_singleton.mp hpart
      rwa [List.intercalate_singleton]
    | cons second parts =>
      rw [List.intercalate_cons_cons]
      rcases List.mem_cons.mp hpart with rfl | hpart
      · exact List.mem_append_left _ (List.mem_append_left _ hc)
      · exact List.mem_append_right _ (ih hpart)

/-- What stands in the joined parts stands in a part or in the separator. -/
theorem mem_of_mem_intercalate {sep : List α} {parts : List (List α)} {c : α}
    (h : c ∈ sep.intercalate parts) : c ∈ sep ∨ ∃ part ∈ parts, c ∈ part := by
  induction parts with
  | nil => exact absurd h List.not_mem_nil
  | cons first parts ih =>
    cases parts with
    | nil =>
      rw [List.intercalate_singleton] at h
      exact .inr ⟨first, List.mem_singleton_self _, h⟩
    | cons second parts =>
      rw [List.intercalate_cons_cons, List.mem_append, List.mem_append] at h
      rcases h with (h | h) | h
      · exact .inr ⟨first, List.mem_cons_self, h⟩
      · exact .inl h
      · rcases ih h with hsep | ⟨part, hpart, hc⟩
        · exact .inl hsep
        · exact .inr ⟨part, List.mem_cons_of_mem _ hpart, hc⟩

/-- A function on the elements of joined parts. -/
theorem map_intercalate {β : Type} (f : α → β) (sep : List α) (parts : List (List α)) :
    (sep.intercalate parts).map f = (sep.map f).intercalate (parts.map (List.map f)) := by
  induction parts with
  | nil => rfl
  | cons first parts ih =>
    cases parts with
    | nil => rw [List.intercalate_singleton, List.map_singleton, List.intercalate_singleton]
    | cons second parts =>
      rw [List.map_cons] at ih
      rw [List.intercalate_cons_cons, List.map_append, List.map_append, ih, List.map_cons,
        List.map_cons, List.intercalate_cons_cons]

/-- Joined parts with a text after them determine the parts, if their lengths are known. -/
theorem intercalate_append_inj {sep : List α} {xs ys : List (List α)} {t u : List α}
    (hlen : xs.map List.length = ys.map List.length)
    (h : sep.intercalate xs ++ t = sep.intercalate ys ++ u) : xs = ys ∧ t = u := by
  induction xs generalizing ys with
  | nil =>
    obtain rfl := List.map_eq_nil_iff.mp hlen.symm
    exact ⟨rfl, h⟩
  | cons x xs ih =>
    obtain ⟨y, ys, rfl, hx, hxs⟩ := List.map_eq_cons_iff.mp hlen.symm
    cases xs with
    | nil =>
      obtain rfl := List.map_eq_nil_iff.mp hxs
      rw [List.intercalate_singleton, List.intercalate_singleton] at h
      obtain ⟨rfl, htail⟩ := List.append_inj h hx.symm
      exact ⟨rfl, htail⟩
    | cons x' xs =>
      obtain ⟨y', ys, rfl, -, -⟩ := List.map_eq_cons_iff.mp hxs
      rw [List.intercalate_cons_cons, List.intercalate_cons_cons, List.append_assoc,
        List.append_assoc, List.append_assoc, List.append_assoc] at h
      obtain ⟨rfl, hrest⟩ := List.append_inj h hx.symm
      obtain ⟨hparts, htail⟩ := ih hxs.symm (List.append_cancel_left hrest)
      exact ⟨congrArg (x :: ·) hparts, htail⟩

/-! ## Chunks -/

/-- `slice::chunks`: the parts of `n` elements, the last one of which may be shorter. -/
def chunks (n : ℕ) (s : List α) : List (List α) :=
  if _h : s = [] ∨ n = 0 then [] else s.take n :: chunks n (s.drop n)
termination_by s.length
decreasing_by
  have := List.length_pos_iff.mpr fun hs => _h (.inl hs)
  rw [List.length_drop]
  omega

/-- Nothing has no chunks. -/
theorem chunks_nil (n : ℕ) : chunks n ([] : List α) = [] := by
  rw [chunks, dif_pos (.inl rfl)]

/-- The first chunk, and those of the rest. -/
theorem chunks_of_ne_nil {n : ℕ} (hn : 0 < n) {s : List α} (hs : s ≠ []) :
    chunks n s = s.take n :: chunks n (s.drop n) := by
  rw [chunks, dif_neg (not_or.mpr ⟨hs, hn.ne'⟩)]

/-- The chunks of a list are the list. -/
theorem flatten_chunks {n : ℕ} (hn : 0 < n) (s : List α) : (chunks n s).flatten = s := by
  induction s using chunks.induct n with
  | case1 s h =>
    obtain rfl := h.resolve_right hn.ne'
    rw [chunks_nil, List.flatten_nil]
  | case2 s h ih =>
    rw [chunks_of_ne_nil hn (not_or.mp h).1, List.flatten_cons, ih, List.take_append_drop]

/-- The lengths of the chunks depend on the length of the list only. -/
theorem map_length_chunks {n : ℕ} (hn : 0 < n) {s t : List α} (h : s.length = t.length) :
    (chunks n s).map List.length = (chunks n t).map List.length := by
  induction s using chunks.induct n generalizing t with
  | case1 s hs =>
    obtain rfl := hs.resolve_right hn.ne'
    obtain rfl := List.eq_nil_of_length_eq_zero h.symm
    rfl
  | case2 s hs ih =>
    obtain ⟨hs, -⟩ := not_or.mp hs
    have ht : t ≠ [] := List.length_pos_iff.mp (h ▸ List.length_pos_iff.mpr hs)
    have hdrop : (s.drop n).length = (t.drop n).length := by
      rw [List.length_drop, List.length_drop, h]
    rw [chunks_of_ne_nil hn hs, chunks_of_ne_nil hn ht, List.map_cons, List.map_cons, ih hdrop,
      List.length_take, List.length_take, h]

/-! ## Paths -/

/-- `Path::join`, with a relative path after it, where `slash` separates the parts. -/
def joinPath [DecidableEq α] (slash : α) (path name : List α) : List α :=
  if path = [] ∨ path.getLast? = some slash then path ++ name else path ++ slash :: name

/-- A path that is joined ends in its last part. -/
theorem exists_joinPath [DecidableEq α] (slash : α) (path name : List α) :
    ∃ front, joinPath slash path name = front ++ name := by
  rw [joinPath]
  split_ifs
  · exact ⟨path, rfl⟩
  · exact ⟨path ++ [slash], by rw [List.append_assoc, List.singleton_append]⟩

end Uscan
