import Mathlib.Data.List.DropRight
import Mathlib.Tactic.Common

/-!
# Bootstring

The decoder of Bootstring, the scheme that Punycode is an instance of: a text is a list of code
points, and its code is a text of basic ones. The basic code points of the text stand at the start
of the code, before the last delimiter. The others are inserted one after the other, each by a step
of a machine that counts through the pairs of a code point and a place for it. How far to count is
what the rest of the code says, in integers of variable length whose thresholds adapt.

`Writes` says what it is to write such an integer, without saying how, and `decodeFrom_writes` is
the step of the decoder on one. An encoder is right if each integer that it writes leads the machine
to the insertion that it stands for.

The decoder counts in `ℕ`, where the overflow that a decoder on machine words has to detect does
not arise.
-/

namespace Uscan

/-- The parameters of a Bootstring code. -/
structure Bootstring where
  /-- The number of digits. -/
  base : ℕ
  /-- The lowest threshold. -/
  tmin : ℕ
  /-- The highest threshold. -/
  tmax : ℕ
  /-- The skew of the adaptation of the bias. -/
  skew : ℕ
  /-- What the first integer is damped by. -/
  damp : ℕ
  /-- The bias before the first adaptation. -/
  initialBias : ℕ
  /-- The first code point that is not basic. -/
  initialN : ℕ
  /-- What separates the basic code points from the integers. -/
  delimiter : Char
  /-- The value of a symbol as a digit. -/
  value : Char → Option ℕ
  tmin_pos : 0 < tmin
  tmin_le : tmin ≤ tmax
  tmax_lt : tmax < base
  tmin_succ_lt : tmin + 1 < base
  value_delimiter : value delimiter = none

namespace Bootstring

variable (B : Bootstring)

/-! ## Integers of variable length -/

/-- The threshold at position `k`: a digit below it ends the integer. -/
def threshold (bias k : ℕ) : ℕ :=
  if k ≤ bias + B.tmin then B.tmin else if bias + B.tmax ≤ k then B.tmax else k - bias

/-- The symbols write an integer, from position `k` on. -/
inductive Writes (bias : ℕ) : ℕ → ℕ → List Char → Prop
  /-- The last digit is below its threshold. -/
  | last {k d : ℕ} {c : Char} (hc : B.value c = some d) (hd : d < B.threshold bias k) :
      Writes bias k d [c]
  /-- The digit of a higher position counts as many times as this one can go on. -/
  | digit {k d q : ℕ} {c : Char} {x : List Char} (hc : B.value c = some d)
      (hd : B.threshold bias k ≤ d) (hx : Writes bias (k + B.base) q x) :
      Writes bias k (d + q * (B.base - B.threshold bias k)) (c :: x)

/-- Reads an integer, whose digits count `w` times, on top of `i`: returns the sum and what is
left. -/
def decodeInt (bias : ℕ) : List Char → ℕ → ℕ → ℕ → Option (ℕ × List Char)
  | [], _, _, _ => none
  | c :: s, k, w, i => do
    let d ← B.value c
    if d < B.threshold bias k then return (i + d * w, s)
    else decodeInt bias s (k + B.base) (w * (B.base - B.threshold bias k)) (i + d * w)

/-- The adaptation of the bias, after `delta` has been scaled. -/
def adaptLoop (delta k : ℕ) : ℕ :=
  if (B.base - B.tmin) * B.tmax / 2 < delta then adaptLoop (delta / (B.base - B.tmin)) (k + B.base)
  else k + (B.base - B.tmin + 1) * delta / (delta + B.skew)
termination_by delta
decreasing_by exact Nat.div_lt_self (by omega) (by have := B.tmin_succ_lt; omega)

/-- The bias after an integer `delta`, when there are `numpoints` code points. -/
def adapt (delta numpoints : ℕ) (firsttime : Bool) : ℕ :=
  let delta := if firsttime then delta / B.damp else delta / 2
  B.adaptLoop (delta + delta / numpoints) 0

/-! ## The decoder -/

/-- The state of the decoder. -/
structure State where
  /-- The code point to insert. -/
  n : ℕ
  /-- The place to insert it at. -/
  i : ℕ
  /-- The bias. -/
  bias : ℕ
  /-- The code points so far. -/
  output : List ℕ

/-- The step of the decoder that an integer causes, when it has been read on top of `i` and made
`i'` of it. -/
def State.insert (s : State) (i' : ℕ) : State where
  n := s.n + i' / (s.output.length + 1)
  i := i' % (s.output.length + 1) + 1
  bias := B.adapt (i' - s.i) (s.output.length + 1) (s.i = 0)
  output := s.output.insertIdx (i' % (s.output.length + 1)) (s.n + i' / (s.output.length + 1))

/-- An integer takes a symbol at least. -/
theorem decodeInt_length {bias : ℕ} {x s : List Char} {k w i i' : ℕ}
    (h : B.decodeInt bias x k w i = some (i', s)) : s.length < x.length := by
  induction x generalizing k w i with
  | nil => simp [decodeInt] at h
  | cons c x ih =>
    obtain ⟨d, -, h⟩ := Option.bind_eq_some_iff.mp h
    split_ifs at h
    · obtain ⟨-, rfl⟩ := Prod.mk.inj (Option.some.inj h)
      exact Nat.lt_succ_self _
    · exact Nat.lt_succ_of_lt (ih h)

/-- Decodes what follows the basic code points. -/
def decodeFrom (s : State) : List Char → Option (List ℕ)
  | [] => some s.output
  | c :: x =>
    match _h : B.decodeInt s.bias (c :: x) B.base 1 s.i with
    | none => none
    | some (i', rest) => decodeFrom (s.insert B i') rest
termination_by x => x.length
decreasing_by exact B.decodeInt_length (by assumption)

/-- The basic code points of a code, and what follows them. A delimiter that nothing stands before
is none. -/
def split (x : List Char) : List Char × List Char :=
  let ext := x.rtakeWhile (· != B.delimiter)
  let basic := (x.rdropWhile (· != B.delimiter)).dropLast
  if basic = [] then ([], x) else (basic, ext)

/-- The code points that a code stands for, if it is one. -/
def decode (x : List Char) : Option (List ℕ) :=
  let (basic, ext) := B.split x
  if basic.all (·.toNat < B.initialN) then
    B.decodeFrom ⟨B.initialN, 0, B.initialBias, basic.map Char.toNat⟩ ext
  else none

/-! ## What it reads -/

variable {B}

/-- No digit of an integer is the delimiter. -/
theorem Writes.delimiter_notMem {bias k q : ℕ} {x : List Char} (h : B.Writes bias k q x) :
    B.delimiter ∉ x := by
  induction h with
  | last hc hd =>
    rw [List.mem_singleton]
    rintro rfl
    rw [B.value_delimiter] at hc
    cases hc
  | digit hc hd hx ih =>
    rw [List.mem_cons]
    rintro (rfl | hmem)
    · rw [B.value_delimiter] at hc
      cases hc
    · exact ih hmem

/-- An integer is written with a symbol at least. -/
theorem Writes.ne_nil {bias k q : ℕ} {x : List Char} (h : B.Writes bias k q x) : x ≠ [] := by
  cases h <;> exact List.cons_ne_nil _ _

/-- A written integer is read, whatever follows it. The induction is on how it is written, with the
weight and the sum of the digits before. -/
theorem Writes.decodeInt_eq {bias k q : ℕ} {x : List Char} (h : B.Writes bias k q x)
    (rest : List Char) (w i : ℕ) :
    B.decodeInt bias (x ++ rest) k w i = some (i + q * w, rest) := by
  induction h generalizing w i with
  | last hc hd =>
    rw [List.singleton_append, decodeInt, hc, Option.bind_eq_bind, Option.bind_some, if_pos hd]
    rfl
  | digit hc hd hx ih =>
    rw [List.cons_append, decodeInt, hc, Option.bind_eq_bind, Option.bind_some,
      if_neg (Nat.not_lt.mpr hd), ih, Nat.add_mul, Nat.mul_right_comm, Nat.mul_assoc, Nat.add_assoc]

/-- The step of the decoder on a written integer. -/
theorem decodeFrom_writes {s : State} {q : ℕ} {x : List Char} (h : B.Writes s.bias B.base q x)
    (rest : List Char) :
    B.decodeFrom s (x ++ rest) = B.decodeFrom (s.insert B (s.i + q)) rest := by
  obtain ⟨c, y, rfl⟩ := List.exists_cons_of_ne_nil h.ne_nil
  have hread := h.decodeInt_eq rest 1 s.i
  rw [Nat.mul_one] at hread
  rw [List.cons_append, decodeFrom]
  split
  · next hnone => rw [← List.cons_append, hread] at hnone; cases hnone
  · next i' rest' hsome =>
    rw [← List.cons_append, hread] at hsome
    obtain ⟨rfl, rfl⟩ := Prod.mk.inj (Option.some.inj hsome)
    rfl

/-- Basic code points and a delimiter are split off from integers. -/
theorem split_append {basic ext : List Char} (hbasic : basic ≠ []) (hext : B.delimiter ∉ ext) :
    B.split (basic ++ B.delimiter :: ext) = (basic, ext) := by
  have hne : ∀ c ∈ ext.reverse, (c != B.delimiter) = true := by
    intro c hc
    rw [bne_iff_ne]
    rintro rfl
    exact hext (List.mem_reverse.mp hc)
  have hrev : (basic ++ B.delimiter :: ext).reverse =
      ext.reverse ++ B.delimiter :: basic.reverse := by simp
  have htake : (basic ++ B.delimiter :: ext).rtakeWhile (· != B.delimiter) = ext := by
    rw [List.rtakeWhile, hrev, List.takeWhile_append_of_pos hne,
      List.takeWhile_cons_of_neg (by simp), List.append_nil, List.reverse_reverse]
  have hdrop : ((basic ++ B.delimiter :: ext).rdropWhile (· != B.delimiter)).dropLast = basic := by
    rw [List.rdropWhile, hrev, List.dropWhile_append_of_pos hne,
      List.dropWhile_cons_of_neg (by simp), List.reverse_cons, List.reverse_reverse,
      List.dropLast_concat]
  rw [split, htake, hdrop]
  exact if_neg hbasic

/-- Without a delimiter there are no basic code points. -/
theorem split_of_notMem {ext : List Char} (hext : B.delimiter ∉ ext) :
    B.split ext = ([], ext) := by
  have hdrop : ext.rdropWhile (· != B.delimiter) = [] := by
    rw [List.rdropWhile_eq_nil_iff]
    intro c hc
    rw [bne_iff_ne]
    rintro rfl
    exact hext hc
  rw [split, hdrop]
  exact if_pos rfl

end Bootstring

end Uscan
