import Mathlib.Tactic.Common
import Uscan.Lib.Bytes

/-!
# Readers of encoded data

A reader takes a value off the front of a list, or fails. `Reads r x a` says that the reader `r`
takes exactly `x`, whatever follows, and returns `a`; its rules go through a `do` block along the
parts of an encoding. `Reader.inside` reads from a region whose length is known and leaves nothing
of it, which is how a nested header is read, and `Reader.readAll` reads one record after the other
up to the end of the list. What it returns for a list of encoded records follows from the reader of
one record (`Reader.readAll_flatMap`).

`Takes r P` relates what a reader returns to the number of elements that it takes, in every run. Its
rules go through a block in the same way.
-/

namespace Uscan

/-- A reader of values of `α` from a list of `σ`. -/
abbrev Reader (σ α : Type) := StateT (List σ) Option α

namespace Reader

variable {σ α β : Type}

/-- The next element. -/
def elem : Reader σ σ := fun s =>
  match s with
  | [] => none
  | c :: s => some (c, s)

/-- The next `n` elements. -/
def takeN (n : ℕ) : Reader σ (List σ) := fun s =>
  if n ≤ s.length then some (s.take n, s.drop n) else none

/-- Fails unless `p` holds. -/
def require (p : Prop) [Decidable p] : Reader σ Unit := fun s =>
  if p then some ((), s) else none

/-- Reads with `r` from the next `n` elements, and fails unless it reads them all. -/
def inside (n : ℕ) (r : Reader σ α) : Reader σ α := do
  let s ← takeN n
  match r.run s with
  | some (a, []) => pure a
  | _ => failure

/-- Reads with `r` up to the end, at most `fuel` times. -/
def readLoop (r : Reader σ α) : ℕ → List σ → Option (List α)
  | _, [] => some []
  | 0, _ :: _ => none
  | fuel + 1, c :: s => do
    let (a, s) ← r.run (c :: s)
    let as ← readLoop r fuel s
    return a :: as

/-- Reads with `r` up to the end. No more values than elements can be read. -/
def readAll (r : Reader σ α) (s : List σ) : Option (List α) := readLoop r s.length s

/-! ## What a reader reads -/

/-- The reader takes exactly `x`, whatever follows, and returns `a`. -/
def Reads (r : Reader σ α) (x : List σ) (a : α) : Prop :=
  ∀ rest, r.run (x ++ rest) = some (a, rest)

/-- Returning a value reads nothing. -/
theorem reads_pure (a : α) : Reads (@pure (Reader σ) _ α a) [] a := fun _ => rfl

/-- The rule of sequencing: the second reader starts where the first one stopped. -/
theorem Reads.bind {r : Reader σ α} {f : α → Reader σ β} {x y : List σ} {a : α} {b : β}
    (hr : Reads r x a) (hf : Reads (f a) y b) : Reads (r >>= f) (x ++ y) b := by
  intro rest
  rw [StateT.run_bind, List.append_assoc, hr]
  exact hf rest

/-- A block fails if its second part fails after what the first one takes. -/
theorem Reads.bind_none {r : Reader σ α} {f : α → Reader σ β} {x rest : List σ} {a : α}
    (hr : Reads r x a) (hf : (f a).run rest = none) : (r >>= f).run (x ++ rest) = none := by
  rw [StateT.run_bind, hr]
  exact hf

/-- After the first part of a block, the second part reads. -/
theorem Reads.run_bind {r : Reader σ α} {f : α → Reader σ β} {x : List σ} {a : α}
    (hr : Reads r x a) (rest : List σ) : (r >>= f).run (x ++ rest) = (f a).run rest := by
  rw [StateT.run_bind, hr]
  rfl

/-- A reader that ends a block reads what it reads. -/
theorem Reads.map {r : Reader σ α} {f : α → β} {x : List σ} {a : α} (hr : Reads r x a) :
    Reads (do let c ← r; Pure.pure (f c)) x (f a) := by
  have h := hr.bind (f := fun c => Pure.pure (f c)) (reads_pure (f a))
  rwa [List.append_nil] at h

/-- The next element. -/
theorem reads_elem (c : σ) : Reads elem [c] c := fun _ => rfl

/-- As many elements as asked for. -/
theorem reads_takeN {n : ℕ} {x : List σ} (h : x.length = n) : Reads (takeN n) x x := by
  subst h
  intro rest
  show (if x.length ≤ (x ++ rest).length then _ else _) = _
  rw [if_pos (by simp), List.take_left, List.drop_left]

/-- A condition that holds reads nothing. -/
theorem Reads.require {p : Prop} [Decidable p] (h : p) {f : Unit → Reader σ α} {x : List σ} {a : α}
    (hf : Reads (f ()) x a) : Reads (Reader.require p >>= f) x a := by
  intro rest
  have hrun : (@Reader.require σ p _).run (x ++ rest) = some ((), x ++ rest) := if_pos h
  rw [StateT.run_bind, hrun]
  exact hf rest

/-- A region is read when its contents are. -/
theorem Reads.inside {r : Reader σ α} {x : List σ} {a : α} {n : ℕ} (hr : Reads r x a)
    (h : x.length = n) : Reads (inside n r) x a := by
  have hrun : r.run x = some (a, []) := by
    have hnil := hr []
    rwa [List.append_nil] at hnil
  have hbind := (reads_takeN h).bind (f := fun s => match r.run s with
    | some (a, []) => Pure.pure a
    | _ => failure) (y := []) (b := a) (by
      intro rest
      simp only [hrun]
      rfl)
  rwa [List.append_nil] at hbind

/-- A region fails if its contents do. -/
theorem inside_none {r : Reader σ α} {n : ℕ} (h : ∀ s, s.length ≤ n → r.run s = none)
    (s : List σ) : (inside n r).run s = none := by
  unfold inside
  rw [StateT.run_bind]
  show ((if n ≤ s.length then some (s.take n, s.drop n) else none) >>= _) = none
  split_ifs with hlen
  · have htake := h (s.take n) (by rw [List.length_take]; omega)
    simp only [Option.bind_eq_bind, Option.bind_some, htake]
    rfl
  · rfl

/-- A list of encoded records is read back, one record after the other. The induction is along the
records; each one uses up some fuel and at least one element. -/
theorem readLoop_flatMap {ι : Type} {r : Reader σ α} {enc : ι → List σ} {dec : ι → α} {xs : List ι}
    (hr : ∀ i ∈ xs, enc i ≠ [] ∧ Reads r (enc i) (dec i)) {fuel : ℕ} (hfuel : xs.length ≤ fuel) :
    readLoop r fuel (xs.flatMap enc) = some (xs.map dec) := by
  induction xs generalizing fuel with
  | nil => cases fuel <;> rfl
  | cons i xs ih =>
    obtain ⟨hne, hi⟩ := hr i List.mem_cons_self
    have hrest := fun fuel hfuel => @ih (fun j hj => hr j (List.mem_cons_of_mem _ hj)) fuel hfuel
    cases fuel with
    | zero => simp at hfuel
    | succ fuel =>
      obtain ⟨c, s, hs⟩ := List.exists_cons_of_ne_nil hne
      have hrun := hi (xs.flatMap enc)
      rw [List.flatMap_cons, hs, List.cons_append, readLoop]
      rw [hs, List.cons_append] at hrun
      rw [hrun]
      show (readLoop r fuel (xs.flatMap enc) >>= fun as => some (dec i :: as)) = _
      rw [hrest fuel (by simpa using hfuel)]
      rfl

/-- Encoded records fill at least one element each. -/
theorem length_le_flatMap {ι : Type} {enc : ι → List σ} {xs : List ι} (h : ∀ i ∈ xs, enc i ≠ []) :
    xs.length ≤ (xs.flatMap enc).length := by
  induction xs with
  | nil => simp
  | cons i xs ih =>
    have hi := List.length_pos_iff.mpr (h i List.mem_cons_self)
    have hrest := ih fun j hj => h j (List.mem_cons_of_mem _ hj)
    rw [List.flatMap_cons, List.length_append, List.length_cons]
    omega

/-- A list of encoded records is read back to its end. -/
theorem readAll_flatMap {ι : Type} {r : Reader σ α} {enc : ι → List σ} {dec : ι → α} {xs : List ι}
    (hr : ∀ i ∈ xs, enc i ≠ [] ∧ Reads r (enc i) (dec i)) :
    readAll r (xs.flatMap enc) = some (xs.map dec) :=
  readLoop_flatMap hr (length_le_flatMap fun i hi => (hr i hi).1)

/-- Records that a reader reads, and others that it fails on: what can be read to its end has no
record of the second kind. -/
theorem forall_of_readAll {ι : Type} {r : Reader σ α} {enc : ι → List σ} {dec : ι → α}
    {p : ι → Prop} {xs : List ι} (hr : ∀ i ∈ xs, p i → Reads r (enc i) (dec i))
    (hfail : ∀ i ∈ xs, ¬ p i → ∀ rest, r.run (enc i ++ rest) = none) (hne : ∀ i ∈ xs, enc i ≠ [])
    {as : List α} (h : readAll r (xs.flatMap enc) = some as) : ∀ i ∈ xs, p i := by
  have hloop : ∀ fuel as, readLoop r fuel (xs.flatMap enc) = some as → ∀ i ∈ xs, p i := by
    clear h as
    induction xs with
    | nil => exact fun _ _ _ i hi => absurd hi List.not_mem_nil
    | cons i xs ih =>
      intro fuel as h
      obtain ⟨c, s, hs⟩ := List.exists_cons_of_ne_nil (hne i List.mem_cons_self)
      cases fuel with
      | zero =>
        rw [List.flatMap_cons, hs] at h
        cases h
      | succ fuel =>
        rw [List.flatMap_cons, hs, List.cons_append, readLoop, ← List.cons_append, ← hs] at h
        -- The loop would stop at a record that the reader fails on.
        have hi : p i := by
          by_contra hi
          rw [hfail i List.mem_cons_self hi] at h
          cases h
        rw [hr i List.mem_cons_self hi] at h
        change (readLoop r fuel (xs.flatMap enc) >>= fun as => some (dec i :: as)) = some as at h
        obtain ⟨as', has', -⟩ := Option.bind_eq_some_iff.mp h
        have hrest := ih (fun j hj => hr j (List.mem_cons_of_mem _ hj))
          (fun j hj => hfail j (List.mem_cons_of_mem _ hj))
          (fun j hj => hne j (List.mem_cons_of_mem _ hj)) fuel as' has'
        exact List.forall_mem_cons.mpr ⟨hi, hrest⟩
  exact hloop _ _ h

/-! ## How much a reader takes -/

/-- What a reader returns and how many elements it takes are related by `P`. -/
def Takes (r : Reader σ α) (P : α → ℕ → Prop) : Prop :=
  ∀ s a rest, r.run s = some (a, rest) → ∃ n, s.length = n + rest.length ∧ P a n

/-- The rule of consequence. -/
theorem Takes.mono {r : Reader σ α} {P Q : α → ℕ → Prop} (hr : Takes r P)
    (h : ∀ a n, P a n → Q a n) : Takes r Q := by
  intro s a rest hrun
  obtain ⟨n, hn, hP⟩ := hr s a rest hrun
  exact ⟨n, hn, h a n hP⟩

/-- Returning a value takes nothing. -/
theorem takes_pure (a : α) : Takes (@pure (Reader σ) _ α a) fun b n => b = a ∧ n = 0 := by
  intro s b rest hrun
  cases hrun
  exact ⟨0, (Nat.zero_add _).symm, rfl, rfl⟩

/-- The rule of sequencing: a block takes what its two parts take. -/
theorem Takes.bind {r : Reader σ α} {f : α → Reader σ β} {P : α → ℕ → Prop} {Q : β → ℕ → Prop}
    (hr : Takes r P) (hf : ∀ a n, P a n → Takes (f a) fun b m => Q b (n + m)) :
    Takes (r >>= f) Q := by
  intro s b rest hrun
  rw [StateT.run_bind] at hrun
  obtain ⟨⟨a, mid⟩, hfirst, hsecond⟩ := Option.bind_eq_some_iff.mp hrun
  obtain ⟨n, hn, hP⟩ := hr s a mid hfirst
  obtain ⟨m, hm, hQ⟩ := hf a n hP mid b rest hsecond
  exact ⟨n + m, by omega, hQ⟩

/-- The rule for a first part that takes a number of elements. -/
theorem Takes.skip {r : Reader σ α} {f : α → Reader σ β} {k : ℕ} {Q : β → ℕ → Prop}
    (hr : Takes r fun _ n => n = k) (hf : ∀ a, Takes (f a) fun b m => Q b (k + m)) :
    Takes (r >>= f) Q := by
  refine hr.bind fun a n hn => ?_
  rw [hn]
  exact hf a

/-- One element. -/
theorem takes_elem : Takes (@elem σ) fun _ n => n = 1 := by
  intro s a rest hrun
  cases s with
  | nil => cases hrun
  | cons c s =>
    cases hrun
    exact ⟨1, by rw [List.length_cons, Nat.add_comm], rfl⟩

/-- As many elements as asked for. -/
theorem takes_takeN (n : ℕ) : Takes (@takeN σ n) fun x m => x.length = n ∧ m = n := by
  intro s x rest hrun
  change (if n ≤ s.length then some (s.take n, s.drop n) else none) = some (x, rest) at hrun
  split_ifs at hrun with hlen
  cases hrun
  exact ⟨n, by rw [List.length_drop]; omega, List.length_take_of_le hlen, rfl⟩

/-- A condition takes nothing, and holds. -/
theorem Takes.require {p : Prop} [Decidable p] {f : Unit → Reader σ α} {Q : α → ℕ → Prop}
    (hf : p → Takes (f ()) Q) : Takes (Reader.require p >>= f) Q := by
  intro s a rest hrun
  rw [StateT.run_bind] at hrun
  change ((if p then some ((), s) else none) >>= _) = _ at hrun
  split_ifs at hrun with hp
  · exact hf hp s a rest hrun
  · cases hrun

/-- A region is taken as a whole. -/
theorem Takes.inside {r : Reader σ α} {P : α → ℕ → Prop} (hr : Takes r P) (n : ℕ) :
    Takes (inside n r) fun a m => m = n ∧ P a n := by
  refine (takes_takeN n).bind fun s m ⟨hs, hm⟩ => ?_
  intro t a rest hrun
  cases hinner : r.run s with
  | none =>
    rw [hinner] at hrun
    cases hrun
  | some result =>
    obtain ⟨b, left⟩ := result
    rw [hinner] at hrun
    cases left with
    | cons c left => cases hrun
    | nil =>
      cases hrun
      obtain ⟨k, hk, hP⟩ := hr s a [] hinner
      rw [hs, List.length_nil, Nat.add_zero] at hk
      subst hk
      exact ⟨0, (Nat.zero_add _).symm, hm, hP⟩

/-! ## Integers -/

/-- A `u16` in network order. -/
def u16be : Reader UInt8 UInt16 := do
  let b0 ← elem
  let b1 ← elem
  return be16 b0 b1

/-- A little-endian `u16`. -/
def u16le : Reader UInt8 UInt16 := do
  let b0 ← elem
  let b1 ← elem
  return le16 b0 b1

/-- A little-endian `u32`. -/
def u32le : Reader UInt8 UInt32 := do
  let b0 ← elem
  let b1 ← elem
  let b2 ← elem
  let b3 ← elem
  return le32 b0 b1 b2 b3

/-- A `u16` has two bytes. -/
theorem takes_u16be : Takes u16be fun _ n => n = 2 :=
  takes_elem.skip fun _ => takes_elem.skip fun _ => (takes_pure _).mono fun _ _ h => by rw [h.2]

/-- The bytes of an integer in network order are read back. -/
theorem reads_u16be (x : UInt16) : Reads u16be (toBe16 x) x := fun rest =>
  congrArg (fun y => some (y, rest)) (be16_toBe16 x)

/-- The bytes of a little-endian integer are read back. -/
theorem reads_u32le (x : UInt32) : Reads u32le (toLe32 x) x := fun rest =>
  congrArg (fun y => some (y, rest)) (be32_toBe32 x)

/-- The bytes of an integer determine it. -/
theorem toLe32_inj {x y : UInt32} (h : toLe32 x = toLe32 y) : x = y := by
  have hx := reads_u32le x []
  rw [h, reads_u32le y []] at hx
  exact (congrArg Prod.fst (Option.some.inj hx)).symm

end Reader

end Uscan
