import Mathlib.Data.List.Forall2
import Uscan.Lib.Bytes

/-!
# Buffers of a fixed length

An array `[T; n]`, and the writes of a program into it: at an index and of a slice, which panic out
of range. A write covers its offsets and leaves the others as they are. A field is an offset with
what is written there; fields that are apart from each other can be written in any order, and each
one stands at its offset afterwards (`stands_writeAll`), among bytes that are as they were
(`getElem?_writeAll`).
-/

namespace Uscan

variable {ε α : Type} {n : ℕ}

/-- `[T; n]`. -/
structure Buffer (α : Type) (n : ℕ) where
  /-- The elements. -/
  elems : List α
  /-- There are `n` of them. -/
  length_eq : elems.length = n
  deriving DecidableEq

/-- What stands at offset `k` instead of `a` after `x` is written at offset `i`. -/
def cover (i : ℕ) (x : List α) (k : ℕ) (a : α) : α := if i ≤ k then x.getD (k - i) a else a

/-- A list, with `x` written over it at offset `i`. -/
def overwrite (b : List α) (i : ℕ) (x : List α) : List α := b.mapIdx (cover i x)

@[simp] theorem length_overwrite (b : List α) (i : ℕ) (x : List α) :
    (overwrite b i x).length = b.length :=
  List.length_mapIdx

namespace Buffer

/-- A buffer of one element. -/
def filled (n : ℕ) (a : α) : Buffer α n := ⟨List.replicate n a, List.length_replicate⟩

/-- A buffer, with `x` written over it at offset `i`. -/
def write (b : Buffer α n) (i : ℕ) (x : List α) : Buffer α n :=
  ⟨overwrite b.elems i x, (length_overwrite _ _ _).trans b.length_eq⟩

/-- `b[i] = a`. -/
def setAt (b : Buffer α n) (i : ℕ) (a : α) : Res ε (Buffer α n) :=
  if i < n then .ok (b.write i [a]) else .panicked

/-- `b[i..j].copy_from_slice(x)`. -/
def copyFromSlice (b : Buffer α n) (i j : ℕ) (x : List α) : Res ε (Buffer α n) :=
  if i ≤ j ∧ j ≤ n ∧ x.length = j - i then .ok (b.write i x) else .panicked

/-- `for x in b[i..j].iter_mut() { *x = a }`. -/
def fill (b : Buffer α n) (i j : ℕ) (a : α) : Res ε (Buffer α n) :=
  if i ≤ j ∧ j ≤ n then .ok (b.write i (List.replicate (j - i) a)) else .panicked

/-- `len` elements from offset `i` on. -/
def slice (b : Buffer α n) (i len : ℕ) (h : i + len ≤ n) : Buffer α len :=
  ⟨(b.elems.drop i).take len, by
    have := b.length_eq
    rw [List.length_take, List.length_drop]
    omega⟩

theorem ext {b c : Buffer α n} (h : b.elems = c.elems) : b = c := by
  cases b
  cases c
  cases h
  rfl

/-- A write inside the buffer. -/
theorem setAt_eq (b : Buffer α n) {i : ℕ} (h : i < n) (a : α) :
    (b.setAt i a : Res ε (Buffer α n)) = .ok (b.write i [a]) :=
  if_pos h

/-- A slice of the right length, written inside the buffer. -/
theorem copyFromSlice_eq (b : Buffer α n) {i j : ℕ} {x : List α} (hlen : x.length = j - i)
    (hij : i ≤ j) (hj : j ≤ n) : (b.copyFromSlice i j x : Res ε (Buffer α n)) = .ok (b.write i x) :=
  if_pos ⟨hij, hj, hlen⟩

/-- A buffer with fields written over it, one after the other. -/
def writeAll (b : Buffer α n) (fields : List (ℕ × List α)) : Buffer α n :=
  fields.foldl (fun b f => b.write f.1 f.2) b

end Buffer

/-! ## Writes -/

variable {b x y : List α} {i j k : ℕ}

/-- Inside a write, what is written stands there. -/
theorem cover_inside (hk : k < x.length) (i : ℕ) (a : α) : cover i x (i + k) a = x[k] := by
  rw [cover, if_pos (Nat.le_add_right i k), Nat.add_sub_cancel_left, List.getD_eq_getElem?_getD,
    List.getElem?_eq_getElem hk, Option.getD_some]

/-- Outside a write, nothing changes. -/
theorem cover_outside (h : k < i ∨ i + x.length ≤ k) (a : α) : cover i x k a = a := by
  unfold cover
  split_ifs with hik
  · rw [List.getD_eq_getElem?_getD, List.getElem?_eq_none (by omega), Option.getD_none]
  · rfl

/-- Writes with the same effect at every offset are the same. -/
theorem mapIdx_congr {f g : ℕ → α → α} (b : List α) (h : ∀ k a, f k a = g k a) :
    b.mapIdx f = b.mapIdx g := by
  rw [funext fun k => funext fun a => h k a]

/-- Outside a write, the list is as it was. -/
theorem getElem?_overwrite (h : k < i ∨ i + x.length ≤ k) : (overwrite b i x)[k]? = b[k]? := by
  rw [overwrite, List.getElem?_mapIdx]
  cases b[k]? with
  | none => rfl
  | some a => rw [Option.map_some, cover_outside h]

/-- What is written stands at its offset. -/
theorem stands_overwrite (h : i + x.length ≤ b.length) : Stands (overwrite b i x) i x := by
  apply List.prefix_iff_getElem?.mpr
  intro k hk
  have hb : i + k < b.length := by omega
  rw [List.getElem?_drop, overwrite, List.getElem?_mapIdx, List.getElem?_eq_getElem hb,
    Option.map_some, cover_inside hk]

/-- What stands outside a write stays. -/
theorem Stands.overwrite (hy : Stands b j y) (h : j + y.length ≤ i ∨ i + x.length ≤ j) :
    Stands (overwrite b i x) j y := by
  apply List.prefix_iff_getElem?.mpr
  intro k hk
  rw [List.getElem?_drop, getElem?_overwrite (by omega), hy.getElem? hk]

/-- A write keeps what two lists have in common. -/
theorem getElem?_overwrite_congr {d : List α} (h : b[k]? = d[k]?) (i : ℕ) (x : List α) :
    (overwrite b i x)[k]? = (overwrite d i x)[k]? := by
  rw [overwrite, overwrite, List.getElem?_mapIdx, List.getElem?_mapIdx, h]

/-- Writing the same over two lists hides where they differ only if they differ nowhere else. -/
theorem overwrite_eq_iff {d : List α} (hb : i + x.length ≤ b.length) (hlen : b.length = d.length) :
    overwrite b i x = overwrite d i x ↔ ∀ k, k < i ∨ i + x.length ≤ k → b[k]? = d[k]? := by
  constructor
  · intro h k hk
    rw [← getElem?_overwrite (b := b) hk, ← getElem?_overwrite (b := d) hk, h]
  · intro h
    apply List.ext_getElem?
    intro k
    by_cases hk : i ≤ k ∧ k < i + x.length
    · obtain ⟨m, rfl⟩ := Nat.exists_eq_add_of_le hk.1
      have hm : m < x.length := by omega
      rw [(stands_overwrite hb).getElem? hm,
        (stands_overwrite (b := d) (hb.trans_eq hlen)).getElem? hm]
    · exact getElem?_overwrite_congr (h k (by omega)) i x

/-- Two writes, one after the other, are one. -/
theorem overwrite_append (b : List α) (i : ℕ) (x y : List α) :
    overwrite (overwrite b i x) (i + x.length) y = overwrite b i (x ++ y) := by
  rw [overwrite, overwrite, overwrite, List.mapIdx_mapIdx]
  refine mapIdx_congr b fun k a => ?_
  rw [Function.comp_apply]
  by_cases hk : i + x.length ≤ k
  · rw [cover_outside (i := i) (x := x) (by omega), cover, cover, if_pos hk, if_pos (by omega),
      List.getD_eq_getElem?_getD, List.getD_eq_getElem?_getD,
      List.getElem?_append_right (by omega), Nat.sub_add_eq]
  · rw [cover_outside (x := y) (by omega), cover, cover]
    split_ifs with hik
    · rw [List.getD_eq_getElem?_getD, List.getD_eq_getElem?_getD,
        List.getElem?_append_left (by omega)]
    · rfl

/-- A write of nothing changes nothing. -/
theorem overwrite_nil (b : List α) (i : ℕ) : overwrite b i [] = b := by
  apply List.ext_getElem?
  intro k
  exact getElem?_overwrite (Nat.lt_or_ge k i)

/-- A write of nothing into a buffer changes nothing. -/
theorem Buffer.write_nil (b : Buffer α n) (i : ℕ) : b.write i [] = b :=
  Buffer.ext (overwrite_nil b.elems i)

/-- A write of an element into a buffer, and of others after it, is one. -/
theorem Buffer.write_write (b : Buffer α n) (i : ℕ) (a : α) (x : List α) :
    (b.write i [a]).write (i + 1) x = b.write i (a :: x) :=
  Buffer.ext (overwrite_append b.elems i [a] x)

/-- A write at the start comes before the rest. -/
theorem overwrite_start (h : x.length ≤ b.length) : overwrite b 0 x = x ++ b.drop x.length := by
  apply List.ext_getElem?
  intro k
  by_cases hk : k < x.length
  · have hstands := (stands_overwrite (b := b) (i := 0) (x := x) (by omega)).getElem? hk
    rw [Nat.zero_add] at hstands
    rw [hstands, List.getElem?_append_left hk, List.getElem?_eq_getElem hk]
  · rw [getElem?_overwrite (.inr (by omega)), List.getElem?_append_right (by omega),
      List.getElem?_drop, Nat.add_sub_cancel' (by omega)]

/-- A write over everything is what is written. -/
theorem overwrite_all (h : x.length = b.length) : overwrite b 0 x = x := by
  have hstands := stands_overwrite (b := b) (i := 0) (x := x) (by omega)
  have hlen := length_overwrite b 0 x
  exact (List.IsPrefix.eq_of_length hstands (by rw [List.drop_zero, hlen, h])).symm

/-- So is a write over a whole buffer. -/
theorem Buffer.write_all (b c : Buffer α n) : b.write 0 c.elems = c :=
  Buffer.ext (overwrite_all (c.length_eq.trans b.length_eq.symm))

/-! ## Fields -/

/-- Two fields are apart. -/
def Apart (f g : ℕ × List α) : Prop := f.1 + f.2.length ≤ g.1 ∨ g.1 + g.2.length ≤ f.1

/-- A field is in a range, an offset and a length, if it starts there and is no longer. -/
def InRange (f : ℕ × List α) (r : ℕ × ℕ) : Prop := f.1 = r.1 ∧ f.2.length ≤ r.2

/-- Each range ends before the ranges after it. -/
def Ascending (ranges : List (ℕ × ℕ)) : Prop := ranges.Pairwise fun r s => r.1 + r.2 ≤ s.1

/-- Every field is in a range. -/
theorem exists_inRange {fields : List (ℕ × List α)} {ranges : List (ℕ × ℕ)}
    (h : List.Forall₂ InRange fields ranges) {f : ℕ × List α} (hf : f ∈ fields) :
    ∃ r ∈ ranges, InRange f r := by
  induction h with
  | nil => exact absurd hf List.not_mem_nil
  | @cons g r fields ranges hfirst _ ih =>
    rcases List.mem_cons.mp hf with rfl | hf
    · exact ⟨r, List.mem_cons_self, hfirst⟩
    · obtain ⟨s, hs, hfs⟩ := ih hf
      exact ⟨s, List.mem_cons_of_mem r hs, hfs⟩

/-- Fields in ascending ranges are apart. -/
theorem Ascending.apart {fields : List (ℕ × List α)} {ranges : List (ℕ × ℕ)}
    (hranges : Ascending ranges) (h : List.Forall₂ InRange fields ranges) :
    fields.Pairwise Apart := by
  induction h with
  | nil => exact .nil
  | @cons f r fields ranges hfirst hrest ih =>
    obtain ⟨hr, hranges⟩ := List.pairwise_cons.mp hranges
    refine List.pairwise_cons.mpr ⟨fun g hg => .inl ?_, ih hranges⟩
    obtain ⟨s, hs, hgs⟩ := exists_inRange hrest hg
    have := hr s hs
    have := hfirst.2
    rw [hfirst.1, hgs.1]
    omega

/-- A list with fields written over it, one after the other. -/
def writeAll (b : List α) (fields : List (ℕ × List α)) : List α :=
  fields.foldl (fun b f => overwrite b f.1 f.2) b

variable {fields : List (ℕ × List α)}

@[simp] theorem length_writeAll (b : List α) (fields : List (ℕ × List α)) :
    (writeAll b fields).length = b.length := by
  induction fields generalizing b with
  | nil => rfl
  | cons f fields ih => exact (ih _).trans (length_overwrite _ _ _)

/-- The elements of a buffer after its fields are written. -/
theorem Buffer.elems_writeAll (b : Buffer α n) (fields : List (ℕ × List α)) :
    (b.writeAll fields).elems = Uscan.writeAll b.elems fields := by
  induction fields generalizing b with
  | nil => rfl
  | cons f fields ih => exact ih (b.write f.1 f.2)

/-- The slice of a buffer where another one stands is that one. -/
theorem Buffer.slice_eq {m : ℕ} {b : Buffer α n} {c : Buffer α m} {i : ℕ} {h : i + m ≤ n}
    (hc : Stands b.elems i c.elems) : b.slice i m h = c := by
  have hprefix := List.prefix_iff_eq_take.mp hc
  rw [c.length_eq] at hprefix
  exact Buffer.ext hprefix.symm

/-- What stands apart from all fields stays. -/
theorem Stands.writeAll (hy : Stands b j y) (h : ∀ f ∈ fields, Apart (j, y) f) :
    Stands (writeAll b fields) j y := by
  induction fields generalizing b with
  | nil => exact hy
  | cons f fields ih =>
    obtain ⟨hf, hfields⟩ := List.forall_mem_cons.mp h
    exact ih (hy.overwrite hf) hfields

/-- Fields that are apart and inside the list stand at their offsets. -/
theorem stands_writeAll (hapart : fields.Pairwise Apart)
    (hle : ∀ f ∈ fields, f.1 + f.2.length ≤ b.length) {f : ℕ × List α} (hf : f ∈ fields) :
    Stands (writeAll b fields) f.1 f.2 := by
  induction fields generalizing b with
  | nil => exact absurd hf List.not_mem_nil
  | cons g fields ih =>
    obtain ⟨hg, hrest⟩ := List.pairwise_cons.mp hapart
    obtain ⟨hgle, hrestle⟩ := List.forall_mem_cons.mp hle
    rcases List.mem_cons.mp hf with rfl | hf
    · exact (stands_overwrite hgle).writeAll hg
    · refine ih hrest (fun f hf => ?_) hf
      rw [length_overwrite]
      exact hrestle f hf

/-- Fields in ascending ranges of a buffer stand at their offsets. -/
theorem Buffer.stands_writeAll {b : Buffer α n} {ranges : List (ℕ × ℕ)}
    (hfields : List.Forall₂ InRange fields ranges) (hranges : Ascending ranges)
    (hle : ∀ r ∈ ranges, r.1 + r.2 ≤ n) {f : ℕ × List α} (hf : f ∈ fields) :
    Stands (b.writeAll fields).elems f.1 f.2 := by
  rw [Buffer.elems_writeAll]
  refine Uscan.stands_writeAll (hranges.apart hfields) (fun g hg => ?_) hf
  obtain ⟨r, hr, hstart, hlen⟩ := exists_inRange hfields hg
  have := hle r hr
  rw [b.length_eq, hstart]
  omega

/-- Outside all fields, the list is as it was. -/
theorem getElem?_writeAll (h : ∀ f ∈ fields, k < f.1 ∨ f.1 + f.2.length ≤ k) :
    (writeAll b fields)[k]? = b[k]? := by
  induction fields generalizing b with
  | nil => rfl
  | cons f fields ih =>
    obtain ⟨hf, hfields⟩ := List.forall_mem_cons.mp h
    exact (ih hfields).trans (getElem?_overwrite hf)

end Uscan
