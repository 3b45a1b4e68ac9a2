import Uscan.Lib.Res
import Mathlib.Data.List.Basic

/-!
# Byte slices and machine integers

What a Rust program does with `&[u8]`: checked indexing and slicing, `usize` addition, and the
conversions between integers and their bytes in either order. A read out of range and an addition
past `2^64` panic. A `Slice` carries the bound that the language puts on every allocation, and with
it no cursor that stays inside a slice can overflow (`fitsUsize_slice`).

Where a loop of the program guards each read `b[i]` by `i < b.len()`, a model reads `b[i]?`.

`Stands b p x` says that `x` stands in `b` at offset `p`. It splits over an append
(`stands_append`), so that what stands in an encoded packet follows from how it was put together.
-/

namespace Uscan

/-- `isize::MAX`: no Rust slice is longer. -/
def isizeMax : ℕ := 2 ^ 63 - 1

/-- A byte slice. Its length fits in `isize`, as that of every Rust slice does. -/
structure Slice where
  /-- The bytes. -/
  bytes : List UInt8
  /-- The bound that the language puts on every allocation. -/
  length_le : bytes.length ≤ isizeMax

/-- The length of a slice. -/
def Slice.len (d : Slice) : ℕ := d.bytes.length

section Access

variable {ε α : Type}

/-- The check that a `usize` addition makes of its result `n`: an overflow panics. -/
def fitsUsize (n : ℕ) : Res ε Unit :=
  if n < 2 ^ 64 then .ok () else .panicked

/-- `b[i]`. -/
def index (b : List α) (i : ℕ) : Res ε α :=
  match b[i]? with
  | some c => .ok c
  | none => .panicked

/-- `b[i..j]`. -/
def subslice (b : List α) (i j : ℕ) : Res ε (List α) :=
  if i ≤ j ∧ j ≤ b.length then .ok ((b.take j).drop i) else .panicked

/-- A sum below `2^64` passes its check. -/
theorem fitsUsize_eq {n : ℕ} (h : n < 2 ^ 64) : (fitsUsize n : Res ε Unit) = .ok () :=
  if_pos h

/-- A cursor inside a slice can be advanced by any amount up to `2^63`. -/
theorem fitsUsize_slice (d : Slice) {a b : ℕ} (ha : a ≤ d.len) (hb : b ≤ 2 ^ 63) :
    (fitsUsize (a + b) : Res ε Unit) = .ok () := by
  have hd := d.length_le
  apply fitsUsize_eq
  simp only [Slice.len, isizeMax] at ha hd
  omega

/-- An index in range returns the element there. -/
theorem index_eq {b : List α} {i : ℕ} (h : i < b.length) : (index b i : Res ε α) = .ok b[i] := by
  simp [index, h]

/-- An index returns what stands there. -/
theorem index_of_getElem? {b : List α} {i : ℕ} {c : α} (h : b[i]? = some c) :
    (index b i : Res ε α) = .ok c := by
  simp [index, h]

/-- A range inside a slice returns the elements there. -/
theorem subslice_eq {b : List α} {i j : ℕ} (hij : i ≤ j) (hj : j ≤ b.length) :
    (subslice b i j : Res ε (List α)) = .ok ((b.take j).drop i) := by
  simp [subslice, hij, hj]

/-- The range of a part of a slice returns the part. -/
theorem subslice_append (u v w : List α) :
    (subslice (u ++ (v ++ w)) u.length (u.length + v.length) : Res ε (List α)) = .ok v := by
  rw [subslice_eq (by omega) (by simp), ← List.append_assoc, ← List.length_append, List.take_left,
    List.drop_left]

end Access

/-! ## Integers and their bytes -/

/-- `u16::from_be_bytes`. -/
def be16 (b0 b1 : UInt8) : UInt16 := UInt16.ofNat (b0.toNat * 256 + b1.toNat)

/-- `u16::from_le_bytes`. -/
def le16 (b0 b1 : UInt8) : UInt16 := be16 b1 b0

/-- `u32::from_be_bytes`. -/
def be32 (b0 b1 b2 b3 : UInt8) : UInt32 :=
  UInt32.ofNat (((b0.toNat * 256 + b1.toNat) * 256 + b2.toNat) * 256 + b3.toNat)

/-- `u32::from_le_bytes`. -/
def le32 (b0 b1 b2 b3 : UInt8) : UInt32 := be32 b3 b2 b1 b0

/-- `u16::to_be_bytes`. -/
def toBe16 (x : UInt16) : List UInt8 :=
  [UInt8.ofNat (x.toNat / 256), UInt8.ofNat (x.toNat % 256)]

/-- `u32::to_be_bytes`. -/
def toBe32 (x : UInt32) : List UInt8 :=
  [UInt8.ofNat (x.toNat / 2 ^ 24), UInt8.ofNat (x.toNat / 2 ^ 16 % 256),
    UInt8.ofNat (x.toNat / 2 ^ 8 % 256), UInt8.ofNat (x.toNat % 256)]

/-- `u32::to_le_bytes`. -/
def toLe32 (x : UInt32) : List UInt8 := (toBe32 x).reverse

@[simp] theorem toBe16_length (x : UInt16) : (toBe16 x).length = 2 := rfl
@[simp] theorem toBe32_length (x : UInt32) : (toBe32 x).length = 4 := rfl
@[simp] theorem toLe32_length (x : UInt32) : (toLe32 x).length = 4 := rfl

/-- The two bytes of a 16-bit integer read back as the integer. -/
theorem be16_toBe16 (x : UInt16) :
    be16 (UInt8.ofNat (x.toNat / 256)) (UInt8.ofNat (x.toNat % 256)) = x := by
  have hx := x.toNat_lt
  apply UInt16.toNat_inj.mp
  simp only [be16, UInt16.toNat_ofNat', UInt8.toNat_ofNat']
  omega

/-- The integers of a list of bytes, two bytes each. -/
def be16s : List UInt8 → List UInt16
  | b0 :: b1 :: t => be16 b0 b1 :: be16s t
  | _ => []

/-- An even number of bytes makes half as many integers. -/
theorem be16s_length : ∀ {n : ℕ} {b : List UInt8}, b.length = 2 * n → (be16s b).length = n
  | 0, [], _ => rfl
  | n + 1, b0 :: b1 :: t, h => by
    simp only [be16s, List.length_cons] at h ⊢
    rw [be16s_length (n := n) (by omega)]

/-- The bytes of a list of integers read back as the list. -/
theorem be16s_toBe16 (xs : List UInt16) : be16s (xs.flatMap toBe16) = xs := by
  induction xs with
  | nil => rfl
  | cons x xs ih =>
    rw [List.flatMap_cons, toBe16, List.cons_append, List.cons_append, List.nil_append, be16s,
      be16_toBe16, ih]

/-- The four bytes of a 32-bit integer read back as the integer. -/
theorem be32_toBe32 (x : UInt32) :
    be32 (UInt8.ofNat (x.toNat / 2 ^ 24)) (UInt8.ofNat (x.toNat / 2 ^ 16 % 256))
      (UInt8.ofNat (x.toNat / 2 ^ 8 % 256)) (UInt8.ofNat (x.toNat % 256)) = x := by
  have hx := x.toNat_lt
  apply UInt32.toNat_inj.mp
  simp only [be32, UInt32.toNat_ofNat', UInt8.toNat_ofNat']
  omega

/-- Four bytes are those of the 32-bit integer that they make. -/
theorem toBe32_be32 (b0 b1 b2 b3 : UInt8) : toBe32 (be32 b0 b1 b2 b3) = [b0, b1, b2, b3] := by
  have h0 := b0.toNat_lt
  have h1 := b1.toNat_lt
  have h2 := b2.toNat_lt
  have h3 := b3.toNat_lt
  simp only [toBe32, be32, UInt32.toNat_ofNat', List.cons.injEq, and_true]
  refine ⟨?_, ?_, ?_, ?_⟩ <;>
    · apply UInt8.toNat_inj.mp
      rw [UInt8.toNat_ofNat']
      omega

/-- Four bytes are a 32-bit integer. -/
theorem exists_toBe32 {x : List UInt8} (h : x.length = 4) : ∃ n, x = toBe32 n := by
  match x, h with
  | [a, b, c, d], _ => exact ⟨be32 a b c d, (toBe32_be32 a b c d).symm⟩

/-- The bytes of a 16-bit integer that two bytes make. -/
theorem toBe16_be16 (b0 b1 : UInt8) : toBe16 (be16 b0 b1) = [b0, b1] := by
  have h0 := b0.toNat_lt
  have h1 := b1.toNat_lt
  simp only [toBe16, be16, UInt16.toNat_ofNat', List.cons.injEq, and_true]
  constructor <;>
    · apply UInt8.toNat_inj.mp
      rw [UInt8.toNat_ofNat']
      omega

/-- An even number of bytes are those of the integers that they make. -/
theorem toBe16_be16s : ∀ {n : ℕ} {b : List UInt8}, b.length = 2 * n → (be16s b).flatMap toBe16 = b
  | 0, [], _ => rfl
  | n + 1, b0 :: b1 :: t, h => by
    simp only [List.length_cons] at h
    rw [be16s, List.flatMap_cons, toBe16_be16, toBe16_be16s (n := n) (by omega)]
    rfl

/-! ## What stands at an offset -/

section Stands

variable {α : Type} {b x y : List α} {p : ℕ}

/-- The elements `x` stand in `b` at offset `p`. -/
def Stands (b : List α) (p : ℕ) (x : List α) : Prop := x <+: b.drop p

/-- What stands at an offset, element by element. -/
theorem Stands.getElem? (h : Stands b p x) {i : ℕ} (hi : i < x.length) :
    b[p + i]? = some x[i] := by
  rw [← List.getElem?_drop]
  exact (List.prefix_iff_getElem?.mp h) i hi

/-- The first element of what stands at an offset. -/
theorem Stands.head? {a : α} (h : Stands b p (a :: x)) : b[p]? = some a :=
  h.getElem? (i := 0) (Nat.succ_pos _)

/-- The list from an element on. -/
theorem drop_of_getElem? {a : α} (h : b[p]? = some a) : b.drop p = a :: b.drop (p + 1) := by
  obtain ⟨hlt, rfl⟩ := List.getElem?_eq_some_iff.mp h
  exact List.drop_eq_getElem_cons hlt

/-- A number of elements from an offset on, and what follows them. -/
theorem exists_append_of_le {n : ℕ} (h : p + n ≤ b.length) :
    ∃ x y, b.drop p = x ++ y ∧ x.length = n :=
  ⟨_, _, (List.take_append_drop n _).symm,
    List.length_take_of_le (by rw [List.length_drop]; omega)⟩

/-- What stands at an offset ends inside the list. -/
theorem Stands.le (h : Stands b p x) (hx : x ≠ []) : p + x.length ≤ b.length := by
  have hle := h.length_le
  have hpos := List.length_pos_iff.mpr hx
  rw [List.length_drop] at hle
  omega

/-- An append stands where its parts do, the second one after the first. -/
theorem stands_append : Stands b p (x ++ y) ↔ Stands b p x ∧ Stands b (p + x.length) y := by
  constructor
  · rintro ⟨t, ht⟩
    refine ⟨⟨y ++ t, by rw [← ht, List.append_assoc]⟩, ⟨t, ?_⟩⟩
    rw [← List.drop_drop, ← ht, List.append_assoc, List.drop_left]
  · rintro ⟨⟨s, hs⟩, ⟨t, ht⟩⟩
    refine ⟨t, ?_⟩
    rw [← List.drop_drop, ← hs, List.drop_left] at ht
    rw [List.append_assoc, ht, hs]

/-- A whole list stands at its start. -/
theorem stands_zero (t : List α) : Stands (x ++ t) 0 x := ⟨t, rfl⟩

/-- What stands in a list stands in a longer one. -/
theorem Stands.longer (h : Stands b p x) (t : List α) : Stands (b ++ t) p x := by
  refine List.IsPrefix.trans h ?_
  rw [List.drop_append]
  exact List.prefix_append _ _

/-- The slice at an offset is what stands there. -/
theorem Stands.slice_eq (h : Stands b p x) : (b.take (p + x.length)).drop p = x := by
  rw [List.drop_take, Nat.add_sub_cancel_left]
  exact (List.prefix_iff_eq_take.mp h).symm

/-- Slicing out what stands at an offset inside the list returns it. -/
theorem Stands.subslice_of_le {ε : Type} (h : Stands b p x) (hp : p ≤ b.length) :
    (subslice b p (p + x.length) : Res ε (List α)) = .ok x := by
  have hend : x.length ≤ (b.drop p).length := List.IsPrefix.length_le h
  rw [List.length_drop] at hend
  rw [Uscan.subslice_eq (Nat.le_add_right _ _) (by omega), h.slice_eq]

/-- Slicing out what stands at an offset returns it. -/
theorem Stands.subslice_eq {ε : Type} (h : Stands b p x) (hx : x ≠ []) :
    (subslice b p (p + x.length) : Res ε (List α)) = .ok x :=
  h.subslice_of_le ((Nat.le_add_right _ _).trans (h.le hx))

/-! ## What is cut at the end -/

/-- The list ends inside `x`, which starts at offset `p`. -/
structure Cut (b : List α) (p : ℕ) (x : List α) : Prop where
  /-- The offset is inside the list. -/
  le : p ≤ b.length
  /-- What is there of `x`. -/
  start : b.drop p <+: x
  /-- It is not all there. -/
  lt : b.length < p + x.length

/-- Nothing can be cut where there is nothing. -/
theorem not_cut_nil : ¬ Cut b p [] := fun h => absurd h.lt (Nat.not_lt.mpr h.le)

/-- A proper prefix of a list is the list, cut. -/
theorem cut_take {n : ℕ} (h : n < x.length) : Cut (x.take n) 0 x :=
  ⟨Nat.zero_le _, List.take_prefix n x, by rw [List.length_take]; omega⟩

/-- What stands in a list stands in a prefix that it ends in. -/
theorem stands_take (u : List α) {w : List α} {n : ℕ} (h : u.length + x.length ≤ n) :
    Stands ((u ++ (x ++ w)).take n) u.length x := by
  rw [Stands, List.drop_take, List.drop_left]
  exact List.prefix_take_iff.mpr ⟨List.prefix_append x w, by omega⟩

/-- What stands in a list is cut in a prefix that ends inside it. -/
theorem cut_take_append (u : List α) {w : List α} {n : ℕ} (hle : u.length ≤ n)
    (hlt : n < u.length + x.length) : Cut ((u ++ (x ++ w)).take n) u.length x := by
  have hlen : ((u ++ (x ++ w)).take n).length = n :=
    List.length_take_of_le (by rw [List.length_append, List.length_append]; omega)
  refine ⟨by omega, ?_, by omega⟩
  rw [List.drop_take, List.drop_left, List.take_append_of_le_length (by omega)]
  exact List.take_prefix _ x

/-- At a cut of one element the list ends. -/
theorem Cut.getElem?_singleton {a : α} (h : Cut b p [a]) : b[p]? = none :=
  List.getElem?_eq_none (Nat.lt_succ_iff.mp h.lt)

/-- An append is cut in its first part, or in its second one after the first. -/
theorem cut_append : Cut b p (x ++ y) ↔ Cut b p x ∨ Stands b p x ∧ Cut b (p + x.length) y := by
  constructor
  · rintro ⟨hle, hstart, hlt⟩
    have hlen := @List.length_drop _ p b
    by_cases hx : b.length < p + x.length
    · have hpart := List.prefix_of_prefix_length_le hstart (List.prefix_append x y) (by omega)
      exact .inl ⟨hle, hpart, hx⟩
    · have hstands : x <+: b.drop p :=
        List.prefix_of_prefix_length_le (List.prefix_append x y) hstart (by omega)
      refine .inr ⟨hstands, by omega, ?_, by rw [List.length_append] at hlt; omega⟩
      obtain ⟨t, ht⟩ := hstands
      rw [← ht] at hstart
      rwa [← List.drop_drop, ← ht, List.drop_left, ← List.prefix_append_right_inj x]
  · rintro (⟨hle, hstart, hlt⟩ | ⟨⟨t, ht⟩, hle, hstart, hlt⟩)
    · exact ⟨hle, hstart.trans (List.prefix_append x y), by rw [List.length_append]; omega⟩
    · refine ⟨by omega, ?_, by rw [List.length_append]; omega⟩
      rw [← List.drop_drop, ← ht, List.drop_left] at hstart
      rwa [← ht, List.prefix_append_right_inj]

end Stands

end Uscan
