import Mathlib.Data.List.Basic
import Mathlib.Data.UInt
import Mathlib.Tactic.Common

/-!
# Base64

The encoding of bytes as digits of six bits. `Base64` is what a program relies on of a library for
it: decoding undoes encoding, the length of a text depends on the number of bytes only, and a text
has digits and padding only. `Base64.standard` is the standard alphabet with padding; three bytes at
a time are four digits, and one or two bytes at the end are padded to four.
-/

namespace Uscan

namespace Base64

/-- The digits, `A` to `Z`, `a` to `z`, `0` to `9`, `+`, and `/`. -/
def alphabet : List UInt8 :=
  ((List.range 26).map fun i => UInt8.ofNat (65 + i)) ++
    ((List.range 26).map fun i => UInt8.ofNat (97 + i)) ++
    ((List.range 10).map fun i => UInt8.ofNat (48 + i)) ++ [43, 47]

/-- The padding, `=`. -/
def pad : UInt8 := 61

end Base64

/-- A base64 codec, on the bytes of texts. -/
structure Base64 where
  /-- The text of given bytes. -/
  encode : List UInt8 → List UInt8
  /-- The bytes of a text, if it is one of bytes. -/
  decode : List UInt8 → Option (List UInt8)
  /-- Decoding undoes encoding. -/
  decode_encode : ∀ b, decode (encode b) = some b
  /-- Every three bytes, and the bytes left at the end, are four digits. -/
  length_encode : ∀ b, (encode b).length = 4 * ((b.length + 2) / 3)
  /-- A text has digits and padding only. -/
  mem_encode : ∀ b, ∀ c ∈ encode b, c ∈ Base64.alphabet ∨ c = Base64.pad

namespace Base64

/-- No byte of a text is zero. -/
theorem ne_zero_of_mem_encode (base64 : Base64) {b : List UInt8} {c : UInt8}
    (h : c ∈ base64.encode b) : c ≠ 0 := by
  have hdigits : (alphabet.all fun c => c != 0) = true := by decide +kernel
  rcases base64.mem_encode b c h with hc | rfl
  · exact bne_iff_ne.mp (List.all_eq_true.mp hdigits c hc)
  · decide

/-- The text of a number of bytes up to `3 n` has up to `4 n` digits. -/
theorem length_encode_le_iff (base64 : Base64) {b : List UInt8} {n : ℕ} :
    (base64.encode b).length ≤ 4 * n ↔ b.length ≤ 3 * n := by
  rw [base64.length_encode]
  omega

/-! ## The standard codec -/

/-- The digit of a number below 64. -/
def digit (n : ℕ) : UInt8 := alphabet.getD n pad

/-- The number of a digit. -/
def value (c : UInt8) : Option ℕ := if c ∈ alphabet then some (alphabet.idxOf c) else none

/-- The digits are distinct. -/
theorem nodup_alphabet : alphabet.Nodup := by
  have hnumbers : (alphabet.map UInt8.toNat).Nodup := by decide +kernel
  exact hnumbers.of_map _

/-- A digit is in the alphabet, and has its number. -/
theorem digit_spec {n : ℕ} (h : n < 64) :
    digit n ∈ alphabet ∧ digit n ≠ pad ∧ value (digit n) = some n := by
  have hlength : n < alphabet.length := h
  have hpad : pad ∉ alphabet := by decide
  have hdigit : digit n = alphabet[n] := by
    rw [digit, List.getD_eq_getElem?_getD, List.getElem?_eq_getElem hlength, Option.getD_some]
  have hmem : digit n ∈ alphabet := hdigit ▸ List.getElem_mem hlength
  refine ⟨hmem, fun heq => hpad (heq ▸ hmem), ?_⟩
  rw [value, if_pos hmem, hdigit, nodup_alphabet.idxOf_getElem]

/-- The digits of bytes. -/
def encodeBytes : List UInt8 → List UInt8
  | [] => []
  | [a] => [digit (a.toNat / 4), digit (a.toNat % 4 * 16), pad, pad]
  | [a, b] =>
    [digit (a.toNat / 4), digit (a.toNat % 4 * 16 + b.toNat / 16), digit (b.toNat % 16 * 4), pad]
  | a :: b :: c :: s =>
    digit (a.toNat / 4) :: digit (a.toNat % 4 * 16 + b.toNat / 16) ::
      digit (b.toNat % 16 * 4 + c.toNat / 64) :: digit (c.toNat % 64) :: encodeBytes s

/-- The bytes of digits. Padding stands at the end only, and the bits that it cuts off are zero. -/
def decodeBytes : List UInt8 → Option (List UInt8)
  | [] => some []
  | w :: x :: y :: z :: s => do
    let i ← value w
    let j ← value x
    if y = pad then
      if z = pad ∧ s = [] ∧ j % 16 = 0 then some [UInt8.ofNat (i * 4 + j / 16)] else none
    else
      let k ← value y
      let first := UInt8.ofNat (i * 4 + j / 16)
      let second := UInt8.ofNat (j % 16 * 16 + k / 4)
      if z = pad then
        if s = [] ∧ k % 4 = 0 then some [first, second] else none
      else
        let l ← value z
        let rest ← decodeBytes s
        some (first :: second :: UInt8.ofNat (k % 4 * 64 + l) :: rest)
  | _ => none

/-- The first byte from its digits. -/
theorem ofNat_first (a b : UInt8) :
    UInt8.ofNat (a.toNat / 4 * 4 + (a.toNat % 4 * 16 + b.toNat / 16) / 16) = a := by
  have hb := b.toNat_lt
  have hsum : a.toNat / 4 * 4 + (a.toNat % 4 * 16 + b.toNat / 16) / 16 = a.toNat := by omega
  rw [hsum, UInt8.ofNat_toNat]

/-- The second byte from its digits. -/
theorem ofNat_second (a b c : UInt8) :
    UInt8.ofNat ((a.toNat % 4 * 16 + b.toNat / 16) % 16 * 16 +
      (b.toNat % 16 * 4 + c.toNat / 64) / 4) = b := by
  have hb := b.toNat_lt
  have hc := c.toNat_lt
  have hsum : (a.toNat % 4 * 16 + b.toNat / 16) % 16 * 16 +
      (b.toNat % 16 * 4 + c.toNat / 64) / 4 = b.toNat := by omega
  rw [hsum, UInt8.ofNat_toNat]

/-- The third byte from its digits. -/
theorem ofNat_third (b c : UInt8) :
    UInt8.ofNat ((b.toNat % 16 * 4 + c.toNat / 64) % 4 * 64 + c.toNat % 64) = c := by
  have hc := c.toNat_lt
  have hsum : (b.toNat % 16 * 4 + c.toNat / 64) % 4 * 64 + c.toNat % 64 = c.toNat := by omega
  rw [hsum, UInt8.ofNat_toNat]

/-- Decoding undoes encoding. A byte that is missing at the end counts as zero. -/
theorem decodeBytes_encodeBytes (b : List UInt8) : decodeBytes (encodeBytes b) = some b := by
  have hzero : (0 : UInt8).toNat = 0 := rfl
  induction b using encodeBytes.induct with
  | case1 => rfl
  | case2 a =>
    have ha := a.toNat_lt
    obtain ⟨-, -, hi⟩ := digit_spec (n := a.toNat / 4) (by omega)
    obtain ⟨-, -, hj⟩ := digit_spec (n := a.toNat % 4 * 16) (by omega)
    have hfirst := ofNat_first a 0
    rw [hzero, Nat.zero_div, Nat.add_zero] at hfirst
    -- The bits left over are zero, as the decoder demands.
    have hrest : a.toNat % 4 * 16 % 16 = 0 := by omega
    simp only [encodeBytes, decodeBytes, hi, hj, Option.bind_eq_bind, Option.bind_some, if_true,
      hrest, and_self, hfirst]
  | case3 a b =>
    have ha := a.toNat_lt
    have hb := b.toNat_lt
    obtain ⟨-, -, hi⟩ := digit_spec (n := a.toNat / 4) (by omega)
    obtain ⟨-, -, hj⟩ := digit_spec (n := a.toNat % 4 * 16 + b.toNat / 16) (by omega)
    obtain ⟨-, hpad, hk⟩ := digit_spec (n := b.toNat % 16 * 4) (by omega)
    have hsecond := ofNat_second a b 0
    rw [hzero, Nat.zero_div, Nat.add_zero] at hsecond
    -- The bits left over are zero here as well.
    have hrest : b.toNat % 16 * 4 % 4 = 0 := by omega
    simp only [encodeBytes, decodeBytes, hi, hj, hk, hpad, Option.bind_eq_bind, Option.bind_some,
      if_true, if_false, hrest, and_self, ofNat_first, hsecond]
  | case4 a b c s ih =>
    have ha := a.toNat_lt
    have hb := b.toNat_lt
    have hc := c.toNat_lt
    obtain ⟨-, -, hi⟩ := digit_spec (n := a.toNat / 4) (by omega)
    obtain ⟨-, -, hj⟩ := digit_spec (n := a.toNat % 4 * 16 + b.toNat / 16) (by omega)
    obtain ⟨-, hpad, hk⟩ := digit_spec (n := b.toNat % 16 * 4 + c.toNat / 64) (by omega)
    obtain ⟨-, hpad', hl⟩ := digit_spec (n := c.toNat % 64) (by omega)
    simp only [encodeBytes, decodeBytes, hi, hj, hk, hl, hpad, hpad', ih, Option.bind_eq_bind,
      Option.bind_some, if_false, ofNat_first, ofNat_second, ofNat_third]

/-- The length of the digits. -/
theorem length_encodeBytes (b : List UInt8) :
    (encodeBytes b).length = 4 * ((b.length + 2) / 3) := by
  induction b using encodeBytes.induct with
  | case1 => rfl
  | case2 a => simp [encodeBytes]
  | case3 a b => simp [encodeBytes]
  | case4 a b c s ih =>
    rw [encodeBytes]
    simp only [List.length_cons, ih]
    omega

/-- There are digits and padding only. -/
theorem mem_encodeBytes (b : List UInt8) : ∀ c ∈ encodeBytes b, c ∈ alphabet ∨ c = pad := by
  have hdigit (n : ℕ) : digit n ∈ alphabet ∨ digit n = pad := by
    rw [digit, List.getD_eq_getElem?_getD]
    cases h : alphabet[n]? with
    | none => exact .inr rfl
    | some c => exact .inl (List.mem_of_getElem? h)
  induction b using encodeBytes.induct with
  | case1 => exact fun c hc => absurd hc List.not_mem_nil
  | case2 a => simp [encodeBytes, hdigit]
  | case3 a b => simp [encodeBytes, hdigit]
  | case4 a b c s ih =>
    rw [encodeBytes]
    simpa [hdigit] using ih

/-- The standard codec, with padding. -/
def standard : Base64 where
  encode := encodeBytes
  decode := decodeBytes
  decode_encode := decodeBytes_encodeBytes
  length_encode := length_encodeBytes
  mem_encode := mem_encodeBytes

/-- The word `admin`. -/
example : standard.encode [97, 100, 109, 105, 110] = [89, 87, 82, 116, 97, 87, 52, 61] := by
  decide +kernel

end Base64

end Uscan
