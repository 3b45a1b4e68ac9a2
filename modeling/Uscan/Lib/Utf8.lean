import Mathlib.Tactic.Common
import Mathlib.Data.UInt
import Mathlib.Data.List.Basic

/-!
# UTF-8

Text is a list of Unicode scalar values, and `utf8` is its encoding. `fromUtf8Lossy` is the lossy
decoder of `String::from_utf8_lossy`: each maximal ill-formed piece becomes one U+FFFD, so that it
is total. `fromUtf8` is the strict one, of `str::from_utf8`. Both give back the text that was
encoded (`fromUtf8Lossy_utf8`, `fromUtf8_utf8`), by one lemma on a single step of the decoder
(`decodeStep_utf8EncodeChar`).
-/

namespace Uscan

/-- The UTF-8 bytes of a text. -/
def utf8 (s : List Char) : List UInt8 := s.flatMap String.utf8EncodeChar

@[simp] theorem utf8_nil : utf8 [] = [] := rfl

@[simp] theorem utf8_cons (c : Char) (s : List Char) :
    utf8 (c :: s) = String.utf8EncodeChar c ++ utf8 s := rfl

@[simp] theorem utf8_append (s t : List Char) : utf8 (s ++ t) = utf8 s ++ utf8 t := by
  simp [utf8]

/-! ## Decoding -/

/-- A continuation byte. -/
def isCont (b : UInt8) : Bool := 0x80 ≤ b.toNat && b.toNat ≤ 0xBF

/-- The bytes that may follow the first byte `n` of a three-byte sequence: not those of an
overlong form, and not those of a surrogate. -/
def second3 (n : ℕ) (b : UInt8) : Bool :=
  (if n = 0xE0 then 0xA0 else 0x80) ≤ b.toNat && b.toNat ≤ (if n = 0xED then 0x9F else 0xBF)

/-- The bytes that may follow the first byte `n` of a four-byte sequence: not those of an
overlong form, and not those above U+10FFFF. -/
def second4 (n : ℕ) (b : UInt8) : Bool :=
  (if n = 0xF0 then 0x90 else 0x80) ≤ b.toNat && b.toNat ≤ (if n = 0xF4 then 0x8F else 0xBF)

/-- One step of the decoder on `b` and the bytes `t` after it: the scalar value that they start
with, or `none` for an ill-formed piece, and the bytes left. An ill-formed piece is as long as it
can be while it is the start of some well-formed sequence, and at least one byte. -/
def decodeStep (b : UInt8) (t : List UInt8) : Option Char × List UInt8 :=
  if b.toNat < 0x80 then (some (Char.ofNat b.toNat), t)
  else if b.toNat < 0xC2 then (none, t)
  else if b.toNat < 0xE0 then
    match t with
    | b1 :: t1 =>
      if isCont b1 then (some (Char.ofNat ((b.toNat - 0xC0) * 64 + (b1.toNat - 0x80))), t1)
      else (none, t)
    | [] => (none, t)
  else if b.toNat < 0xF0 then
    match t with
    | b1 :: t1 =>
      if second3 b.toNat b1 then
        match t1 with
        | b2 :: t2 =>
          if isCont b2 then
            (some (Char.ofNat
              ((b.toNat - 0xE0) * 4096 + (b1.toNat - 0x80) * 64 + (b2.toNat - 0x80))), t2)
          else (none, t1)
        | [] => (none, t1)
      else (none, t)
    | [] => (none, t)
  else if b.toNat < 0xF5 then
    match t with
    | b1 :: t1 =>
      if second4 b.toNat b1 then
        match t1 with
        | b2 :: t2 =>
          if isCont b2 then
            match t2 with
            | b3 :: t3 =>
              if isCont b3 then
                (some (Char.ofNat ((b.toNat - 0xF0) * 262144 + (b1.toNat - 0x80) * 4096 +
                  (b2.toNat - 0x80) * 64 + (b3.toNat - 0x80))), t3)
              else (none, t2)
            | [] => (none, t2)
          else (none, t1)
        | [] => (none, t1)
      else (none, t)
    | [] => (none, t)
  else (none, t)

/-- A step of the decoder leaves no more bytes than it was given after the first. -/
theorem decodeStep_length_le (b : UInt8) (t : List UInt8) :
    (decodeStep b t).2.length ≤ t.length := by
  unfold decodeStep
  -- One case for each length of the sequence that the first byte announces.
  split_ifs
  · rfl
  · rfl
  · rcases t with _ | ⟨b1, t1⟩
    · rfl
    · dsimp only
      split_ifs <;> simp
  · rcases t with _ | ⟨b1, _ | ⟨b2, t2⟩⟩
    · rfl
    · dsimp only
      split_ifs <;> simp
    · dsimp only
      split_ifs <;> simp
      omega
  · rcases t with _ | ⟨b1, _ | ⟨b2, _ | ⟨b3, t3⟩⟩⟩
    · rfl
    · dsimp only
      split_ifs <;> simp
    · dsimp only
      split_ifs <;> simp
    · dsimp only
      split_ifs <;> simp
      all_goals omega
  · rfl

/-- `String::from_utf8_lossy`. -/
def fromUtf8Lossy : List UInt8 → List Char
  | [] => []
  | b :: t => (decodeStep b t).1.getD '\uFFFD' :: fromUtf8Lossy (decodeStep b t).2
termination_by bs => bs.length
decreasing_by
  have := decodeStep_length_le b t
  simp only [List.length_cons]
  omega

/-- `str::from_utf8`: the text, if every piece is well formed. -/
def fromUtf8 : List UInt8 → Option (List Char)
  | [] => some []
  | b :: t =>
    match (decodeStep b t).1 with
    | some c => (fromUtf8 (decodeStep b t).2).map (c :: ·)
    | none => none
termination_by bs => bs.length
decreasing_by
  have := decodeStep_length_le b t
  simp only [List.length_cons]
  omega

/-- A byte written from a number below 256, a bound that `omega` can see, reads back as it. -/
theorem toNat_ofNat_of_lt {n : ℕ} (h : n < 256) : (UInt8.ofNat n).toNat = n :=
  UInt8.toNat_ofNat_of_lt' h

/-- Six bits above `0x80` make a continuation byte. -/
theorem isCont_ofNat (n : ℕ) : isCont (UInt8.ofNat (n % 0x40 + 0x80)) = true := by
  have h := toNat_ofNat_of_lt (show n % 0x40 + 0x80 < 256 by omega)
  simp only [isCont, h, Bool.and_eq_true, decide_eq_true_eq]
  omega

/-- The decoder reads the encoding of a scalar value back in one step, whatever follows it. -/
theorem decodeStep_utf8EncodeChar (c : Char) (rest : List UInt8) :
    ∃ b t, String.utf8EncodeChar c = b :: t ∧ decodeStep b (t ++ rest) = (some c, rest) := by
  have hv : c.val.toNat < 0xD800 ∨ (0xDFFF < c.val.toNat ∧ c.val.toNat < 0x110000) := c.valid
  have hc : Char.ofNat c.val.toNat = c := Char.ofNat_toNat c
  simp only [String.utf8EncodeChar]
  generalize c.val.toNat = v at hv hc ⊢
  split_ifs with h1 h2 h3
  · -- One byte.
    refine ⟨_, _, rfl, ?_⟩
    have e0 : (UInt8.ofNat v).toNat = v := toNat_ofNat_of_lt (by omega)
    simp only [decodeStep, List.nil_append, e0]
    rw [if_pos (by omega), hc]
  · -- Two bytes.
    refine ⟨_, _, rfl, ?_⟩
    have e0 := toNat_ofNat_of_lt (show v / 64 % 0x20 + 0xc0 < 256 by omega)
    have e1 := toNat_ofNat_of_lt (show v % 0x40 + 0x80 < 256 by omega)
    have hd : (v / 64 % 0x20 + 0xc0 - 0xC0) * 64 + (v % 0x40 + 0x80 - 0x80) = v := by omega
    simp only [decodeStep, List.cons_append, List.nil_append, isCont_ofNat, e0, e1, hd, hc]
    rw [if_neg (by omega), if_neg (by omega), if_pos (by omega), if_pos trivial]
  · -- Three bytes. The second one is in the range that the first one leaves it, since the value is
    -- no surrogate.
    refine ⟨_, _, rfl, ?_⟩
    have e0 := toNat_ofNat_of_lt (show v / 4096 % 0x10 + 0xe0 < 256 by omega)
    have e1 := toNat_ofNat_of_lt (show v / 64 % 0x40 + 0x80 < 256 by omega)
    have e2 := toNat_ofNat_of_lt (show v % 0x40 + 0x80 < 256 by omega)
    have hd : (v / 4096 % 0x10 + 0xe0 - 0xE0) * 4096 + (v / 64 % 0x40 + 0x80 - 0x80) * 64 +
        (v % 0x40 + 0x80 - 0x80) = v := by omega
    have hs : second3 (v / 4096 % 0x10 + 0xe0) (UInt8.ofNat (v / 64 % 0x40 + 0x80)) = true := by
      simp only [second3, e1, Bool.and_eq_true, decide_eq_true_eq]
      split_ifs <;> omega
    simp only [decodeStep, List.cons_append, List.nil_append, isCont_ofNat, e0, e1, e2, hs, hd, hc]
    rw [if_neg (by omega), if_neg (by omega), if_neg (by omega), if_pos (by omega),
      if_pos trivial, if_pos trivial]
  · -- Four bytes. The second one is in its range, since the value is below U+110000.
    refine ⟨_, _, rfl, ?_⟩
    have e0 := toNat_ofNat_of_lt (show v / 262144 % 0x08 + 0xf0 < 256 by omega)
    have e1 := toNat_ofNat_of_lt (show v / 4096 % 0x40 + 0x80 < 256 by omega)
    have e2 := toNat_ofNat_of_lt (show v / 64 % 0x40 + 0x80 < 256 by omega)
    have e3 := toNat_ofNat_of_lt (show v % 0x40 + 0x80 < 256 by omega)
    have hd : (v / 262144 % 0x08 + 0xf0 - 0xF0) * 262144 +
        (v / 4096 % 0x40 + 0x80 - 0x80) * 4096 + (v / 64 % 0x40 + 0x80 - 0x80) * 64 +
        (v % 0x40 + 0x80 - 0x80) = v := by omega
    have hs : second4 (v / 262144 % 0x08 + 0xf0) (UInt8.ofNat (v / 4096 % 0x40 + 0x80)) = true := by
      simp only [second4, e1, Bool.and_eq_true, decide_eq_true_eq]
      split_ifs <;> omega
    simp only [decodeStep, List.cons_append, List.nil_append, isCont_ofNat, e0, e1, e2, e3, hs, hd,
      hc]
    rw [if_neg (by omega), if_neg (by omega), if_neg (by omega), if_neg (by omega),
      if_pos (by omega), if_pos trivial, if_pos trivial, if_pos trivial]

/-- The lossy decoder gives back the text that was encoded, in front of what follows it. -/
theorem fromUtf8Lossy_utf8_append (s : List Char) (rest : List UInt8) :
    fromUtf8Lossy (utf8 s ++ rest) = s ++ fromUtf8Lossy rest := by
  induction s with
  | nil => rfl
  | cons c s ih =>
    obtain ⟨b, t, hc, hstep⟩ := decodeStep_utf8EncodeChar c (utf8 s ++ rest)
    rw [utf8_cons, hc, List.append_assoc, List.cons_append, fromUtf8Lossy, hstep, ih]
    rfl

/-- The lossy decoder gives back the text that was encoded. -/
@[simp] theorem fromUtf8Lossy_utf8 (s : List Char) : fromUtf8Lossy (utf8 s) = s := by
  have happend := fromUtf8Lossy_utf8_append s []
  rwa [List.append_nil, fromUtf8Lossy, List.append_nil] at happend

/-- The strict decoder gives back the text that was encoded. -/
@[simp] theorem fromUtf8_utf8 (s : List Char) : fromUtf8 (utf8 s) = some s := by
  induction s with
  | nil => simp [fromUtf8]
  | cons c s ih =>
    obtain ⟨b, t, hc, hstep⟩ := decodeStep_utf8EncodeChar c (utf8 s)
    rw [utf8_cons, hc, List.cons_append, fromUtf8, hstep]
    simp [ih]

end Uscan
