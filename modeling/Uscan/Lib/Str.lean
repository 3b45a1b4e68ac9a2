import Uscan.Lib.Res
import Uscan.Lib.Utf8
import Mathlib.Data.List.TakeWhile

/-!
# Texts and byte offsets

Rust text is UTF-8, and an offset into it counts bytes: a slice at an offset that is not between two
characters panics. Here a text is a list of characters. `splitAtByte` cuts it at a byte offset if it
can be cut there, and `strSlice`, `strFrom`, and `strFind` are `&s[i..j]`, `&s[i..]`, and
`str::find`.

The scanner moves over the bytes of a text with loops that look for ASCII bytes only, and such a
loop stops between two characters: `takeWhile_utf8` and `takeWhile_not_utf8` say which characters it
passes over, and `skipWhile_utf8` where it stops. With offsets written as `byteLen u` for a text
`u ++ v`, every slice of the scanner is then one of `strSlice_append` or `strFrom_append`.
-/

namespace Uscan

variable {ε : Type}

/-- The length of a text in bytes. -/
def byteLen (s : List Char) : ℕ := (utf8 s).length

@[simp] theorem byteLen_nil : byteLen [] = 0 := rfl

@[simp] theorem byteLen_append (s t : List Char) : byteLen (s ++ t) = byteLen s + byteLen t := by
  simp [byteLen]

theorem byteLen_cons (c : Char) (s : List Char) :
    byteLen (c :: s) = byteLen [c] + byteLen s :=
  byteLen_append [c] s

/-- A character takes at least one byte. -/
theorem byteLen_singleton_pos (c : Char) : 0 < byteLen [c] := by
  obtain ⟨b, t, hc, -⟩ := decodeStep_utf8EncodeChar c []
  simp [byteLen, hc]

/-- A text that is not empty takes at least one byte. -/
theorem byteLen_pos {s : List Char} (h : s ≠ []) : 0 < byteLen s := by
  obtain ⟨c, t, rfl⟩ := List.exists_cons_of_ne_nil h
  have := byteLen_singleton_pos c
  rw [byteLen_cons]
  omega

/-! ## Slices -/

/-- The two parts of a text at a byte offset, if it falls between two characters. -/
def splitAtByte : List Char → ℕ → Option (List Char × List Char)
  | s, 0 => some ([], s)
  | [], _ + 1 => none
  | c :: s, n + 1 =>
    if byteLen [c] ≤ n + 1 then
      (splitAtByte s (n + 1 - byteLen [c])).map fun x => (c :: x.1, x.2)
    else none

/-- `&s[i..j]`. -/
def strSlice (s : List Char) (i j : ℕ) : Res ε (List Char) :=
  match splitAtByte s j with
  | none => .panicked
  | some (t, _) =>
    match splitAtByte t i with
    | none => .panicked
    | some (_, v) => .ok v

/-- `&s[i..]`. -/
def strFrom (s : List Char) (i : ℕ) : Res ε (List Char) :=
  match splitAtByte s i with
  | none => .panicked
  | some (_, v) => .ok v

/-- A text can be cut after a part of it. -/
theorem splitAtByte_append (u v : List Char) : splitAtByte (u ++ v) (byteLen u) = some (u, v) := by
  induction u with
  | nil => rw [byteLen_nil, splitAtByte]; rfl
  | cons c u ih =>
    have hpos := byteLen_singleton_pos c
    obtain ⟨n, hn⟩ : ∃ n, byteLen (c :: u) = n + 1 :=
      Nat.exists_eq_succ_of_ne_zero (byteLen_pos (by simp)).ne'
    have hsum := byteLen_cons c u
    have hsub : n + 1 - byteLen [c] = byteLen u := by omega
    rw [hn, List.cons_append, splitAtByte, if_pos (by omega), hsub, ih]
    rfl

/-- Two cuts of a text at one offset are the same. -/
theorem append_inj_of_byteLen {u u' v v' : List Char} (h : u ++ v = u' ++ v')
    (hlen : byteLen u = byteLen u') : u = u' ∧ v = v' := by
  have hcut := splitAtByte_append u v
  rw [h, hlen, splitAtByte_append, Option.some.injEq, Prod.mk.injEq] at hcut
  exact ⟨hcut.1.symm, hcut.2.symm⟩

/-- Where a text can be cut, the offset is the length of the first part. -/
theorem eq_of_splitAtByte {s u v : List Char} {n : ℕ} (h : splitAtByte s n = some (u, v)) :
    s = u ++ v ∧ byteLen u = n := by
  induction s generalizing n u with
  | nil =>
    cases n with
    | zero =>
      unfold splitAtByte at h
      cases h
      exact ⟨rfl, rfl⟩
    | succ n => cases h
  | cons c s ih =>
    cases n with
    | zero =>
      unfold splitAtByte at h
      cases h
      exact ⟨rfl, rfl⟩
    | succ n =>
      unfold splitAtByte at h
      split_ifs at h with hle
      -- The first character is whole, and the cut falls after it.
      obtain ⟨⟨u', v'⟩, hu, heq⟩ := Option.map_eq_some_iff.mp h
      cases heq
      obtain ⟨rfl, hlen⟩ := ih hu
      refine ⟨rfl, ?_⟩
      rw [byteLen_cons, hlen]
      omega

/-- The slice between two parts of a text. -/
theorem strSlice_append (u v w : List Char) :
    (strSlice (u ++ v ++ w) (byteLen u) (byteLen u + byteLen v) : Res ε (List Char)) = .ok v := by
  rw [strSlice, ← byteLen_append, splitAtByte_append]
  simp only [splitAtByte_append]

/-- The slice after a part of a text. -/
theorem strFrom_append (u v : List Char) :
    (strFrom (u ++ v) (byteLen u) : Res ε (List Char)) = .ok v := by
  rw [strFrom, splitAtByte_append]

/-- A cut after a part of a text is a cut of the rest. -/
theorem splitAtByte_add (u v : List Char) (n : ℕ) :
    splitAtByte (u ++ v) (byteLen u + n) = (splitAtByte v n).map fun x => (u ++ x.1, x.2) := by
  cases h : splitAtByte v n with
  | some x =>
    obtain ⟨rfl, rfl⟩ := eq_of_splitAtByte h
    rw [← byteLen_append, ← List.append_assoc, splitAtByte_append]
    rfl
  | none =>
    by_contra hsome
    obtain ⟨⟨a, b⟩, hab⟩ := Option.ne_none_iff_exists'.mp hsome
    obtain ⟨htext, hlen⟩ := eq_of_splitAtByte hab
    -- The part before the cut is at least as long as `u`, so that it starts with `u`.
    rcases List.append_eq_append_iff.mp htext with ⟨w, rfl, hv⟩ | ⟨w, rfl, hb⟩
    · rw [byteLen_append, Nat.add_left_cancel_iff] at hlen
      rw [hv, ← hlen, splitAtByte_append] at h
      cases h
    · rw [byteLen_append] at hlen
      have hn : n = 0 := by omega
      rw [hn] at h
      cases v <;> cases h

/-- A cut that is not after a part of a text is a cut of that part. -/
theorem splitAtByte_append_of_le {s : List Char} {n : ℕ} (hn : n ≤ byteLen s) (w : List Char) :
    splitAtByte (s ++ w) n = (splitAtByte s n).map fun x => (x.1, x.2 ++ w) := by
  cases h : splitAtByte s n with
  | some x =>
    obtain ⟨rfl, rfl⟩ := eq_of_splitAtByte h
    rw [List.append_assoc, splitAtByte_append]
    rfl
  | none =>
    by_contra hsome
    obtain ⟨⟨a, b⟩, hab⟩ := Option.ne_none_iff_exists'.mp hsome
    obtain ⟨htext, rfl⟩ := eq_of_splitAtByte hab
    rcases List.append_eq_append_iff.mp htext with ⟨r, rfl, -⟩ | ⟨r, rfl, -⟩
    · have hr : r = [] := by
        by_contra hne
        have := byteLen_pos hne
        rw [byteLen_append] at hn
        omega
      rw [hr, List.append_nil] at h
      have hend := splitAtByte_append s []
      rw [List.append_nil, h] at hend
      cases hend
    · rw [splitAtByte_append] at h
      cases h

/-- A slice that starts after a part of a text is a cut of the rest. -/
theorem strSlice_cut (u v : List Char) (n : ℕ) :
    (strSlice (u ++ v) (byteLen u) (byteLen u + n) : Res ε (List Char)) =
      match splitAtByte v n with
      | none => .panicked
      | some x => .ok x.1 := by
  rw [strSlice, splitAtByte_add]
  cases splitAtByte v n with
  | none => rfl
  | some x =>
    show (match splitAtByte (u ++ x.1) (byteLen u) with | none => _ | some (_, v) => _) = _
    rw [splitAtByte_append]

/-- `while !s.is_char_boundary(i) { i -= 1 }`: the last character boundary at or before `i`. -/
def floorBoundary (s : List Char) : ℕ → ℕ
  | 0 => 0
  | i + 1 => if (splitAtByte s (i + 1)).isSome then i + 1 else floorBoundary s i

/-- No character boundary falls inside a character. -/
theorem splitAtByte_inside (u v : List Char) {c : Char} {n : ℕ} (hpos : 0 < n)
    (hlt : n < byteLen [c]) : splitAtByte (u ++ c :: v) (byteLen u + n) = none := by
  by_contra hsome
  obtain ⟨⟨a, b⟩, hab⟩ := Option.ne_none_iff_exists'.mp hsome
  obtain ⟨htext, hlen⟩ := eq_of_splitAtByte hab
  -- A cut at that offset would fall after `u` and before the end of `c`.
  rcases List.append_eq_append_iff.mp htext with ⟨w, hw, hcv⟩ | ⟨w, hw, -⟩
  · rw [hw, byteLen_append] at hlen
    cases w with
    | nil =>
      rw [byteLen_nil] at hlen
      omega
    | cons c' w =>
      rw [List.cons_append] at hcv
      cases hcv
      rw [byteLen_cons] at hlen
      omega
  · rw [hw, byteLen_append] at hlen
    omega

/-- Inside a character, the last boundary is the one before it. -/
theorem floorBoundary_inside (u v : List Char) {c : Char} {n : ℕ} (hlt : n < byteLen [c]) :
    floorBoundary (u ++ c :: v) (byteLen u + n) = byteLen u := by
  induction n with
  | zero =>
    rw [Nat.add_zero]
    cases hlen : byteLen u with
    | zero => rfl
    | succ i =>
      rw [floorBoundary, ← hlen, splitAtByte_append]
      rfl
  | succ n ih =>
    rw [← Nat.add_assoc, floorBoundary, Nat.add_assoc,
      splitAtByte_inside u v (Nat.succ_pos n) hlt]
    exact ih (by omega)

/-! ## Bytes of a text -/

/-- A class of bytes that has ASCII bytes only. -/
def AsciiOnly (p : UInt8 → Bool) : Prop := ∀ b, 128 ≤ b.toNat → p b = false

/-- A class of ASCII bytes as a class of characters. -/
def asciiClass (p : UInt8 → Bool) (c : Char) : Bool :=
  decide (c.toNat < 128) && p (UInt8.ofNat c.toNat)

/-- An ASCII character is one byte. -/
theorem utf8EncodeChar_ascii {c : Char} (h : c.toNat < 128) :
    String.utf8EncodeChar c = [UInt8.ofNat c.toNat] := by
  have hle : c.val.toNat ≤ 0x7F := by
    have : c.val.toNat < 128 := h
    omega
  simp only [String.utf8EncodeChar]
  rw [if_pos hle]
  rfl

/-- The bytes of any other character are not ASCII. -/
theorem le_of_mem_utf8EncodeChar {c : Char} (h : 128 ≤ c.toNat) {b : UInt8}
    (hb : b ∈ String.utf8EncodeChar c) : 128 ≤ b.toNat := by
  have hv : 128 ≤ c.val.toNat := h
  simp only [String.utf8EncodeChar] at hb
  generalize c.val.toNat = v at hv hb
  have byte (n : ℕ) (hn : n < 256) : (UInt8.ofNat n).toNat = n := toNat_ofNat_of_lt hn
  -- The first byte of the two, three or four is at least `0xC0`, and the others at least `0x80`.
  split_ifs at hb with h1 h2 h3
  · omega
  all_goals
    simp only [List.mem_cons, List.not_mem_nil, or_false] at hb
    rcases hb with rfl | hb
    · rw [byte _ (by omega)]
      omega
  · rw [hb, byte _ (by omega)]
    omega
  · rcases hb with rfl | rfl <;> · rw [byte _ (by omega)]; omega
  · rcases hb with rfl | rfl | rfl <;> · rw [byte _ (by omega)]; omega

/-- A character in an ASCII class is one byte, in the class. -/
theorem utf8_cons_of_asciiClass {p : UInt8 → Bool} {c : Char} (h : asciiClass p c = true)
    (s : List Char) :
    utf8 (c :: s) = UInt8.ofNat c.toNat :: utf8 s ∧ p (UInt8.ofNat c.toNat) = true := by
  simp only [asciiClass, Bool.and_eq_true, decide_eq_true_eq] at h
  rw [utf8_cons, utf8EncodeChar_ascii h.1]
  exact ⟨rfl, h.2⟩

/-- No byte of a character outside an ASCII class is in the class. -/
theorem not_of_mem_utf8EncodeChar {p : UInt8 → Bool} (hp : AsciiOnly p) {c : Char}
    (h : asciiClass p c = false) {b : UInt8} (hb : b ∈ String.utf8EncodeChar c) : p b = false := by
  by_cases hc : c.toNat < 128
  · rw [utf8EncodeChar_ascii hc, List.mem_singleton] at hb
    simpa [asciiClass, hc, hb] using h
  · exact hp b (le_of_mem_utf8EncodeChar (by omega) hb)

/-- The bytes of an ASCII class at the front of a text are its characters of that class there. -/
theorem takeWhile_utf8 {p : UInt8 → Bool} (hp : AsciiOnly p) (s : List Char) :
    (utf8 s).takeWhile p = utf8 (s.takeWhile (asciiClass p)) := by
  induction s with
  | nil => rfl
  | cons c s ih =>
    cases h : asciiClass p c with
    | true =>
      obtain ⟨hc, hpc⟩ := utf8_cons_of_asciiClass h s
      rw [hc, List.takeWhile_cons_of_pos hpc, ih, List.takeWhile_cons_of_pos h,
        (utf8_cons_of_asciiClass h _).1]
    | false =>
      -- Already the first byte of the character is outside the class.
      obtain ⟨b, t, hc, -⟩ := decodeStep_utf8EncodeChar c []
      have hb := not_of_mem_utf8EncodeChar hp h (b := b) (by simp [hc])
      rw [utf8_cons, hc, List.cons_append, List.takeWhile_cons_of_neg (by simp [hb]),
        List.takeWhile_cons_of_neg (by simp [h]), utf8_nil]

/-- The bytes outside an ASCII class at the front of a text are its characters outside that class
there. -/
theorem takeWhile_not_utf8 {p : UInt8 → Bool} (hp : AsciiOnly p) (s : List Char) :
    (utf8 s).takeWhile (fun b => !p b) = utf8 (s.takeWhile fun c => !asciiClass p c) := by
  induction s with
  | nil => rfl
  | cons c s ih =>
    cases h : asciiClass p c with
    | true =>
      obtain ⟨hc, hpc⟩ := utf8_cons_of_asciiClass h s
      rw [hc, List.takeWhile_cons_of_neg (by simp [hpc]), List.takeWhile_cons_of_neg (by simp [h]),
        utf8_nil]
    | false =>
      -- All bytes of the character are outside the class, and the loop passes over them.
      rw [utf8_cons, List.takeWhile_append_of_pos, ih, List.takeWhile_cons_of_pos (by simp [h]),
        utf8_cons]
      intro b hb
      rw [not_of_mem_utf8EncodeChar hp h hb]
      rfl

/-- `while i < b.len() && p(b[i]) { i += 1 }`: the index after the loop. -/
def skipWhile {α : Type} (p : α → Bool) (b : List α) (i : ℕ) : ℕ :=
  if h : i < b.length then
    if p b[i] then skipWhile p b (i + 1) else i
  else i
termination_by b.length - i

/-- The loop passes over the elements of the class that stand at the index. -/
theorem skipWhile_eq {α : Type} (p : α → Bool) (b : List α) (i : ℕ) :
    skipWhile p b i = i + ((b.drop i).takeWhile p).length := by
  induction i using skipWhile.induct p b with
  | case1 i h hp ih =>
    rw [skipWhile, dif_pos h, if_pos hp, ih, List.drop_eq_getElem_cons h,
      List.takeWhile_cons_of_pos hp, List.length_cons]
    omega
  | case2 i h hp =>
    rw [skipWhile, dif_pos h, if_neg hp, List.drop_eq_getElem_cons h,
      List.takeWhile_cons_of_neg hp]
    rfl
  | case3 i h =>
    rw [skipWhile, dif_neg h, List.drop_eq_nil_of_le (by omega)]
    rfl

/-- The loop does not go back. -/
theorem le_skipWhile {α : Type} (p : α → Bool) (b : List α) (i : ℕ) : i ≤ skipWhile p b i := by
  rw [skipWhile_eq]
  omega

/-- Where the loop stops inside the list, an element outside the class stands. -/
theorem not_of_skipWhile {α : Type} {p : α → Bool} {b : List α} {i : ℕ}
    (h : skipWhile p b i < b.length) : p b[skipWhile p b i] = false := by
  induction i using skipWhile.induct p b with
  | case1 i hi hp ih =>
    have heq : skipWhile p b i = skipWhile p b (i + 1) := by
      rw [skipWhile, dif_pos hi, if_pos hp]
    simp only [heq] at h ⊢
    exact ih h
  | case2 i hi hp =>
    have heq : skipWhile p b i = i := by
      rw [skipWhile, dif_pos hi, if_neg hp]
    simp only [heq]
    simpa using hp
  | case3 i hi =>
    have heq : skipWhile p b i = i := by
      rw [skipWhile, dif_neg hi]
    rw [heq] at h
    exact absurd h hi

/-- The loop moves on from an element of the class. -/
theorem lt_skipWhile {α : Type} {p : α → Bool} {b : List α} {i : ℕ} (h : i < b.length)
    (hp : p b[i] = true) : i < skipWhile p b i := by
  rw [skipWhile, dif_pos h, if_pos hp]
  exact le_skipWhile p b (i + 1)

/-- The bytes of a text after a part of it. -/
theorem drop_utf8 (u v : List Char) : (utf8 (u ++ v)).drop (byteLen u) = utf8 v := by
  rw [utf8_append, byteLen, List.drop_left]

/-- A loop over the bytes of a text, after a part of it. -/
theorem skipWhile_utf8 (p : UInt8 → Bool) (u v : List Char) :
    skipWhile p (utf8 (u ++ v)) (byteLen u) = byteLen u + ((utf8 v).takeWhile p).length := by
  rw [skipWhile_eq, drop_utf8]

/-- A loop over the bytes of a class of ASCII characters goes on to the end of the characters of the
class. -/
theorem skipWhile_cut {p : UInt8 → Bool} (hp : AsciiOnly p) (u v : List Char) :
    skipWhile p (utf8 (u ++ v)) (byteLen u) = byteLen (u ++ v.takeWhile (asciiClass p)) := by
  rw [skipWhile_utf8, takeWhile_utf8 hp, byteLen_append]
  rfl

/-- A loop over the other bytes goes on to the end of the characters outside the class. -/
theorem skipWhile_not_cut {p : UInt8 → Bool} (hp : AsciiOnly p) (u v : List Char) :
    skipWhile (fun b => !p b) (utf8 (u ++ v)) (byteLen u) =
      byteLen (u ++ v.takeWhile fun c => !asciiClass p c) := by
  rw [skipWhile_utf8, takeWhile_not_utf8 hp, byteLen_append]
  rfl

/-- `b.iter().position(p)`, in terms of the elements before the first one of the class. -/
theorem findIdx?_eq {α : Type} (p : α → Bool) (b : List α) :
    b.findIdx? p = if b.any p then some (b.takeWhile fun a => !p a).length else none := by
  induction b with
  | nil => rfl
  | cons a b ih =>
    cases hp : p a with
    | true => simp [List.findIdx?_cons, hp]
    | false =>
      rw [List.findIdx?_cons, hp, ih, List.any_cons, hp, Bool.false_or,
        List.takeWhile_cons_of_pos (by simp [hp])]
      cases b.any p <;> simp

/-- A text has a byte of an ASCII class exactly when it has a character of the class. -/
theorem any_utf8 {p : UInt8 → Bool} (hp : AsciiOnly p) (s : List Char) :
    (utf8 s).any p = s.any (asciiClass p) := by
  induction s with
  | nil => rfl
  | cons c s ih =>
    cases h : asciiClass p c with
    | true =>
      obtain ⟨hc, hpc⟩ := utf8_cons_of_asciiClass h s
      simp [hc, hpc, h]
    | false =>
      have hnone : (String.utf8EncodeChar c).any p = false := by
        rw [List.any_eq_false]
        intro b hb
        simp [not_of_mem_utf8EncodeChar hp h hb]
      rw [utf8_cons, List.any_append, hnone, ih, List.any_cons, h]

/-- All bytes of a text are in an ASCII class exactly when all its characters are. -/
theorem all_utf8 {p : UInt8 → Bool} (hp : AsciiOnly p) (s : List Char) :
    (utf8 s).all p = s.all (asciiClass p) := by
  induction s with
  | nil => rfl
  | cons c s ih =>
    cases h : asciiClass p c with
    | true =>
      obtain ⟨hc, hpc⟩ := utf8_cons_of_asciiClass h s
      rw [hc, List.all_cons, hpc, ih, List.all_cons, h]
    | false =>
      obtain ⟨b, t, hc, -⟩ := decodeStep_utf8EncodeChar c []
      have hb := not_of_mem_utf8EncodeChar hp h (b := b) (by simp [hc])
      rw [utf8_cons, hc, List.cons_append, List.all_cons, hb, List.all_cons, h, Bool.false_and,
        Bool.false_and]

/-! ## ASCII -/

/-- The byte literal of an ASCII character. -/
def ascii (c : Char) : UInt8 := UInt8.ofNat c.toNat

/-- `is_ascii_alphabetic`. -/
def isAsciiAlphabetic (b : UInt8) : Bool :=
  (ascii 'A' ≤ b && b ≤ ascii 'Z') || (ascii 'a' ≤ b && b ≤ ascii 'z')

/-- `is_ascii_digit`. -/
def isAsciiDigit (b : UInt8) : Bool := ascii '0' ≤ b && b ≤ ascii '9'

/-- `is_ascii_alphanumeric`. -/
def isAsciiAlphanumeric (b : UInt8) : Bool := isAsciiAlphabetic b || isAsciiDigit b

/-- A class has ASCII bytes only if none of the other 128 bytes is in it. -/
theorem asciiOnly_of_forall {p : UInt8 → Bool}
    (h : ∀ n : Fin 256, 128 ≤ n.val → p (UInt8.ofNat n.val) = false) : AsciiOnly p := by
  intro b hb
  have := h ⟨b.toNat, b.toNat_lt⟩ hb
  rwa [UInt8.ofNat_toNat] at this

/-- The class of one ASCII byte. -/
theorem asciiOnly_beq {c : Char} (hc : c.toNat < 128) : AsciiOnly (· == ascii c) := by
  intro b hb
  have : (ascii c).toNat = c.toNat := toNat_ofNat_of_lt (by omega)
  simp only [beq_eq_false_iff_ne, ne_eq]
  rintro rfl
  omega

/-- The class of one ASCII byte, as a class of characters, is the one of its character. -/
theorem asciiClass_beq {c : Char} (hc : c.toNat < 128) :
    asciiClass (· == ascii c) = (· == c) := by
  funext c'
  rw [asciiClass, Bool.eq_iff_iff]
  simp only [Bool.and_eq_true, decide_eq_true_eq, beq_iff_eq]
  constructor
  · rintro ⟨hc', heq⟩
    have htoNat := congrArg UInt8.toNat heq
    rw [ascii, toNat_ofNat_of_lt (by omega), toNat_ofNat_of_lt (by omega)] at htoNat
    exact Char.toNat_inj.mp htoNat
  · rintro rfl
    exact ⟨hc, rfl⟩

/-- A loop over an ASCII character goes on to the end of its repetition. -/
theorem skipWhile_ascii_cut {c : Char} (hc : c.toNat < 128) (u v : List Char) :
    skipWhile (· == ascii c) (utf8 (u ++ v)) (byteLen u) =
      byteLen (u ++ v.takeWhile (· == c)) := by
  rw [skipWhile_cut (asciiOnly_beq hc), asciiClass_beq hc]

/-- The bytes of two classes of ASCII bytes. -/
theorem AsciiOnly.or {p q : UInt8 → Bool} (hp : AsciiOnly p) (hq : AsciiOnly q) :
    AsciiOnly fun b => p b || q b := by
  intro b hb
  dsimp only
  rw [hp b hb, hq b hb, Bool.or_self]

/-- The characters of two classes of ASCII bytes. -/
theorem asciiClass_or (p q : UInt8 → Bool) :
    asciiClass (fun b => p b || q b) = fun c => asciiClass p c || asciiClass q c := by
  funext c
  exact Bool.and_or_distrib_left _ _ _

/-- A character other than an ASCII character has no byte of it. -/
theorem ne_of_mem_utf8EncodeChar {q c : Char} (hq : q.toNat < 128) (h : c ≠ q) {b : UInt8}
    (hb : b ∈ String.utf8EncodeChar c) : b ≠ ascii q := by
  have hclass : asciiClass (· == ascii q) c = false := by
    rw [asciiClass_beq hq]
    simpa using h
  simpa using not_of_mem_utf8EncodeChar (asciiOnly_beq hq) hclass hb

/-- An ASCII character is its byte. -/
theorem utf8_cons_ascii {q : Char} (hq : q.toNat < 128) (s : List Char) :
    utf8 (q :: s) = ascii q :: utf8 s := by
  rw [utf8_cons, utf8EncodeChar_ascii hq]
  rfl

/-- An ASCII character is one byte long. -/
theorem byteLen_ascii {q : Char} (hq : q.toNat < 128) : byteLen [q] = 1 := by
  rw [byteLen, utf8_cons_ascii hq]
  rfl

/-- An ASCII text has as many bytes as characters. -/
theorem byteLen_eq_length {s : List Char} (h : ∀ c ∈ s, c.toNat < 128) : byteLen s = s.length := by
  induction s with
  | nil => rfl
  | cons c s ih =>
    obtain ⟨hc, hs⟩ := List.forall_mem_cons.mp h
    rw [byteLen_cons, byteLen_ascii hc, ih hs, List.length_cons, Nat.add_comm]

/-- A character that is not ASCII is more than one byte. -/
theorem one_lt_byteLen {c : Char} (h : 128 ≤ c.toNat) : 1 < byteLen [c] := by
  have hlen : byteLen [c] = c.utf8Size := by
    rw [byteLen, utf8_cons, utf8_nil, List.append_nil, String.length_utf8EncodeChar]
  have hne : c.utf8Size ≠ 1 := by
    intro hone
    have hle : c.val.toNat ≤ 127 := UInt32.le_iff_toNat_le.mp (Char.utf8Size_eq_one_iff.mp hone)
    exact absurd h (by show ¬ 128 ≤ c.val.toNat; omega)
  have hpos := c.utf8Size_pos
  omega

/-- A text starts with the byte of an ASCII character exactly when it starts with the character. -/
theorem head?_utf8 {q : Char} (hq : q.toNat < 128) (s : List Char) :
    (utf8 s).head? = some (ascii q) ↔ s.head? = some q := by
  cases s with
  | nil => simp
  | cons c s =>
    by_cases h : c = q
    · subst h
      rw [utf8_cons_ascii hq]
      simp
    · obtain ⟨b, t, hc, -⟩ := decodeStep_utf8EncodeChar c []
      have hb := ne_of_mem_utf8EncodeChar hq h (b := b) (by simp [hc])
      rw [utf8_cons, hc]
      simp [hb, h]

/-- A text ends in the byte of an ASCII character exactly when it ends in the character. -/
theorem getLast?_utf8 {q : Char} (hq : q.toNat < 128) (s : List Char) :
    (utf8 s).getLast? = some (ascii q) ↔ s.getLast? = some q := by
  rcases List.eq_nil_or_concat s with rfl | ⟨s, c, rfl⟩
  · simp
  · rw [List.concat_eq_append, utf8_append]
    by_cases h : c = q
    · subst h
      rw [utf8_cons_ascii hq]
      simp
    · obtain ⟨b, t, hc, -⟩ := decodeStep_utf8EncodeChar c []
      -- The last byte of the text is the last one of its last character.
      have hlast : (String.utf8EncodeChar c).getLast? ≠ some (ascii q) := fun hlast =>
        ne_of_mem_utf8EncodeChar hq h (List.mem_of_getLast? hlast) rfl
      rw [utf8_cons, utf8_nil, List.append_nil, List.getLast?_append, hc] at *
      simp only [List.getLast?_append, List.getLast?_singleton, Option.some_or, Option.some.injEq,
        h, iff_false]
      rw [List.getLast?_cons, Option.some_or]
      rwa [List.getLast?_cons] at hlast

/-- The byte of a text after a part of it. -/
theorem getElem?_utf8_append (u v : List Char) :
    (utf8 (u ++ v))[byteLen u]? = (utf8 v).head? := by
  rw [utf8_append, byteLen, List.getElem?_append_right le_rfl, Nat.sub_self, List.head?_eq_getElem?]

/-! ## Finding a text -/

/-- The part of a text before a character, if it does not have that character itself. -/
theorem takeWhile_ne_append {α : Type} [BEq α] [LawfulBEq α] {c : α} {x : List α} (hx : c ∉ x)
    (y : List α) :
    (x ++ c :: y).takeWhile (· != c) = x ∧ (x ++ c :: y).dropWhile (· != c) = c :: y := by
  have hne : ∀ a ∈ x, (a != c) = true := by
    intro a ha
    rw [bne_iff_ne]
    rintro rfl
    exact hx ha
  constructor
  · rw [List.takeWhile_append_of_pos hne, List.takeWhile_cons_of_neg (by simp), List.append_nil]
  · rw [List.dropWhile_append_of_pos hne, List.dropWhile_cons_of_neg (by simp)]

/-- All of a text stands before a character that it does not have. -/
theorem takeWhile_ne_of_notMem {α : Type} [BEq α] [LawfulBEq α] {c : α} {s : List α} (h : c ∉ s) :
    s.takeWhile (· != c) = s ∧ s.dropWhile (· != c) = [] := by
  have hne : ∀ a ∈ s, (a != c) = true := by
    intro a ha
    rw [bne_iff_ne]
    rintro rfl
    exact h ha
  exact ⟨List.takeWhile_eq_self_iff.mpr hne, List.dropWhile_eq_nil_iff.mpr hne⟩

/-- `str::find`: the byte offset of the first place where a text stands. -/
def strFind (pat : List Char) : List Char → Option ℕ
  | [] => if pat = [] then some 0 else none
  | c :: s =>
    if pat <+: c :: s then some 0 else (strFind pat s).map (byteLen [c] + ·)

/-- In the text `u ++ v`, the first place where `pat` stands is the front of `v`. -/
structure FoundAt (pat u v : List Char) : Prop where
  /-- It stands there. -/
  here : pat <+: v
  /-- It stands nowhere before. -/
  not_before : ∀ u', u' <:+ u → u' ≠ [] → ¬ pat <+: u' ++ v

/-- A text that is found stands at the offset, and nowhere before. -/
theorem exists_of_strFind {pat s : List Char} {n : ℕ} (h : strFind pat s = some n) :
    ∃ u v, s = u ++ v ∧ byteLen u = n ∧ FoundAt pat u v := by
  induction s generalizing n with
  | nil =>
    unfold strFind at h
    split_ifs at h with hpat
    cases h
    refine ⟨[], [], rfl, rfl, by simp [hpat], fun u' hu' hne => ?_⟩
    exact absurd (List.suffix_nil.mp hu') hne
  | cons c s ih =>
    unfold strFind at h
    split_ifs at h with hpat
    · cases h
      refine ⟨[], c :: s, rfl, rfl, hpat, fun u' hu' hne => ?_⟩
      exact absurd (List.suffix_nil.mp hu') hne
    · -- It does not stand at `c`, and is found in the rest.
      obtain ⟨m, hm, rfl⟩ := Option.map_eq_some_iff.mp h
      obtain ⟨u, v, rfl, hlen, hfound⟩ := ih hm
      refine ⟨c :: u, v, rfl, by rw [byteLen_cons, hlen], hfound.here, fun u' hu' hne => ?_⟩
      rcases List.suffix_cons_iff.mp hu' with rfl | hu'
      · exact hpat
      · exact hfound.not_before u' hu' hne

/-- Around a text that is found, a text can be cut. -/
theorem exists_cut_of_strFind {pat s : List Char} {n : ℕ} (h : strFind pat s = some n) :
    ∃ u w, s = u ++ (pat ++ w) ∧ (strSlice s 0 n : Res ε (List Char)) = .ok u ∧
      (strFrom s (n + byteLen pat) : Res ε (List Char)) = .ok w := by
  obtain ⟨u, v, rfl, rfl, hfound⟩ := exists_of_strFind h
  obtain ⟨w, rfl⟩ := hfound.here
  refine ⟨u, w, rfl, ?_, ?_⟩
  · have hslice : (strSlice ([] ++ u ++ (pat ++ w)) (byteLen []) (byteLen [] + byteLen u) :
        Res ε (List Char)) = .ok u := strSlice_append [] u (pat ++ w)
    rwa [List.nil_append, byteLen_nil, Nat.zero_add] at hslice
  · rw [← byteLen_append, ← List.append_assoc]
    exact strFrom_append (u ++ pat) w

/-- A text is found after a part without its first character. -/
theorem strFind_append {c : Char} {u : List Char} (hu : c ∉ u) (pat s : List Char) :
    strFind (c :: pat) (u ++ (c :: pat ++ s)) = some (byteLen u) := by
  induction u with
  | nil =>
    rw [List.nil_append, List.cons_append, strFind,
      if_pos (List.cons_prefix_cons.mpr ⟨rfl, List.prefix_append _ _⟩), byteLen_nil]
  | cons a u ih =>
    obtain ⟨ha, hu⟩ := not_or.mp (List.mem_cons.not.mp hu)
    rw [List.cons_append, strFind, if_neg fun h => ha (List.cons_prefix_cons.mp h).1, ih hu,
      Option.map_some, byteLen_cons a u]

/-- A character is found after a part without it. -/
theorem strFind_singleton_append {c : Char} {u : List Char} (hu : c ∉ u) (v : List Char) :
    strFind [c] (u ++ c :: v) = some (byteLen u) := strFind_append hu [] v

/-- A text that is not found stands nowhere. -/
theorem not_prefix_of_strFind {pat s : List Char} (h : strFind pat s = none) {t : List Char}
    (ht : t <:+ s) : ¬ pat <+: t := by
  induction s with
  | nil =>
    unfold strFind at h
    split_ifs at h with hpat
    rw [List.suffix_nil.mp ht, List.prefix_nil]
    exact hpat
  | cons c s ih =>
    unfold strFind at h
    split_ifs at h with hpat
    rcases List.suffix_cons_iff.mp ht with rfl | ht
    · exact hpat
    · exact ih (Option.map_eq_none_iff.mp h) ht

/-- A text that is not found stands nowhere in a part of the text. -/
theorem not_prefix_append_of_strFind {pat s w : List Char} (h : strFind pat (s ++ w) = none)
    {s' : List Char} (hs' : s' <:+ s) : ¬ pat <+: s' ++ w := by
  apply not_prefix_of_strFind h
  obtain ⟨r, rfl⟩ := hs'
  rw [List.append_assoc]
  exact List.suffix_append _ _

/-- A character that is found is the first one of its kind. -/
theorem exists_of_strFind_singleton {c : Char} {s : List Char} {n : ℕ}
    (h : strFind [c] s = some n) : ∃ u v, s = u ++ c :: v ∧ byteLen u = n ∧ c ∉ u := by
  obtain ⟨u, v, rfl, hlen, hfound⟩ := exists_of_strFind h
  obtain ⟨t, rfl⟩ := hfound.here
  refine ⟨u, t, rfl, hlen, fun hmem => ?_⟩
  obtain ⟨a, b, rfl⟩ := List.append_of_mem hmem
  exact hfound.not_before (c :: b) (List.suffix_append a _) (List.cons_ne_nil c b)
    (List.cons_prefix_cons.mpr ⟨rfl, List.nil_prefix⟩)

/-- A character that is not found does not occur. -/
theorem notMem_of_strFind {c : Char} {s : List Char} (h : strFind [c] s = none) : c ∉ s := by
  intro hmem
  obtain ⟨a, b, rfl⟩ := List.append_of_mem hmem
  exact not_prefix_of_strFind h (List.suffix_append a _)
    (List.cons_prefix_cons.mpr ⟨rfl, List.nil_prefix⟩)

/-- A text whose first character does not occur is not found. -/
theorem strFind_eq_none {c : Char} {s : List Char} (h : c ∉ s) (pat : List Char) :
    strFind (c :: pat) s = none := by
  cases hfind : strFind (c :: pat) s with
  | none => rfl
  | some n =>
    obtain ⟨u, v, rfl, -, hfound⟩ := exists_of_strFind hfind
    have hmem : c ∈ v := hfound.here.subset List.mem_cons_self
    exact absurd (List.mem_append_right u hmem) h

/-- A place of a text that is not after the one where `pat` is found: the latter lies in what
follows, and `pat` stands nowhere before the former. -/
theorem FoundAt.exists_append {pat u v s w : List Char} (h : FoundAt pat u v)
    (heq : u ++ v = s ++ w) (hle : byteLen s ≤ byteLen u) :
    ∃ r, w = r ++ v ∧ ∀ s', s' <:+ s → s' ≠ [] → ¬ pat <+: s' ++ w := by
  have key (r : List Char) (hu : u = s ++ r) (hw : w = r ++ v) :
      ∃ r, w = r ++ v ∧ ∀ s', s' <:+ s → s' ≠ [] → ¬ pat <+: s' ++ w := by
    refine ⟨r, hw, fun s' hs' hne => ?_⟩
    have hsuffix : s' ++ r <:+ u := by
      obtain ⟨t, rfl⟩ := hs'
      exact ⟨t, by rw [hu, List.append_assoc]⟩
    rw [hw, ← List.append_assoc]
    exact h.not_before _ hsuffix (by simp [hne])
  rcases List.append_eq_append_iff.mp heq with ⟨r, hs, hv⟩ | ⟨r, hu, hw⟩
  · -- The two places are the same.
    have hr : r = [] := by
      by_contra hne
      have := byteLen_pos hne
      rw [hs, byteLen_append] at hle
      omega
    subst hr
    rw [List.append_nil] at hs
    exact key [] (by rw [hs, List.append_nil]) hv.symm
  · exact key r hu hw

end Uscan
