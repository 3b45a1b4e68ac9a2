import Uscan.Lib.LastWins
import Uscan.Lib.Lines
import Uscan.Protocols.Common

/-!
# The files of vendors

`oui.rs`: the vendors of hardware addresses by their first three bytes. `parse_oui_file` reads the
file that the IEEE publishes, in which just the lines with the marker `(base 16)` count, and
`parse_compact` the compact form that is built in. Both go over the lines of a text and put what a
line gives into a map, so that a later line replaces an earlier one.

`parse_oui_file` cuts a line at byte 6 before it looks whether these bytes are digits, and panics
where a character stands across the cut. On any other text its map is exactly that of the lines of
the right form (`parseOuiFile_exact_iff`).
-/

namespace Uscan

/-- The first three bytes of a hardware address, `[u8; 3]`. -/
structure Oui where
  /-- The first byte. -/
  b0 : UInt8
  /-- The second byte. -/
  b1 : UInt8
  /-- The third byte. -/
  b2 : UInt8
  deriving DecidableEq, Repr

/-- `OuiMap`. -/
abbrev OuiMap := Finmap fun _ : Oui => List Char

/-- `str::trim_end`. -/
def trimEnd (s : List Char) : List Char := s.rdropWhile isWhitespace

/-- `u8::is_ascii_hexdigit`. -/
def isHexByte (b : UInt8) : Bool :=
  isAsciiDigit b || (ascii 'a' ≤ b && b ≤ ascii 'f') || (ascii 'A' ≤ b && b ≤ ascii 'F')

/-- A digit more of a number that has to stay below `bound`. -/
def pushHex (bound n : ℕ) (c : Char) : Option ℕ := do
  let d ← AddrParser.toDigit 16 c
  if 16 * n + d < bound then some (16 * n + d) else none

/-- The digits of a number, without a sign before them. -/
def unsigned : List Char → List Char
  | '+' :: c :: s => c :: s
  | s => s

/-- `from_str_radix(s, 16).ok()`, of a type of the integers below `bound`. -/
def fromHex (bound : ℕ) (s : List Char) : Option ℕ :=
  if s = [] then none else (unsigned s).foldlM (pushHex bound) 0

/-- `u8::from_str_radix(s, 16).ok()`. -/
def u8FromHex (s : List Char) : Option UInt8 := (fromHex 256 s).map UInt8.ofNat

/-- A digit more, where the number stays below the bound. -/
theorem pushHex_of_lt {bound n d : ℕ} {c : Char} (hc : AddrParser.toDigit 16 c = some d)
    (h : 16 * n + d < bound) : pushHex bound n c = some (16 * n + d) := by
  rw [pushHex, hc]
  exact if_pos h

namespace Oui

/-- `MARKER`. -/
def marker : List Char := "(base 16)".toList

/-- The byte of the two digits at offset `i`. An error is the `None` that `?` returns. -/
def hexByteAt (s : List Char) (i : ℕ) : Res Unit UInt8 := do
  let digits ← strSlice s i (i + 2)
  match u8FromHex digits with
  | some b => return b
  | none => .err ()

/-- The three bytes of the six digits at the front of a text. -/
def ouiAt (s : List Char) : Res Unit Oui := do
  let b0 ← hexByteAt s 0
  let b1 ← hexByteAt s 2
  let b2 ← hexByteAt s 4
  return ⟨b0, b1, b2⟩

/-- The body of the loop of `parse_oui_file`: what a line puts into the map. -/
def officialEntry (line : List Char) : Res Unit (Option (Oui × List Char)) :=
  let line := trimEnd line
  match strFind marker line with
  | none => return none
  | some markerAt =>
    if markerAt < 6 then return none
    else do
      let digits ← strSlice line 0 6
      let gap ← strSlice line 6 markerAt
      if trim gap ≠ [] ∨ (utf8 digits).all isHexByte = false then return none
      else
        let oui ← ouiAt line
        let text ← strFrom line (markerAt + byteLen marker)
        let vendor := trim text
        return if vendor ≠ [] then some (oui, vendor) else none

/-- The body of the loop of `parse_compact`: what a line puts into the map. -/
def compactEntry (line : List Char) : Res Unit (Option (Oui × List Char)) :=
  match splitOnce '\t' line with
  | none => return none
  | some (hex, vendor) =>
    if byteLen hex ≠ 6 ∨ (utf8 hex).all isHexByte = false then return none
    else do
      let oui ← ouiAt hex
      return some (oui, trim vendor)

/-- The loop of both parsers, and the test for an empty map after it. -/
def readEntries (entry : List Char → Res Unit (Option (Oui × List Char))) :
    List (List Char) → OuiMap → Res Empty (Option OuiMap)
  | [], map => .ok (unlessEmpty map)
  | line :: lines, map =>
    match entry line with
    | .ok (some (oui, vendor)) => readEntries entry lines (map.insert oui vendor)
    | .ok none => readEntries entry lines map
    | .err () => .ok none
    | .panicked => .panicked

/-- `parse_oui_file`. -/
def parseOuiFile (text : List Char) : Res Empty (Option OuiMap) :=
  readEntries officialEntry (strLines text) ∅

/-- `parse_compact`. -/
def parseCompact (text : List Char) : Res Empty (Option OuiMap) :=
  readEntries compactEntry (strLines text) ∅

/-! ## The loop -/

variable {entry : List Char → Res Unit (Option (Oui × List Char))} {lines : List (List Char)}

/-- The loop puts the entries of the lines into the map. -/
theorem readEntries_eq {f : List Char → Option (Oui × List Char)}
    (h : ∀ line ∈ lines, entry line = .ok (f line)) (map : OuiMap) :
    readEntries entry lines map = .ok (unlessEmpty (insertAll (lines.filterMap f) map)) := by
  induction lines generalizing map with
  | nil => rfl
  | cons line lines ih =>
    obtain ⟨hline, hlines⟩ := List.forall_mem_cons.mp h
    rw [readEntries, hline]
    cases hf : f line with
    | none => rw [List.filterMap_cons_none hf, ih hlines]
    | some e =>
      rw [List.filterMap_cons_some hf]
      exact ih hlines _

/-- The loop panics at the first line that panics. -/
theorem readEntries_panicked (herr : ∀ line, entry line ≠ .err ()) {line : List Char}
    (hmem : line ∈ lines) (h : entry line = .panicked) (map : OuiMap) :
    readEntries entry lines map = .panicked := by
  induction lines generalizing map with
  | nil => exact absurd hmem List.not_mem_nil
  | cons first lines ih =>
    rw [readEntries]
    rcases List.mem_cons.mp hmem with rfl | hmem
    · rw [h]
    · cases hfirst : entry first with
      | ok e =>
        cases e with
        | none => exact ih hmem map
        | some e => exact ih hmem _
      | err => exact absurd hfirst (herr first)
      | panicked => rfl

/-! ## Digits -/

/-- Two hexadecimal digits of a byte. -/
def HexPair (c d : Char) (b : UInt8) : Prop :=
  AddrParser.toDigit 16 c = some (b.toNat / 16) ∧ AddrParser.toDigit 16 d = some (b.toNat % 16)

/-- Six hexadecimal digits of three bytes. -/
def HexOf : List Char → Oui → Prop
  | [c0, d0, c1, d1, c2, d2], oui =>
    HexPair c0 d0 oui.b0 ∧ HexPair c1 d1 oui.b1 ∧ HexPair c2 d2 oui.b2
  | _, _ => False

/-- The bytes of hexadecimal digits are ASCII. -/
theorem asciiOnly_isHexByte : AsciiOnly isHexByte := asciiOnly_of_forall (by decide +kernel)

/-- The hexadecimal digits are the characters with a value. -/
theorem asciiClass_isHexByte (c : Char) :
    asciiClass isHexByte c = (AddrParser.toDigit 16 c).isSome := by
  have hascii : ∀ n : Fin 128, asciiClass isHexByte (Char.ofNat n.val) =
      (AddrParser.toDigit 16 (Char.ofNat n.val)).isSome := by decide
  by_cases hc : c.toNat < 128
  · have := hascii ⟨c.toNat, hc⟩
    rwa [Char.ofNat_toNat] at this
  · have hle (q : Char) (hq : q.toNat < 128) : ¬ c ≤ q := by
      intro hcq
      have : c.toNat ≤ q.toNat := UInt32.le_iff_toNat_le.mp hcq
      omega
    simp only [asciiClass, hc, decide_false, Bool.false_and, AddrParser.toDigit,
      hle '9' (by decide), hle 'z' (by decide), hle 'Z' (by decide), and_false, if_false,
      Option.filter_none, Option.isSome_none]

/-- A digit is an ASCII character, and its value is below 16. -/
theorem of_toDigit {c : Char} {d : ℕ} (h : AddrParser.toDigit 16 c = some d) :
    d < 16 ∧ c.toNat < 128 := by
  have hclass := asciiClass_isHexByte c
  rw [h, Option.isSome_some, asciiClass, Bool.and_eq_true, decide_eq_true_eq] at hclass
  obtain ⟨-, hlt⟩ := Option.filter_eq_some_iff.mp h
  exact ⟨of_decide_eq_true hlt, hclass.1⟩

/-- Two digits are read as their byte. -/
theorem u8FromHex_pair {c d : Char} {b : UInt8} (h : HexPair c d b) :
    u8FromHex [c, d] = some b := by
  obtain ⟨hc, hd⟩ := h
  have hsign : c ≠ '+' := by
    rintro rfl
    cases hc
  have hb := b.toNat_lt
  -- The number after each digit fits in a byte.
  have hpush : pushHex 256 0 c = some (b.toNat / 16) := by
    rw [pushHex_of_lt hc (by omega), Nat.mul_zero, Nat.zero_add]
  have hpush' : pushHex 256 (b.toNat / 16) d = some b.toNat := by
    rw [pushHex_of_lt hd (by omega), Nat.div_add_mod]
  have hunsigned : unsigned [c, d] = [c, d] := by
    rw [unsigned]
    rintro c' s heq
    cases heq
    exact hsign rfl
  rw [u8FromHex, fromHex, if_neg (List.cons_ne_nil _ _), hunsigned, List.foldlM_cons, hpush]
  show ((pushHex 256 (b.toNat / 16) d).bind fun n => some n).map UInt8.ofNat = some b
  rw [hpush', Option.bind_some, Option.map_some, UInt8.ofNat_toNat]

/-- Two digits are two bytes. -/
theorem HexPair.byteLen {c d : Char} {b : UInt8} (h : HexPair c d b) : byteLen [c, d] = 2 := by
  refine byteLen_eq_length fun x hx => ?_
  rcases List.mem_pair.mp hx with rfl | rfl
  exacts [(of_toDigit h.1).2, (of_toDigit h.2).2]

/-- The byte of two digits is read between other parts of a text. -/
theorem hexByteAt_append {u : List Char} {i : ℕ} (hu : byteLen u = i) {c d : Char} {b : UInt8}
    (h : HexPair c d b) (w : List Char) : hexByteAt (u ++ [c, d] ++ w) i = .ok b := by
  subst hu
  rw [hexByteAt, ← h.byteLen, strSlice_append, Res.ok_bind, u8FromHex_pair h]
  rfl

/-- The value of each digit of a prefix. -/
theorem HexOf.isSome {digits : List Char} {oui : Oui} (h : HexOf digits oui) :
    digits.length = 6 ∧ ∀ c ∈ digits, (AddrParser.toDigit 16 c).isSome := by
  match digits, h with
  | [c0, d0, c1, d1, c2, d2], ⟨h0, h1, h2⟩ =>
    simp [h0.1, h0.2, h1.1, h1.2, h2.1, h2.2]

/-- Digits are one byte each. -/
theorem byteLen_digits {digits : List Char}
    (h : ∀ c ∈ digits, (AddrParser.toDigit 16 c).isSome) :
    byteLen digits = digits.length := by
  refine byteLen_eq_length fun c hc => ?_
  obtain ⟨d, hd⟩ := Option.isSome_iff_exists.mp (h c hc)
  exact (of_toDigit hd).2

/-- Six digits are six bytes. -/
theorem HexOf.byteLen {digits : List Char} {oui : Oui} (h : HexOf digits oui) :
    byteLen digits = 6 := by
  obtain ⟨hlen, hdigits⟩ := h.isSome
  rw [← hlen]
  exact byteLen_digits hdigits

/-- Other characters are not among the digits. -/
theorem HexOf.notMem {digits : List Char} {oui : Oui} (h : HexOf digits oui) {c : Char}
    (hc : AddrParser.toDigit 16 c = none) : c ∉ digits := by
  intro hmem
  have hsome := h.isSome.2 c hmem
  rw [hc] at hsome
  cases hsome

/-- The test for digits accepts digits. -/
theorem HexOf.all {digits : List Char} {oui : Oui} (h : HexOf digits oui) :
    (utf8 digits).all isHexByte = true := by
  rw [all_utf8 asciiOnly_isHexByte, List.all_eq_true]
  intro c hc
  rw [asciiClass_isHexByte]
  exact h.isSome.2 c hc

/-- Two characters with values are the digits of a byte. -/
theorem exists_hexPair {c d : Char} (hc : (AddrParser.toDigit 16 c).isSome)
    (hd : (AddrParser.toDigit 16 d).isSome) : ∃ b, HexPair c d b := by
  obtain ⟨m, hm⟩ := Option.isSome_iff_exists.mp hc
  obtain ⟨n, hn⟩ := Option.isSome_iff_exists.mp hd
  have hmlt := (of_toDigit hm).1
  have hnlt := (of_toDigit hn).1
  have hb : (UInt8.ofNat (16 * m + n)).toNat = 16 * m + n := toNat_ofNat_of_lt (by omega)
  refine ⟨UInt8.ofNat (16 * m + n), ?_, ?_⟩
  · rw [hm, hb]
    exact congrArg some (by omega)
  · rw [hn, hb]
    exact congrArg some (by omega)

/-- Six bytes that pass the test for digits are the digits of a prefix. -/
theorem exists_hexOf {digits : List Char} (hlen : byteLen digits = 6)
    (hall : (utf8 digits).all isHexByte = true) : ∃ oui, HexOf digits oui := by
  rw [all_utf8 asciiOnly_isHexByte, List.all_eq_true] at hall
  have hdigits (c : Char) (hc : c ∈ digits) : (AddrParser.toDigit 16 c).isSome := by
    rw [← asciiClass_isHexByte]
    exact hall c hc
  rw [byteLen_digits hdigits] at hlen
  match digits, hlen with
  | [c0, d0, c1, d1, c2, d2], _ =>
    obtain ⟨b0, h0⟩ := exists_hexPair (hdigits c0 (by simp)) (hdigits d0 (by simp))
    obtain ⟨b1, h1⟩ := exists_hexPair (hdigits c1 (by simp)) (hdigits d1 (by simp))
    obtain ⟨b2, h2⟩ := exists_hexPair (hdigits c2 (by simp)) (hdigits d2 (by simp))
    exact ⟨⟨b0, b1, b2⟩, h0, h1, h2⟩

/-- The prefix of six digits is read at the front of a text. -/
theorem ouiAt_append {digits : List Char} {oui : Oui} (h : HexOf digits oui) (s : List Char) :
    ouiAt (digits ++ s) = .ok oui := by
  match digits, h with
  | [c0, d0, c1, d1, c2, d2], ⟨h0, h1, h2⟩ =>
    have hfirst := hexByteAt_append (u := []) rfl h0 ([c1, d1, c2, d2] ++ s)
    have hsecond := hexByteAt_append h0.byteLen h1 ([c2, d2] ++ s)
    have hlen : byteLen ([c0, d0] ++ [c1, d1]) = 4 := by
      rw [byteLen_append, h0.byteLen, h1.byteLen]
    have hthird := hexByteAt_append hlen h2 s
    simp only [List.cons_append, List.nil_append, byteLen_nil] at hfirst hsecond hthird ⊢
    rw [ouiAt, hfirst, hsecond, hthird]
    rfl

/-- Digits are of one prefix only. -/
theorem HexOf.unique {digits : List Char} {oui oui' : Oui} (h : HexOf digits oui)
    (h' : HexOf digits oui') : oui = oui' := by
  have heq := (ouiAt_append h []).symm.trans (ouiAt_append h' [])
  cases heq
  rfl

/-! ## Lines of the published file -/

/-- A line that gives a prefix a vendor: six hexadecimal digits, white space, the marker, and a text
that is not blank. Neither digits nor white space have a bracket, so that the marker is the first
one of the line (`strFind_marker`). -/
def Contributes (line : List Char) (oui : Oui) (vendor : List Char) : Prop :=
  ∃ digits gap text, line = digits ++ gap ++ marker ++ text ∧ HexOf digits oui ∧
    (∀ c ∈ gap, isWhitespace c = true) ∧ vendor = trim text ∧ vendor ≠ []

/-- A line with the marker in which a character stands across byte 6. -/
def BreaksCharacter (line : List Char) : Prop := marker <:+: line ∧ splitAtByte line 6 = none

/-- What `trim_end` takes from a line is white space. -/
theorem exists_trimEnd (line : List Char) :
    ∃ ws, line = trimEnd line ++ ws ∧ ∀ c ∈ ws, isWhitespace c = true :=
  ⟨line.rtakeWhile isWhitespace, List.rdropWhile_append_rtakeWhile.symm,
    fun _ hc => List.mem_rtakeWhile_imp hc⟩

/-- The marker is not white space, so that white space at the end of a line is after it. -/
theorem exists_of_marker_append {u text line ws : List Char}
    (hws : ∀ c ∈ ws, isWhitespace c = true) (h : u ++ marker ++ text = line ++ ws) :
    ∃ text', line = u ++ marker ++ text' ∧ text = text' ++ ws := by
  rcases List.append_eq_append_iff.mp h with ⟨r, hline, htext⟩ | ⟨r, hu, hr⟩
  · exact ⟨r, hline, htext⟩
  · rcases List.eq_nil_or_concat r with rfl | ⟨r, c, rfl⟩
    · rw [List.append_nil] at hu
      exact ⟨[], by rw [hu, List.append_nil], hr.symm⟩
    · -- The last character of the marker would be white space.
      have hend : marker.getLast? = some ')' := by decide
      have hlast := congrArg List.getLast? hu
      rw [List.concat_eq_append, ← List.append_assoc, List.getLast?_concat, List.getLast?_append,
        hend, Option.some_or] at hlast
      cases hlast
      have hmem : ')' ∈ ws := by
        rw [hr]
        simp
      exact absurd (hws ')' hmem) (by decide)

/-- White space at the end of a line makes no difference to what the line contributes. -/
theorem contributes_append {ws : List Char} (hws : ∀ c ∈ ws, isWhitespace c = true)
    (line : List Char) (oui : Oui) (vendor : List Char) :
    Contributes (line ++ ws) oui vendor ↔ Contributes line oui vendor := by
  constructor
  · rintro ⟨digits, gap, text, hline, hdigits, hgap, hvendor, hne⟩
    obtain ⟨text', hline', rfl⟩ := exists_of_marker_append hws hline.symm
    rw [trim_append_right hws] at hvendor
    exact ⟨digits, gap, text', hline', hdigits, hgap, hvendor, hne⟩
  · rintro ⟨digits, gap, text, rfl, hdigits, hgap, hvendor, hne⟩
    rw [← trim_append_right hws] at hvendor
    exact ⟨digits, gap, text ++ ws, List.append_assoc _ _ _, hdigits, hgap, hvendor, hne⟩

/-- White space at the end of a line makes no difference to the characters that it breaks. -/
theorem breaksCharacter_append {ws : List Char} (hws : ∀ c ∈ ws, isWhitespace c = true)
    (line : List Char) : BreaksCharacter (line ++ ws) ↔ BreaksCharacter line := by
  have hinfix : marker <:+: line ++ ws ↔ marker <:+: line := by
    constructor
    · rintro ⟨u, text, h⟩
      obtain ⟨text', hline, -⟩ := exists_of_marker_append hws h
      exact ⟨u, text', hline.symm⟩
    · intro h
      exact h.trans (List.prefix_append line ws).isInfix
  rw [BreaksCharacter, BreaksCharacter, hinfix]
  refine and_congr_right fun h => ?_
  obtain ⟨u, text, rfl⟩ := h
  have hmarker : byteLen marker = 9 := by decide
  rw [splitAtByte_append_of_le (by simp only [byteLen_append]; omega), Option.map_eq_none_iff]

/-- Neither digits nor white space have the first character of the marker. -/
theorem notMem_head {digits gap : List Char} {oui : Oui} (hdigits : HexOf digits oui)
    (hgap : ∀ c ∈ gap, isWhitespace c = true) : '(' ∉ digits ++ gap := by
  rw [List.mem_append, not_or]
  exact ⟨hdigits.notMem (by decide), fun hmem => absurd (hgap '(' hmem) (by decide)⟩

/-- In a line that contributes, the marker is found after the digits and the white space. -/
theorem strFind_marker {digits gap : List Char} {oui : Oui} (hdigits : HexOf digits oui)
    (hgap : ∀ c ∈ gap, isWhitespace c = true) (text : List Char) :
    strFind marker (digits ++ gap ++ marker ++ text) = some (byteLen digits + byteLen gap) := by
  rw [List.append_assoc _ marker, ← byteLen_append]
  exact strFind_append (notMem_head hdigits hgap) _ _

/-- Where the marker stands before byte 6, no character stands across that byte. -/
theorem splitAtByte_marker {u : List Char} (hu : byteLen u < 6) (text : List Char) :
    splitAtByte (u ++ marker ++ text) 6 ≠ none := by
  obtain ⟨a, b, hmarker, hcut⟩ : ∃ a b, marker = a ++ b ∧ byteLen (u ++ a) = 6 := by
    have hascii : ∀ c ∈ marker, c.toNat < 128 := List.forall_iff_forall_mem.mp (by decide)
    have hlen : marker.length = 9 := by decide
    refine ⟨marker.take (6 - byteLen u), marker.drop (6 - byteLen u),
      (List.take_append_drop _ _).symm, ?_⟩
    rw [byteLen_append, byteLen_eq_length fun c hc => hascii c (List.mem_of_mem_take hc),
      List.length_take]
    omega
  rw [hmarker, ← List.append_assoc, List.append_assoc (u ++ a), ← hcut, splitAtByte_append]
  exact Option.some_ne_none _

/-- What a line contributes whose marker is found after six bytes and a gap. -/
theorem contributes_iff {six gap text : List Char} (hsix : byteLen six = 6)
    (hfind : strFind marker (six ++ gap ++ marker ++ text) = some (byteLen six + byteLen gap))
    (oui : Oui) (vendor : List Char) :
    Contributes (six ++ gap ++ marker ++ text) oui vendor ↔
      HexOf six oui ∧ (∀ c ∈ gap, isWhitespace c = true) ∧ vendor = trim text ∧ vendor ≠ [] := by
  constructor
  · rintro ⟨digits, gap', text', hline, hdigits, hgap, hvendor, hne⟩
    rw [hline, strFind_marker hdigits hgap] at hfind
    -- The marker is found once, and so the parts before and after it are the same.
    rw [hdigits.byteLen, hsix, Option.some.injEq, Nat.add_left_cancel_iff] at hfind
    simp only [List.append_assoc] at hline
    obtain ⟨rfl, hrest⟩ := append_inj_of_byteLen hline (hsix.trans hdigits.byteLen.symm)
    obtain ⟨rfl, hmarker⟩ := append_inj_of_byteLen hrest hfind.symm
    cases List.append_cancel_left hmarker
    exact ⟨hdigits, hgap, hvendor, hne⟩
  · rintro ⟨hdigits, hgap, hvendor, hne⟩
    exact ⟨six, gap, text, rfl, hdigits, hgap, hvendor, hne⟩

/-- The slices of a line whose marker is found after six bytes and a gap. -/
theorem officialEntry_cut {line six gap text : List Char}
    (hline : trimEnd line = six ++ gap ++ marker ++ text) (hsix : byteLen six = 6)
    (hfind : strFind marker (trimEnd line) = some (byteLen six + byteLen gap)) :
    officialEntry line =
      if trim gap ≠ [] ∨ (utf8 six).all isHexByte = false then .ok none
      else do
        let oui ← ouiAt (trimEnd line)
        return if trim text ≠ [] then some (oui, trim text) else none := by
  have hslice : (strSlice (trimEnd line) 0 6 : Res Unit _) = .ok six := by
    have h := strSlice_append (ε := Unit) [] six (gap ++ marker ++ text)
    rw [byteLen_nil, Nat.zero_add, hsix, List.nil_append, ← List.append_assoc,
      ← List.append_assoc] at h
    rw [hline, h]
  have hgap : (strSlice (trimEnd line) 6 (byteLen six + byteLen gap) : Res Unit _) = .ok gap := by
    have h := strSlice_append (ε := Unit) six gap (marker ++ text)
    rw [hsix, ← List.append_assoc] at h
    rw [hline, hsix, h]
  have htext : (strFrom (trimEnd line) (byteLen six + byteLen gap + byteLen marker) :
      Res Unit _) = .ok text := by
    have h := strFrom_append (ε := Unit) (six ++ gap ++ marker) text
    rw [byteLen_append, byteLen_append] at h
    rw [hline, h]
  rw [officialEntry]
  simp only [hfind, hslice, hgap, htext, Res.ok_bind]
  rw [if_neg (by omega)]
  rfl

/-- Such a line gives the entry that it contributes. -/
theorem officialEntry_cut_spec {line six gap text : List Char}
    (hline : trimEnd line = six ++ gap ++ marker ++ text) (hsix : byteLen six = 6)
    (hfind : strFind marker (trimEnd line) = some (byteLen six + byteLen gap)) :
    ∃ e, officialEntry line = .ok e ∧
      ∀ oui vendor, Contributes (trimEnd line) oui vendor ↔ e = some (oui, vendor) := by
  rw [officialEntry_cut hline hsix hfind]
  rw [hline] at hfind ⊢
  simp only [contributes_iff hsix hfind]
  by_cases hbad : trim gap ≠ [] ∨ (utf8 six).all isHexByte = false
  · rw [if_pos hbad]
    refine ⟨none, rfl, fun oui vendor => iff_of_false ?_ (Option.some_ne_none _).symm⟩
    rintro ⟨hdigits, hgap, -⟩
    rcases hbad with hgap' | hall
    · exact hgap' (trim_eq_nil.mpr hgap)
    · rw [hdigits.all] at hall
      cases hall
  · obtain ⟨hgap, hall⟩ := not_or.mp hbad
    rw [not_ne_iff, trim_eq_nil] at hgap
    obtain ⟨oui, hdigits⟩ := exists_hexOf hsix (eq_true_of_ne_false hall)
    -- Six digits and blanks up to the marker: the rest of the line is the name, unless it is blank.
    rw [if_neg hbad, List.append_assoc six, List.append_assoc six, ouiAt_append hdigits,
      Res.ok_bind]
    refine ⟨_, rfl, fun oui' vendor => ?_⟩
    constructor
    · rintro ⟨hdigits', -, rfl, hne⟩
      rw [if_pos hne, hdigits.unique hdigits']
    · intro h
      split_ifs at h with hne
      cases h
      exact ⟨hdigits, hgap, rfl, hne⟩

/-- Where the marker is found in a line. -/
inductive MarkerAt (line : List Char) : Prop where
  /-- It does not stand in the line. -/
  | nowhere (h : ¬ marker <:+: line) (hfind : strFind marker line = none)
  /-- It starts before byte 6. -/
  | early {u text : List Char} (hline : line = u ++ marker ++ text)
    (hfind : strFind marker line = some (byteLen u)) (hu : byteLen u < 6)
  /-- It starts later, and a character stands across byte 6. -/
  | broken {n : ℕ} (h : BreaksCharacter line) (hfind : strFind marker line = some n) (hn : 6 ≤ n)
  /-- It stands after six bytes and a gap. -/
  | after {six gap text : List Char} (hline : line = six ++ gap ++ marker ++ text)
    (hsix : byteLen six = 6) (hfind : strFind marker line = some (byteLen six + byteLen gap))

/-- Each line is in one of these cases. -/
theorem markerAt (line : List Char) : MarkerAt line := by
  cases hfind : strFind marker line with
  | none =>
    refine .nowhere ?_ hfind
    rintro ⟨u, text, h⟩
    rw [List.append_assoc] at h
    exact not_prefix_of_strFind hfind ⟨u, h⟩ (List.prefix_append _ _)
  | some n =>
    obtain ⟨u, v, hline, rfl, hfound⟩ := exists_of_strFind hfind
    obtain ⟨text, rfl⟩ := hfound.here
    have hmarker : line = u ++ marker ++ text := by rw [hline, List.append_assoc]
    by_cases hu : byteLen u < 6
    · exact .early hmarker hfind hu
    · cases hcut : splitAtByte line 6 with
      | none => exact .broken ⟨⟨u, text, hmarker.symm⟩, hcut⟩ hfind (Nat.not_lt.mp hu)
      | some x =>
        obtain ⟨six, rest⟩ := x
        obtain ⟨hcutLine, hsix⟩ := eq_of_splitAtByte hcut
        -- The place of the marker is not before the cut, so that it lies in the rest.
        obtain ⟨gap, rfl, -⟩ := hfound.exists_append (hline.symm.trans hcutLine) (by omega)
        have hafter : line = six ++ gap ++ marker ++ text := by
          simpa only [List.append_assoc] using hcutLine
        have hlen := congrArg byteLen (hmarker.symm.trans hafter)
        simp only [byteLen_append] at hlen
        refine .after hafter hsix ?_
        rw [hfind]
        exact congrArg some (by omega)

/-- A line either breaks a character and panics, or gives the entry that it contributes. -/
theorem officialEntry_spec (line : List Char) :
    (BreaksCharacter line ∧ officialEntry line = .panicked) ∨
      (¬ BreaksCharacter line ∧ ∃ e, officialEntry line = .ok e ∧
        ∀ oui vendor, Contributes line oui vendor ↔ e = some (oui, vendor)) := by
  -- Both sides are about the line without the white space at its end.
  obtain ⟨ws, hline, hws⟩ := exists_trimEnd line
  have hbreaks : BreaksCharacter line ↔ BreaksCharacter (trimEnd line) := by
    have happend := breaksCharacter_append hws (trimEnd line)
    rwa [← hline] at happend
  have hcontr (oui : Oui) (vendor : List Char) :
      Contributes line oui vendor ↔ Contributes (trimEnd line) oui vendor := by
    have happend := contributes_append hws (trimEnd line) oui vendor
    rwa [← hline] at happend
  simp only [hbreaks, hcontr]
  cases markerAt (trimEnd line) with
  | nowhere h hfind =>
    refine .inr ⟨fun hb => h hb.1, none, ?_, fun oui vendor => ?_⟩
    · rw [officialEntry, hfind]
      rfl
    · refine iff_of_false ?_ (Option.some_ne_none _).symm
      rintro ⟨digits, gap, text, hline, -⟩
      exact h ⟨digits ++ gap, text, hline.symm⟩
  | @early u text hline hfind hu =>
    have hwhole : ¬ BreaksCharacter (trimEnd line) := by
      rintro ⟨-, hcut⟩
      rw [hline] at hcut
      exact splitAtByte_marker hu text hcut
    refine .inr ⟨hwhole, none, ?_, fun oui vendor => ?_⟩
    · rw [officialEntry]
      simp only [hfind, if_pos hu]
      rfl
    · -- In a line that contributes, the marker is after the six digits.
      refine iff_of_false ?_ (Option.some_ne_none _).symm
      rintro ⟨digits, gap, text', h, hdigits, hgap, -⟩
      rw [h, strFind_marker hdigits hgap, hdigits.byteLen, Option.some.injEq] at hfind
      omega
  | broken h hfind hn =>
    refine .inl ⟨h, ?_⟩
    rw [officialEntry]
    simp only [hfind, if_neg (Nat.not_lt.mpr hn), strSlice, h.2]
    rfl
  | @after six gap text hline hsix hfind =>
    have hwhole : ¬ BreaksCharacter (trimEnd line) := by
      rintro ⟨-, hcut⟩
      rw [hline, List.append_assoc six, List.append_assoc six, ← hsix, splitAtByte_append] at hcut
      cases hcut
    exact .inr ⟨hwhole, officialEntry_cut_spec hline hsix hfind⟩

/-! ## The published file -/

/-- The loop gives the map in which the last line wins, if each line gives what it contributes. -/
theorem readEntries_lastWins {contributes : List Char → Oui → List Char → Prop}
    (h : ∀ line ∈ lines, ∃ e, entry line = .ok e ∧
      ∀ oui vendor, contributes line oui vendor ↔ e = some (oui, vendor)) :
    ∃ result, readEntries entry lines ∅ = .ok result ∧ LastWins contributes lines result := by
  choose! f hf hcontr using h
  exact ⟨_, readEntries_eq hf ∅, lastWins_insertAll hcontr⟩

/-- One line that breaks a character is enough for a panic. -/
theorem parseOuiFile_panicked {text line : List Char} (hmem : line ∈ strLines text)
    (h : BreaksCharacter line) : parseOuiFile text = .panicked := by
  refine readEntries_panicked (fun line herr => ?_) hmem ?_ ∅
  · rcases officialEntry_spec line with ⟨-, hline⟩ | ⟨-, e, hline, -⟩ <;>
      · rw [hline] at herr
        cases herr
  · rcases officialEntry_spec line with ⟨-, hline⟩ | ⟨hnot, -⟩
    · exact hline
    · exact absurd h hnot

/-- Of a text without a broken character, the map is exactly that of the lines of the right form. -/
theorem parseOuiFile_lastWins {text : List Char}
    (h : ∀ line ∈ strLines text, ¬ BreaksCharacter line) :
    ∃ result, parseOuiFile text = .ok result ∧ LastWins Contributes (strLines text) result := by
  refine readEntries_lastWins fun line hmem => ?_
  rcases officialEntry_spec line with ⟨hbreaks, -⟩ | ⟨-, hline⟩
  · exact absurd hbreaks (h line hmem)
  · exact hline

/-- A result of the parser is that of a text without a broken character. -/
theorem lastWins_of_parseOuiFile {text : List Char} {result : Option OuiMap}
    (h : parseOuiFile text = .ok result) :
    (∀ line ∈ strLines text, ¬ BreaksCharacter line) ∧
      LastWins Contributes (strLines text) result := by
  have hwhole : ∀ line ∈ strLines text, ¬ BreaksCharacter line := by
    intro line hmem hbreaks
    rw [parseOuiFile_panicked hmem hbreaks] at h
    cases h
  obtain ⟨result', hok, hlast⟩ := parseOuiFile_lastWins hwhole
  rw [h, Res.ok.injEq] at hok
  rw [hok]
  exact ⟨hwhole, hlast⟩

/-- The parser returns, with the map of the lines of the right form, exactly when no line with the
marker has a character across its byte 6. -/
theorem parseOuiFile_exact_iff (text : List Char) :
    (∃ result, parseOuiFile text = .ok result ∧ LastWins Contributes (strLines text) result) ↔
      ∀ line ∈ strLines text, ¬ BreaksCharacter line := by
  constructor
  · rintro ⟨result, hok, -⟩
    exact (lastWins_of_parseOuiFile hok).1
  · exact parseOuiFile_lastWins

/-- A line whose sixth digit has been mistyped, as a character of two bytes. -/
def mistyped : List Char := "00112é (base 16)\tVendor".toList

/-- The mistyped line is not skipped. -/
theorem not_parseOuiFile_exact :
    ¬ ∀ text, ∃ result, parseOuiFile text = .ok result ∧
      LastWins Contributes (strLines text) result := by
  intro h
  obtain ⟨result, hok, -⟩ := h mistyped
  have hmem : mistyped ∈ strLines mistyped := by decide
  rw [parseOuiFile_panicked hmem ⟨by decide, by decide⟩] at hok
  cases hok

end Oui

end Uscan
