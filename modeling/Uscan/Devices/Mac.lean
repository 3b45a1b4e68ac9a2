import Uscan.Devices

/-!
# The text of a MAC address

`normalize_mac` is given the texts of many engines, some of which are serial numbers or model names.
It keeps the hexadecimal digits of a text and drops all other characters; so it rewrites a text with
twelve digits among letters of other words too, although its comment speaks of separators only
(`normalizeMac_exact_iff`). The digits of the result are those of the text in upper case, so that a
second time changes nothing (`normalizeMac_normalizeMac`).
-/

namespace Uscan

/-- The hexadecimal digits of a text, in upper case. -/
def macDigits (s : List Char) : List Char := (s.filter isAsciiHexdigit).map toAsciiUppercase

/-- A separator of an address: a colon, a hyphen, a dot, or a space. -/
def isSeparator (c : Char) : Bool := c == ':' || c == '-' || c == '.' || c == ' '

/-- All characters of a text but the digits are separators. -/
def OnlySeparators (s : List Char) : Prop :=
  ∀ c ∈ s, isAsciiHexdigit c = true ∨ isSeparator c = true

/-- The text of an address: twelve digits, and otherwise separators only. -/
def IsMac (s : List Char) : Prop := (macDigits s).length = 12 ∧ OnlySeparators s

/-- Six groups of two digits, joined by colons. -/
def sixGroups (digits : List Char) : List Char :=
  [':'].intercalate ((List.range 6).map fun i => (digits.drop (i * 2)).take 2)

/-- A property of the hexadecimal digits can be checked on the characters up to `f`. -/
theorem forall_hexdigit {P : Char → Prop}
    (h : ∀ n < 103, isAsciiHexdigit (Char.ofNat n) = true → P (Char.ofNat n)) {c : Char}
    (hc : isAsciiHexdigit c = true) : P c := by
  have hlt : c.toNat < 103 := by
    simp only [isAsciiHexdigit, Char.isDigit, Bool.or_eq_true, Bool.and_eq_true, decide_eq_true_eq,
      Char.le_def, UInt32.le_iff_toNat_le] at hc
    have hval : c.val.toNat = c.toNat := rfl
    have hlast : 'f'.val.toNat = 102 ∧ 'F'.val.toNat = 70 ∧ '9'.val.toNat = 57 := ⟨rfl, rfl, rfl⟩
    simp at hc
    omega
  have := h c.toNat hlt
  rw [Char.ofNat_toNat] at this
  exact this hc

/-- A hexadecimal digit in upper case is one. -/
theorem isAsciiHexdigit_toAsciiUppercase {c : Char} (h : isAsciiHexdigit c = true) :
    isAsciiHexdigit (toAsciiUppercase c) = true :=
  forall_hexdigit (P := fun c => isAsciiHexdigit (toAsciiUppercase c) = true) (by decide +kernel) h

/-- A hexadecimal digit in upper case stays so. -/
theorem toAsciiUppercase_toAsciiUppercase {c : Char} (h : isAsciiHexdigit c = true) :
    toAsciiUppercase (toAsciiUppercase c) = toAsciiUppercase c :=
  forall_hexdigit (P := fun c => toAsciiUppercase (toAsciiUppercase c) = toAsciiUppercase c)
    (by decide +kernel) h

/-- The digits of a text are digits. -/
theorem isAsciiHexdigit_of_mem_macDigits {s : List Char} {c : Char} (h : c ∈ macDigits s) :
    isAsciiHexdigit c = true := by
  obtain ⟨d, hd, rfl⟩ := List.mem_map.mp h
  exact isAsciiHexdigit_toAsciiUppercase (List.mem_filter.mp hd).2

/-- The digits of digits in upper case are these. -/
theorem macDigits_macDigits (s : List Char) : macDigits (macDigits s) = macDigits s := by
  have hall : (macDigits s).filter isAsciiHexdigit = macDigits s :=
    List.filter_eq_self.mpr fun c hc => isAsciiHexdigit_of_mem_macDigits hc
  calc macDigits (macDigits s) = (macDigits s).map toAsciiUppercase := by rw [macDigits, hall]
    _ = (s.filter isAsciiHexdigit).map (toAsciiUppercase ∘ toAsciiUppercase) := by
        rw [macDigits, List.map_map]
    _ = macDigits s := List.map_congr_left fun c hc =>
        toAsciiUppercase_toAsciiUppercase (List.mem_filter.mp hc).2

/-- The colons between the digits are no digits. -/
theorem filter_colonPairs (digits : List Char) :
    (colonPairs digits).filter isAsciiHexdigit = digits.filter isAsciiHexdigit := by
  induction digits using colonPairs.induct with
  | case1 a b c s ih =>
    have hcolon : isAsciiHexdigit ':' = false := by decide
    rw [colonPairs]
    simp only [List.filter_cons, hcolon] at ih ⊢
    rw [ih]
    rfl
  | case2 s h => rw [colonPairs]; exact h

/-- Between the digits there are colons only. -/
theorem mem_colonPairs {digits : List Char} {c : Char} (h : c ∈ colonPairs digits) :
    c ∈ digits ∨ c = ':' := by
  induction digits using colonPairs.induct with
  | case1 a b d s ih =>
    rw [colonPairs] at h
    simp only [List.mem_cons] at h ih ⊢
    tauto
  | case2 s hs =>
    rw [colonPairs] at h
    · exact .inl h
    · exact hs

/-- Twelve digits in pairs are six groups. -/
theorem colonPairs_eq_sixGroups :
    ∀ {digits : List Char}, digits.length = 12 → colonPairs digits = sixGroups digits
  | [_, _, _, _, _, _, _, _, _, _, _, _], _ => rfl

/-! ## Normal forms -/

/-- A text with twelve digits. -/
theorem normalizeMac_pos {s : List Char} (h : (macDigits s).length = 12) :
    normalizeMac s = sixGroups (macDigits s) := by
  have hdef : normalizeMac s = colonPairs (macDigits s) := if_pos h
  rw [hdef, colonPairs_eq_sixGroups h]

/-- Any other text. -/
theorem normalizeMac_neg {s : List Char} (h : (macDigits s).length ≠ 12) : normalizeMac s = s :=
  if_neg h

/-- The digits stay, in upper case. -/
theorem macDigits_normalizeMac {s : List Char} (h : (macDigits s).length = 12) :
    macDigits (normalizeMac s) = macDigits s := by
  have hfilter := filter_colonPairs (macDigits s)
  rw [colonPairs_eq_sixGroups h, ← normalizeMac_pos h] at hfilter
  rw [macDigits, hfilter, ← macDigits, macDigits_macDigits]

/-- A second time changes nothing. -/
theorem normalizeMac_normalizeMac (s : List Char) :
    normalizeMac (normalizeMac s) = normalizeMac s := by
  by_cases h : (macDigits s).length = 12
  · have hdigits := macDigits_normalizeMac h
    rw [normalizeMac_pos (by rw [hdigits]; exact h), hdigits, ← normalizeMac_pos h]
  · rw [normalizeMac_neg h, normalizeMac_neg h]

/-- A normal form has digits and colons only. -/
theorem onlySeparators_normalizeMac {s : List Char} (h : (macDigits s).length = 12) :
    OnlySeparators (normalizeMac s) := by
  intro c hc
  rw [normalizeMac_pos h, ← colonPairs_eq_sixGroups h] at hc
  rcases mem_colonPairs hc with hmem | rfl
  · exact .inl (isAsciiHexdigit_of_mem_macDigits hmem)
  · exact .inr (by decide)

/-- `normalize_mac` rewrites the texts of addresses, and no others, as long as a text with twelve
digits has separators only besides. -/
theorem normalizeMac_exact_iff (s : List Char) :
    (normalizeMac (normalizeMac s) = normalizeMac s ∧
      (IsMac s → normalizeMac s = sixGroups (macDigits s)) ∧ (¬ IsMac s → normalizeMac s = s)) ↔
      ((macDigits s).length = 12 → OnlySeparators s) := by
  constructor
  · rintro ⟨-, -, hother⟩ hlength
    by_contra hnot
    -- The text is left as it is, but what is returned has separators only.
    have hsame := hother fun hmac => hnot hmac.2
    rw [← hsame] at hnot
    exact hnot (onlySeparators_normalizeMac hlength)
  · intro h
    refine ⟨normalizeMac_normalizeMac s, fun hmac => normalizeMac_pos hmac.1, fun hmac => ?_⟩
    exact normalizeMac_neg fun hlength => hmac ⟨hlength, h hlength⟩

/-- A serial number with twelve digits is rewritten. -/
theorem normalizeMac_serial :
    ¬ IsMac "SN-001122334455".toList ∧
      normalizeMac "SN-001122334455".toList = "00:11:22:33:44:55".toList ∧
      normalizeMac "SN-001122334455".toList ≠ "SN-001122334455".toList := by
  refine ⟨?_, by decide, by decide⟩
  rintro ⟨-, h⟩
  exact absurd (h 'S' (by decide)) (by decide)

end Uscan
