import Uscan.Devices
import Uscan.Lib.Bytes
import Uscan.Lib.Str
import Mathlib.Data.List.DropRight

/-!
# What the protocol parsers share

The text functions of the standard library that the parsers use, and the helpers of which several
protocol modules hold a copy: `cstring`, `extract_xml_string`, and the text of a hardware address.
A parser takes the source address and the bytes of a datagram, and returns the devices that it
reports, or panics.

A datagram is far shorter than `2^63` bytes, so that no cursor of a parser overflows; what can panic
is an index or a slice out of range, and a slice of a text inside a character.
-/

namespace Uscan

/-! ## Text functions of the standard library -/

/-- `char::is_whitespace`: the Unicode property `White_Space`. -/
def isWhitespace (c : Char) : Bool :=
  (9 ≤ c.toNat && c.toNat ≤ 13) || c.toNat == 0x20 || c.toNat == 0x85 || c.toNat == 0xA0 ||
    c.toNat == 0x1680 || (0x2000 ≤ c.toNat && c.toNat ≤ 0x200A) || c.toNat == 0x2028 ||
    c.toNat == 0x2029 || c.toNat == 0x202F || c.toNat == 0x205F || c.toNat == 0x3000

/-- `str::trim`. -/
def trim (s : List Char) : List Char := (s.dropWhile isWhitespace).rdropWhile isWhitespace

/-- White space before a text is trimmed. -/
theorem trim_append_left {ws : List Char} (hws : ∀ c ∈ ws, isWhitespace c = true)
    (s : List Char) : trim (ws ++ s) = trim s := by
  rw [trim, List.dropWhile_append_of_pos hws, trim]

/-- White space after a text is trimmed. -/
theorem trim_append_right {ws : List Char} (hws : ∀ c ∈ ws, isWhitespace c = true)
    (s : List Char) : trim (s ++ ws) = trim s := by
  have hdrop (t : List Char) :
      (t ++ ws).rdropWhile isWhitespace = t.rdropWhile isWhitespace := by
    rw [List.rdropWhile, List.reverse_append,
      List.dropWhile_append_of_pos fun c hc => hws c (List.mem_reverse.mp hc), List.rdropWhile]
  rw [trim, List.dropWhile_append, trim]
  split_ifs with hblank
  · rw [List.isEmpty_iff.mp hblank, List.dropWhile_eq_nil_iff.mpr hws]
  · exact hdrop _

/-- A text is trimmed to nothing exactly when it is blank. -/
theorem trim_eq_nil {s : List Char} : trim s = [] ↔ ∀ c ∈ s, isWhitespace c = true := by
  constructor
  · intro h
    rw [trim, List.rdropWhile_eq_nil_iff] at h
    intro c hc
    rw [← List.takeWhile_append_dropWhile (p := isWhitespace) (l := s)] at hc
    rcases List.mem_append.mp hc with hc | hc
    · exact List.mem_takeWhile_imp hc
    · exact h c hc
  · intro h
    rw [trim, List.dropWhile_eq_nil_iff.mpr h, List.rdropWhile_nil]

/-- What is left of a trimmed text stands in the text. -/
theorem mem_of_mem_trim {c : Char} {s : List Char} (h : c ∈ trim s) : c ∈ s :=
  (List.dropWhile_suffix _).subset ((List.rdropWhile_prefix isWhitespace _).subset h)

/-- A character that is no white space is not trimmed. -/
theorem mem_trim {c : Char} {s : List Char} (h : c ∈ s) (hc : isWhitespace c = false) :
    c ∈ trim s := by
  rw [← List.takeWhile_append_dropWhile (p := isWhitespace) (l := s)] at h
  rcases List.mem_append.mp h with hmem | hmem
  · rw [List.mem_takeWhile_imp hmem] at hc
    cases hc
  · rw [← List.rdropWhile_append_rtakeWhile (p := isWhitespace) (l := s.dropWhile isWhitespace)]
      at hmem
    rcases List.mem_append.mp hmem with hmem | hmem
    · exact hmem
    · rw [List.mem_rtakeWhile_imp hmem] at hc
      cases hc

/-- A text that starts with another character is trimmed at its end only. -/
theorem head?_trim {c : Char} (hc : isWhitespace c = false) (s : List Char) :
    (trim (c :: s)).head? = some c := by
  have hmem := mem_trim (List.mem_cons_self (a := c) (l := s)) hc
  have hpre := List.rdropWhile_prefix isWhitespace (c :: s)
  rw [trim, List.dropWhile_cons_of_neg (by simp [hc])] at hmem ⊢
  cases htrim : (c :: s).rdropWhile isWhitespace with
  | nil =>
    rw [htrim] at hmem
    cases hmem
  | cons a t =>
    rw [htrim, List.cons_prefix_cons] at hpre
    rw [List.head?_cons, hpre.1]

/-- A trimmed text has no white space around it. -/
theorem trim_trim (s : List Char) : trim (trim s) = trim s := by
  have hfront : (trim s).dropWhile isWhitespace = trim s := by
    have hhead := List.head?_dropWhile_not isWhitespace s
    have hpre := List.rdropWhile_prefix isWhitespace (s.dropWhile isWhitespace)
    rw [trim]
    cases htrim : (s.dropWhile isWhitespace).rdropWhile isWhitespace with
    | nil => rfl
    | cons c t =>
      rw [htrim] at hpre
      obtain ⟨w, hw⟩ := hpre
      rw [← hw] at hhead
      exact List.dropWhile_cons_of_neg (by simpa using hhead)
  rw [trim, hfront, trim, List.rdropWhile_idempotent]

/-- `char::to_ascii_lowercase`. -/
def toAsciiLowercase (c : Char) : Char :=
  if 'A' ≤ c ∧ c ≤ 'Z' then Char.ofNat (c.toNat + 32) else c

/-- `str::eq_ignore_ascii_case`. -/
def eqIgnoreAsciiCase (s t : List Char) : Bool :=
  s.map toAsciiLowercase == t.map toAsciiLowercase

/-- `str::contains`, of a text. -/
def strContains (pat s : List Char) : Bool := (strFind pat s).isSome

/-- `str::strip_prefix`, or the text itself if it has another start. -/
def stripPrefixOr (pre s : List Char) : List Char := (s.dropPrefix? pre).getD s

/-- The text before the first `pat`: the first item of `str::split`. -/
def splitFirst (pat s : List Char) : Res Empty (List Char) :=
  match strFind pat s with
  | some i => strSlice s 0 i
  | none => .ok s

/-- `str::split_once`, at a character. -/
def splitOnce (c : Char) (s : List Char) : Option (List Char × List Char) :=
  match s.dropWhile (· != c) with
  | [] => none
  | _ :: v => some (s.takeWhile (· != c), v)

/-- A text is split at the first occurrence of the character. -/
theorem splitOnce_append {c : Char} {u : List Char} (hu : c ∉ u) (v : List Char) :
    splitOnce c (u ++ c :: v) = some (u, v) := by
  obtain ⟨htake, hdrop⟩ := takeWhile_ne_append hu v
  rw [splitOnce, hdrop, htake]

/-- A text without the character is not split. -/
theorem splitOnce_eq_none {c : Char} {s : List Char} (h : c ∉ s) : splitOnce c s = none := by
  rw [splitOnce, (takeWhile_ne_of_notMem h).2]

/-- What stands before an ASCII character in a text, and after it. -/
theorem cut_at {ε : Type} {c : Char} (hc : c.toNat < 128) (u v : List Char) :
    (strSlice (u ++ c :: v) 0 (byteLen u) : Res ε (List Char)) = .ok u ∧
      (strFrom (u ++ c :: v) (byteLen u + 1) : Res ε (List Char)) = .ok v := by
  have hbefore := strSlice_append (ε := ε) [] u (c :: v)
  have hafter := strFrom_append (ε := ε) (u ++ [c]) v
  rw [List.nil_append, byteLen_nil, Nat.zero_add] at hbefore
  rw [byteLen_append, byteLen_ascii hc, List.append_assoc, List.singleton_append] at hafter
  exact ⟨hbefore, hafter⟩

/-- The first part of a text that is split at an ASCII character. -/
theorem splitFirst_eq {c : Char} (hc : c.toNat < 128) (s : List Char) :
    splitFirst [c] s = .ok (s.takeWhile (· != c)) := by
  unfold splitFirst
  by_cases h : c ∈ s
  · obtain ⟨u, v, rfl, hu⟩ := List.eq_append_cons_of_mem h
    rw [strFind_singleton_append hu v,
      (takeWhile_ne_append hu v).1]
    exact (cut_at hc u v).1
  · rw [strFind_eq_none h, (takeWhile_ne_of_notMem h).1]

/-- `str::replace`: every occurrence of `pat`, from left to right without overlap, becomes `new`. -/
def strReplace (pat new : List Char) : List Char → List Char
  | [] => []
  | c :: s =>
    match (c :: s).dropPrefix? pat with
    | some rest =>
      if rest.length < (c :: s).length then new ++ strReplace pat new rest
      else c :: strReplace pat new s
    | none => c :: strReplace pat new s
termination_by s => s.length
decreasing_by all_goals simp_all

/-- A character that does not start the pattern stays. -/
theorem strReplace_cons {p c : Char} (hc : c ≠ p) (pat new s : List Char) :
    strReplace (p :: pat) new (c :: s) = c :: strReplace (p :: pat) new s := by
  have hdrop : (c :: s).dropPrefix? (p :: pat) = none := by
    rw [List.dropPrefix?, if_neg (by simpa using hc)]
  rw [strReplace, hdrop]

/-- Text without the first character of the pattern stays. -/
theorem strReplace_append {p : Char} {u : List Char} (hu : p ∉ u) (pat new s : List Char) :
    strReplace (p :: pat) new (u ++ s) = u ++ strReplace (p :: pat) new s := by
  induction u with
  | nil => rfl
  | cons c u ih =>
    obtain ⟨hc, hu⟩ := not_or.mp (List.mem_cons.not.mp hu)
    rw [List.cons_append, strReplace_cons (Ne.symm hc), ih hu, List.cons_append]

/-- The pattern becomes the new text. -/
theorem strReplace_self_append (p : Char) (pat new s : List Char) :
    strReplace (p :: pat) new (p :: pat ++ s) = new ++ strReplace (p :: pat) new s := by
  have hdrop : (p :: (pat ++ s)).dropPrefix? (p :: pat) = some s :=
    List.dropPrefix?_eq_some_iff.mpr ⟨p :: pat, rfl, by simp⟩
  rw [List.cons_append, strReplace, hdrop]
  exact if_pos (by rw [List.length_cons, List.length_append]; omega)

/-- A text with one occurrence of the pattern. -/
theorem strReplace_once {p : Char} {u v : List Char} (hu : p ∉ u) (hv : p ∉ v)
    (pat new : List Char) : strReplace (p :: pat) new (u ++ (p :: pat ++ v)) = u ++ (new ++ v) := by
  have hnil : strReplace (p :: pat) new [] = [] := by rw [strReplace]
  have htail := strReplace_append hv pat new []
  rw [hnil, List.append_nil] at htail
  rw [strReplace_append hu, strReplace_self_append, htail]

/-! ## Fields of a datagram -/

/-- `cstring`: the text before the first NUL, or all of it. -/
def cstring (bytes : List UInt8) : List Char := fromUtf8Lossy (bytes.takeWhile (· != 0))

/-- `{:02X}`. -/
def hexByte (b : UInt8) : List Char :=
  [(Nat.digitChar (b.toNat / 16)).toUpper, (Nat.digitChar (b.toNat % 16)).toUpper]

/-- A hardware address in upper case, its bytes separated by `sep`. -/
def macText (sep : List Char) (mac : List UInt8) : List Char := sep.intercalate (mac.map hexByte)

/-- The colon-separated hardware address at offset `i` of a datagram. -/
def macAt (data : List UInt8) (i : ℕ) : Res Empty (List Char) := do
  let b0 ← index data i
  let b1 ← index data (i + 1)
  let b2 ← index data (i + 2)
  let b3 ← index data (i + 3)
  let b4 ← index data (i + 4)
  let b5 ← index data (i + 5)
  return macText [':'] [b0, b1, b2, b3, b4, b5]

/-- The IPv4 address at offset `i` of a datagram. -/
def ipv4At (data : List UInt8) (i : ℕ) : Res Empty Ipv4Addr := do
  let b0 ← index data i
  let b1 ← index data (i + 1)
  let b2 ← index data (i + 2)
  let b3 ← index data (i + 3)
  return ⟨b0, b1, b2, b3⟩

/-- The 16-bit integer at offset `i` of a datagram, the high byte first. -/
def be16At (data : List UInt8) (i : ℕ) : Res Empty UInt16 := do
  let b0 ← index data i
  let b1 ← index data (i + 1)
  return be16 b0 b1

/-- The 32-bit integer at offset `i` of a datagram, the low byte first. -/
def le32At (data : List UInt8) (i : ℕ) : Res Empty UInt32 := do
  let b0 ← index data i
  let b1 ← index data (i + 1)
  let b2 ← index data (i + 2)
  let b3 ← index data (i + 3)
  return le32 b0 b1 b2 b3

/-- The 32-bit integer at offset `i` of a datagram, the high byte first. -/
def be32At (data : List UInt8) (i : ℕ) : Res Empty UInt32 := do
  let b0 ← index data i
  let b1 ← index data (i + 1)
  let b2 ← index data (i + 2)
  let b3 ← index data (i + 3)
  return be32 b0 b1 b2 b3

/-- An address is read where its octets stand. -/
theorem ipv4At_stands {data : List UInt8} {p : ℕ} {ip : Ipv4Addr} (h : Stands data p ip.octets) :
    ipv4At data p = .ok ip := by
  have hget (i : ℕ) (hi : i < 4) : data[p + i]? = some ip.octets[i] := h.getElem? hi
  simp only [ipv4At, index_of_getElem? h.head?, index_of_getElem? (hget 1 (by decide)),
    index_of_getElem? (hget 2 (by decide)), index_of_getElem? (hget 3 (by decide)), Res.ok_bind]
  rfl

/-- A hardware address is read where its bytes stand. -/
theorem macAt_stands {data mac : List UInt8} {p : ℕ} (hmac : mac.length = 6)
    (h : Stands data p mac) : macAt data p = .ok (macText [':'] mac) := by
  match mac, hmac with
  | [a, b, c, d, e, f], _ =>
    have hget (i : ℕ) (hi : i < 6) : data[p + i]? = some [a, b, c, d, e, f][i] := h.getElem? hi
    simp only [macAt, index_of_getElem? h.head?, index_of_getElem? (hget 1 (by omega)),
      index_of_getElem? (hget 2 (by omega)), index_of_getElem? (hget 3 (by omega)),
      index_of_getElem? (hget 4 (by omega)), index_of_getElem? (hget 5 (by omega)), Res.ok_bind]
    rfl

/-- A 16-bit integer is read where its bytes stand. -/
theorem be16At_stands {data : List UInt8} {p : ℕ} {x : UInt16} (h : Stands data p (toBe16 x)) :
    be16At data p = .ok x := by
  have hsecond : data[p + 1]? = some (toBe16 x)[1] := h.getElem? Nat.one_lt_two
  rw [be16At, index_of_getElem? h.head?, Res.ok_bind, index_of_getElem? hsecond, Res.ok_bind]
  exact congrArg Res.ok (be16_toBe16 x)

/-- A 32-bit integer is read where its bytes stand. -/
theorem be32At_stands {data : List UInt8} {p : ℕ} {x : UInt32} (h : Stands data p (toBe32 x)) :
    be32At data p = .ok x := by
  have hget (i : ℕ) (hi : i < 4) : data[p + i]? = some (toBe32 x)[i] := h.getElem? hi
  simp only [be32At, index_of_getElem? h.head?, index_of_getElem? (hget 1 (by decide)),
    index_of_getElem? (hget 2 (by decide)), index_of_getElem? (hget 3 (by decide)), Res.ok_bind]
  exact congrArg Res.ok (be32_toBe32 x)

/-- So is one with the low byte first. -/
theorem le32At_stands {data : List UInt8} {p : ℕ} {x : UInt32} (h : Stands data p (toLe32 x)) :
    le32At data p = .ok x := by
  have hget (i : ℕ) (hi : i < 4) : data[p + i]? = some (toLe32 x)[i] := h.getElem? hi
  simp only [le32At, index_of_getElem? h.head?, index_of_getElem? (hget 1 (by decide)),
    index_of_getElem? (hget 2 (by decide)), index_of_getElem? (hget 3 (by decide)), Res.ok_bind]
  exact congrArg Res.ok (be32_toBe32 x)

/-- A 16-bit integer inside a datagram is read, and its bytes stand there. -/
theorem be16At_eq {data : List UInt8} {i : ℕ} (h : i + 1 < data.length) :
    ∃ x, (be16At data i : Res Empty UInt16) = .ok x ∧ Stands data i (toBe16 x) := by
  refine ⟨be16 data[i] data[i + 1], ?_, ?_⟩
  · rw [be16At, index_eq, Res.ok_bind, index_eq, Res.ok_bind, Res.pure_eq]
  · rw [toBe16_be16, Stands, List.drop_eq_getElem_cons (by omega), List.drop_eq_getElem_cons h]
    exact ⟨_, rfl⟩

/-- An integer inside a datagram is read, the high byte first. -/
theorem be32At_eq_ok {data : List UInt8} {i : ℕ} (h : i + 3 < data.length) :
    ∃ x, (be32At data i : Res Empty UInt32) = .ok x := by
  refine ⟨be32 data[i] data[i + 1] data[i + 2] data[i + 3], ?_⟩
  rw [be32At, index_eq, Res.ok_bind, index_eq, Res.ok_bind, index_eq, Res.ok_bind, index_eq,
    Res.ok_bind, Res.pure_eq]

/-- The bytes of the integer stand there. -/
theorem be32At_eq {data : List UInt8} {i : ℕ} (h : i + 3 < data.length) :
    ∃ x, (be32At data i : Res Empty UInt32) = .ok x ∧ Stands data i (toBe32 x) := by
  obtain ⟨x, y, hdrop, hx⟩ := exists_append_of_le (show i + 4 ≤ data.length from h)
  obtain ⟨a, b, c, d, rfl⟩ := List.length_eq_four.mp hx
  have hstands : Stands data i (toBe32 (be32 a b c d)) := ⟨y, by rw [toBe32_be32, hdrop]⟩
  exact ⟨_, be32At_stands hstands, hstands⟩

/-- An integer inside a datagram is read, the low byte first. -/
theorem le32At_eq_ok {data : List UInt8} {i : ℕ} (h : i + 3 < data.length) :
    ∃ x, (le32At data i : Res Empty UInt32) = .ok x := by
  refine ⟨le32 data[i] data[i + 1] data[i + 2] data[i + 3], ?_⟩
  rw [le32At, index_eq, Res.ok_bind, index_eq, Res.ok_bind, index_eq, Res.ok_bind, index_eq,
    Res.ok_bind, Res.pure_eq]

/-- A hardware address inside a datagram is read. -/
theorem macAt_eq {data : List UInt8} {i : ℕ} (h : i + 6 ≤ data.length) :
    macAt data i = .ok (macText [':'] ((data.drop i).take 6)) := by
  obtain ⟨x, y, hdrop, hx⟩ := exists_append_of_le h
  rw [macAt_stands hx ⟨y, hdrop.symm⟩, hdrop, List.take_left' hx]

/-! ## Elements of a document -/

/-- The loop of `extract_xml_string`, from the byte `cursor` on. It moves past an opening tag whose
element is not closed right after its text. -/
def extractXmlLoop (xml tag : List Char) (cursor : ℕ) : Res Empty (Option (List Char)) :=
  if _hcursor : cursor ≤ byteLen xml then do
    let rest ← strFrom xml cursor
    match strFind ('<' :: tag ++ ['>']) rest with
    | none => return none
    | some off =>
      let start := cursor + off + byteLen ('<' :: tag ++ ['>'])
      let after ← strFrom xml start
      match strFind ['<'] after with
      | none => return none
      | some rel =>
        let stop := start + rel
        let closing ← strFrom xml stop
        if '<' :: '/' :: tag ++ ['>'] <+: closing then
          let content ← strSlice xml start stop
          return some content
        else extractXmlLoop xml tag start
  else .panicked
termination_by byteLen xml + 1 - cursor
decreasing_by
  have : 0 < byteLen ('<' :: tag ++ ['>']) := byteLen_pos (by simp)
  omega

/-- `extract_xml_string`. -/
def extractXmlString (xml tag : List Char) : Res Empty (Option (List Char)) :=
  extractXmlLoop xml tag 0

end Uscan
