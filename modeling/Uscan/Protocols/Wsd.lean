import Uscan.Lib.Regex
import Uscan.Protocols.Common

/-!
# WSDiscovery

`wsd.rs`: the probe, and the parser of an answer, which takes the contents of two XML elements.
`extractTag` looks for an element by hand; the comment of the source gives the regular expression
that it stands for, which is `tagRe` here.

The loop of `extractTag` looks for the next opening tag without a prefix and for the next one with a
prefix, and gives up when there is no next one with a prefix, even if there is one without. So it
finds the leftmost match exactly when an opening tag with a prefix stands at it or after it
(`extractTagLoop_eq`, by induction on what is left of the text).
-/

namespace Uscan.Wsd

/-! ## Elements -/

/-- A byte that ends the contents of an element. -/
def isAngle (b : UInt8) : Bool := b == ascii '<' || b == ascii '>'

/-- `tag_content`: the contents of an element from `start` on, if a closing tag follows them. -/
def tagContent (xml : List Char) (start : ℕ) : Res Empty (Option (List Char)) :=
  let b := utf8 xml
  let stop := skipWhile (fun c => !isAngle c) b start
  if stop > start ∧ stop + 1 < b.length ∧ b[stop]? = some (ascii '<') ∧
      b[stop + 1]? = some (ascii '/')
  then some <$> strSlice xml start stop
  else .ok none

/-- The opening tag without a prefix. -/
def plain (tag : List Char) : List Char := '<' :: tag ++ ['>']

/-- The end of an opening tag with a prefix. -/
def prefixed (tag : List Char) : List Char := ':' :: tag ++ ['>']

/-- The candidate that the loop takes next, as its offset and the length of the tag, from the
offsets of the next tag without and the next one with a prefix. -/
def candidate (tag : List Char) (pPlain pPref : Option ℕ) : Option (ℕ × ℕ) :=
  match pPlain, pPref with
  | some a, some b =>
    if b < a then some (b, byteLen (prefixed tag)) else some (a, byteLen (plain tag))
  | none, some b => some (b, byteLen (prefixed tag))
  | _, none => none

/-- There is no candidate exactly when there is no tag with a prefix. -/
theorem candidate_eq_none_iff {tag : List Char} {pPlain pPref : Option ℕ} :
    candidate tag pPlain pPref = none ↔ pPref = none := by
  cases pPref with
  | none => cases pPlain <;> simp [candidate]
  | some b =>
    cases pPlain with
    | none => simp [candidate]
    | some a =>
      rw [candidate]
      split_ifs <;> simp

/-- Where the rest of a text can be taken, the offset is inside the text. -/
theorem le_of_strFrom {s v : List Char} {i : ℕ} (h : (strFrom s i : Res Empty _) = .ok v) :
    i ≤ byteLen s := by
  unfold strFrom at h
  split at h
  · cases h
  · rename_i hsplit
    obtain ⟨rfl, rfl⟩ := eq_of_splitAtByte hsplit
    rw [byteLen_append]
    omega

/-- The loop of `extract_tag`, from the byte `cursor` on. -/
def extractTagLoop (xml tag : List Char) (cursor : ℕ) : Res Empty (Option (List Char)) :=
  match _hrest : strFrom (ε := Empty) xml cursor with
  | .err e => .err e
  | .panicked => .panicked
  | .ok rest =>
    match candidate tag (strFind (plain tag) rest) (strFind (prefixed tag) rest) with
    | none => .ok none
    | some (off, len) => do
      let content ← tagContent xml (cursor + off + len)
      match content with
      | some content => return some content
      | none => extractTagLoop xml tag (cursor + off + 1)
termination_by byteLen xml + 1 - cursor
decreasing_by
  have := le_of_strFrom _hrest
  omega

/-- `extract_tag`. -/
def extractTag (xml tag : List Char) : Res Empty (Option (List Char)) := extractTagLoop xml tag 0

/-! ## The parser -/

/-- `extract_uuid`. -/
def extractUuid (usn : List Char) : List Char :=
  stripPrefixOr "uuid:".toList (stripPrefixOr "urn:".toList usn)

/-- A character that starts the name of a namespace. -/
def nameStart : Char → Bool := asciiClass fun b => isAsciiAlphabetic b || b == ascii '_'

/-- The other characters of the name of a namespace. -/
def nameChar : Char → Bool :=
  asciiClass fun b => isAsciiAlphanumeric b || b == ascii '_' || b == ascii '-'

/-- `remove_namespace`: the text without the names that a colon follows, and without these
colons. -/
def removeNamespace : List Char → List Char
  | [] => []
  | c :: s =>
    if nameStart c then
      match _hrest : s.dropWhile nameChar with
      | ':' :: rest => removeNamespace rest
      | rest => c :: s.takeWhile nameChar ++ removeNamespace rest
    else c :: removeNamespace s
termination_by s => s.length
decreasing_by
  · have hle := (List.dropWhile_suffix (l := s) nameChar).length_le
    simp only [_hrest, List.length_cons] at hle ⊢
    omega
  · have hle := (List.dropWhile_suffix (l := s) nameChar).length_le
    simp only [_hrest, List.length_cons] at hle ⊢
    omega
  · simp

/-- `Wsd::parse`. -/
def parse (src : SocketAddr) (data : List UInt8) : Res Empty (List Device) := do
  let xml := fromUtf8Lossy data
  let address ← extractTag xml "Address".toList
  match address with
  | none => return []
  | some address =>
    let types ← extractTag xml "Types".toList
    match types with
    | none => return []
    | some types =>
      if removeNamespace types = [] ∨ extractUuid address = [] then return []
      else
        return [{
          protocol := "WSDiscovery".toList
          version := 0
          ip := src.ip
          mac := []
          deviceType := removeNamespace types
          serial := extractUuid address }]

/-! ## The probe -/

/-- `ANNOUNCE`: the probe, with a mark where the identifier of the message goes. -/
def announce : List Char :=
  ("<s:Envelope xmlns:s=\"http://www.w3.org/2003/05/soap-envelope\" " ++
    "xmlns:a=\"http://schemas.xmlsoap.org/ws/2004/08/addressing\" " ++
    "xmlns:d=\"http://schemas.xmlsoap.org/ws/2005/04/discovery\" " ++
    "xmlns:w=\"http://schemas.xmlsoap.org/ws/2006/02/devprof\" " ++
    "xmlns:o=\"http://www.onvif.org/ver10/device/wsdl\"><s:Header><a:Action " ++
    "s:mustUnderstand=\"1\">" ++
    "http://schemas.xmlsoap.org/ws/2005/04/discovery/Probe</a:Action><a:MessageID>" ++
    "urn:uuid:\x7b0\x7d</a:MessageID><a:To s:mustUnderstand=\"1\">" ++
    "urn:schemas-xmlsoap-org:ws:2005:04:discovery</a:To><a:ReplyTo><a:Address>" ++
    "http://schemas.xmlsoap.org/ws/2004/08/addressing/role/anonymous</a:Address>" ++
    "</a:ReplyTo></s:Header><s:Body><d:Probe><d:Types>w:Device o:Device</d:Types></d:Probe>" ++
    "</s:Body></s:Envelope>").toList

/-- `VERBATIM`: the probe with a fixed identifier. -/
def verbatim : List Char :=
  ("<s:Envelope xmlns:s=\"http://www.w3.org/2003/05/soap-envelope\" " ++
    "xmlns:a=\"http://schemas.xmlsoap.org/ws/2004/08/addressing\"><s:Header><a:Action " ++
    "s:mustUnderstand=\"1\">" ++
    "http://schemas.xmlsoap.org/ws/2005/04/discovery/Probe</a:Action><a:MessageID>" ++
    "uuid:f686768c-3e60-4f9c-a344-0769929d665c</a:MessageID><a:ReplyTo><a:Address>" ++
    "http://schemas.xmlsoap.org/ws/2004/08/addressing/role/anonymous</a:Address>" ++
    "</a:ReplyTo><a:To s:mustUnderstand=\"1\">" ++
    "urn:schemas-xmlsoap-org:ws:2005:04:discovery</a:To></s:Header><s:Body><Probe " ++
    "xmlns=\"http://schemas.xmlsoap.org/ws/2005/04/discovery\"><d:Types " ++
    "xmlns:d=\"http://schemas.xmlsoap.org/ws/2005/04/discovery\" " ++
    "xmlns:dp0=\"http://www.onvif.org/ver10/network/wsdl\">" ++
    "dp0:NetworkVideoTransmitter</d:Types></Probe></s:Body></s:Envelope>").toList

/-- The text of an identifier of version 4, as the `uuid` library writes it: 36 characters, each a
hexadecimal digit in lower case or a hyphen. -/
structure Uuid where
  /-- The text. -/
  text : List Char
  /-- Its length. -/
  length_eq : text.length = 36
  /-- Its characters. -/
  chars : ∀ c ∈ text, c ∈ "0123456789abcdef-".toList

/-- The probe that `scan` sends, with the identifier it has made. -/
def probe (onvifVerbatim : Bool) (id : Uuid) : List UInt8 :=
  if onvifVerbatim then utf8 verbatim else utf8 (strReplace "\x7b0\x7d".toList id.text announce)

/-! ## The regular expression -/

/-- `[^<>]`. -/
def notAngle (c : Char) : Bool := !asciiClass isAngle c

/-- `[<:]`. -/
def tagOpen (c : Char) : Bool := c == '<' || c == ':'

/-- `[<:]Tag>([^<>]+)</`. -/
def tagRe (tag : List Char) : Re Char :=
  .seq (.sym tagOpen) (.seq (.lit (tag ++ ['>']))
    (.seq (.group (.many1 notAngle)) (.lit ['<', '/'])))

/-- What the leftmost match in a text captures. -/
def tagCapture (tag xml : List Char) : Option (List Char) :=
  ((tagRe tag).search xml).map fun x => x.2.groups.getD 0 []

/-- An opening tag with a prefix stands at the leftmost match or after it. -/
def prefixedFollows (tag xml : List Char) : Prop :=
  ∀ x, (tagRe tag).search xml = some x → prefixed tag <:+: x.2.text ++ x.2.rest

/-- Whether such a tag stands there can be decided. -/
instance (tag xml : List Char) : Decidable (prefixedFollows tag xml) :=
  inferInstanceAs (Decidable (∀ x ∈ (tagRe tag).search xml, prefixed tag <:+: x.2.text ++ x.2.rest))

/-- Text in which no match starts does not change what the leftmost match captures. -/
theorem tagCapture_skip {tag u v : List Char}
    (h : ∀ s, s <:+ u → s ≠ [] → (tagRe tag).first (s ++ v) = none) :
    tagCapture tag (u ++ v) = tagCapture tag v := by
  rw [tagCapture, Re.search_skip h, Option.map_map, tagCapture]
  rfl

/-- Text in which no match starts does not change what follows the leftmost match. -/
theorem prefixedFollows_skip {tag u v : List Char}
    (h : ∀ s, s <:+ u → s ≠ [] → (tagRe tag).first (s ++ v) = none) :
    prefixedFollows tag (u ++ v) ↔ prefixedFollows tag v := by
  simp only [prefixedFollows, Re.search_skip h]
  constructor
  · exact fun h y hy => h (u ++ y.1, y.2) (by rw [hy]; rfl)
  · intro h y hy
    obtain ⟨z, hz, rfl⟩ := Option.map_eq_some_iff.mp hy
    exact h z hz

/-- An opening tag, as the expression reads it. -/
theorem tag_prefix_iff {tag t : List Char} {c : Char} :
    (plain tag <+: c :: t ∨ prefixed tag <+: c :: t) ↔
      tagOpen c = true ∧ tag ++ ['>'] <+: t := by
  simp only [plain, prefixed, List.cons_append, List.cons_prefix_cons, tagOpen, Bool.or_eq_true,
    beq_iff_eq]
  constructor
  · rintro (⟨rfl, h⟩ | ⟨rfl, h⟩)
    · exact ⟨.inl rfl, h⟩
    · exact ⟨.inr rfl, h⟩
  · rintro ⟨rfl | rfl, h⟩
    · exact .inl ⟨rfl, h⟩
    · exact .inr ⟨rfl, h⟩

/-- Where no opening tag stands, the expression does not match. -/
theorem first_tagRe_neg {tag v : List Char} (hplain : ¬ plain tag <+: v)
    (hprefixed : ¬ prefixed tag <+: v) : (tagRe tag).first v = none := by
  cases v with
  | nil => rfl
  | cons c t =>
    by_cases hc : tagOpen c = true
    · have ht : ¬ tag ++ ['>'] <+: t := fun ht =>
        (tag_prefix_iff.mpr ⟨hc, ht⟩).elim hplain hprefixed
      rw [Re.first, tagRe, Re.run_seq_sym_pos hc, Re.run_seq_lit_neg ht]
      rfl
    · rw [Re.first, tagRe, Re.run_seq_sym_neg (by simpa using hc)]
      rfl

/-- The contents at the front of a text, if a closing tag follows them. -/
def contents (x : List Char) : Option (List Char) :=
  if x.takeWhile notAngle ≠ [] ∧ ['<', '/'] <+: x.dropWhile notAngle
  then some (x.takeWhile notAngle) else none

/-- The end of a closing tag's start is no part of the contents. -/
theorem run_close_neg (a : Char) (s : List Char) (ha : notAngle a = true) :
    (Re.lit ['<', '/']).run (a :: s) = [] := by
  apply Re.run_lit_neg
  rw [List.cons_prefix_cons]
  rintro ⟨rfl, -⟩
  exact absurd ha (by decide)

/-- After an opening tag, the expression matches as the contents do. -/
theorem first_tagRe_open {tag x : List Char} {c : Char} (hc : tagOpen c = true) :
    ((tagRe tag).first (c :: (tag ++ ['>'] ++ x))).map (fun h => h.groups.getD 0 []) =
      contents x := by
  rw [Re.first, tagRe, Re.run_seq_sym_pos hc, Re.run_seq_lit_append, contents]
  cases x with
  | nil => rfl
  | cons a x =>
    by_cases ha : notAngle a = true
    · -- Contents that give a character back would have that character before the closing tag.
      have hgreedy := ((Re.greedy_many notAngle x).seq_sym ha).group
      rw [Re.many1, hgreedy.run_seq run_close_neg, List.takeWhile_cons_of_pos ha,
        List.dropWhile_cons_of_pos ha]
      by_cases hclose : ['<', '/'] <+: x.dropWhile notAngle
      · obtain ⟨y, hy⟩ := hclose
        rw [if_pos ⟨by simp, hy ▸ List.prefix_append _ _⟩]
        simp only [Hit.andThen, ← hy, Re.run_lit_append]
        rfl
      · rw [if_neg fun h => hclose h.2]
        simp only [Hit.andThen, Re.run_lit_neg hclose]
        rfl
    · have hnone : ((Re.group (Re.many1 notAngle)).run (a :: x)) = [] := by
        rw [Re.run, Re.many1, Re.run_seq_sym_neg (by simpa using ha)]
        rfl
      rw [Re.run, hnone, List.takeWhile_cons_of_neg ha, if_neg (by simp)]
      rfl

/-! ## The scanner -/

/-- Angle brackets are ASCII. -/
theorem asciiOnly_isAngle : AsciiOnly isAngle := asciiOnly_of_forall (by decide +kernel)

/-- The bytes after a part of a text are the start of a closing tag exactly when its characters
are. -/
theorem close_iff (w y : List Char) :
    (byteLen w + 1 < (utf8 (w ++ y)).length ∧ (utf8 (w ++ y))[byteLen w]? = some (ascii '<') ∧
      (utf8 (w ++ y))[byteLen w + 1]? = some (ascii '/')) ↔ ['<', '/'] <+: y := by
  have hat : byteLen w + 1 = byteLen (w ++ ['<']) := by
    rw [byteLen_append, byteLen_ascii (by decide)]
  rw [getElem?_utf8_append, head?_utf8 (by decide)]
  constructor
  · rintro ⟨-, hhead, hnext⟩
    obtain ⟨z, rfl⟩ := List.head?_eq_some_iff.mp hhead
    have hassoc : w ++ '<' :: z = w ++ ['<'] ++ z := by simp
    rw [hassoc, hat, getElem?_utf8_append, head?_utf8 (by decide)] at hnext
    obtain ⟨z, rfl⟩ := List.head?_eq_some_iff.mp hnext
    exact ⟨z, rfl⟩
  · rintro ⟨z, rfl⟩
    have hassoc : w ++ (['<', '/'] ++ z) = w ++ ['<'] ++ '/' :: z := by simp
    have hnext : (utf8 (w ++ ['<'] ++ '/' :: z))[byteLen (w ++ ['<'])]? = some (ascii '/') := by
      rw [getElem?_utf8_append, head?_utf8 (by decide)]
      rfl
    rw [hassoc, hat]
    exact ⟨(List.getElem?_eq_some_iff.mp hnext).1, rfl, hnext⟩

/-- `tag_content` returns the contents that the expression captures. -/
theorem tagContent_eq (u x : List Char) :
    tagContent (u ++ x) (byteLen u) = .ok (contents x) := by
  have hsplit : u ++ x = u ++ x.takeWhile notAngle ++ x.dropWhile notAngle := by
    rw [List.append_assoc, List.takeWhile_append_dropWhile]
  have hstop : skipWhile (fun c => !isAngle c) (utf8 (u ++ x)) (byteLen u) =
      byteLen (u ++ x.takeWhile notAngle) := by
    rw [skipWhile_not_cut asciiOnly_isAngle]
    rfl
  have hempty : byteLen (u ++ x.takeWhile notAngle) > byteLen u ↔ x.takeWhile notAngle ≠ [] := by
    rw [byteLen_append]
    constructor
    · intro h hnil
      rw [hnil, byteLen_nil] at h
      omega
    · intro h
      have := byteLen_pos h
      omega
  have hclose := close_iff (u ++ x.takeWhile notAngle) (x.dropWhile notAngle)
  rw [← hsplit] at hclose
  have hslice : (strSlice (u ++ x) (byteLen u) (byteLen (u ++ x.takeWhile notAngle)) :
      Res Empty _) = .ok (x.takeWhile notAngle) := by
    rw [byteLen_append]
    nth_rewrite 1 [hsplit]
    exact strSlice_append u _ _
  unfold tagContent
  simp only [hstop, hempty, hclose, hslice, contents]
  split_ifs <;> rfl

/-- The loop of `extract_tag` on the text `u ++ v`, after `u`. -/
theorem extractTagLoop_step (tag u v : List Char) :
    extractTagLoop (u ++ v) tag (byteLen u) =
      (match candidate tag (strFind (plain tag) v) (strFind (prefixed tag) v) with
      | none => .ok none
      | some (off, len) => do
        let content ← tagContent (u ++ v) (byteLen u + off + len)
        match content with
        | some content => return some content
        | none => extractTagLoop (u ++ v) tag (byteLen u + off + 1)) := by
  rw [extractTagLoop]
  split
  · rename_i h
    rw [strFrom_append] at h
    cases h
  · rename_i h
    rw [strFrom_append] at h
    cases h
  · rename_i h
    rw [strFrom_append] at h
    cases h
    rfl

/-- Where an opening tag of a kind is found first. -/
theorem exists_of_strFind_tag {pat tag v : List Char} {c : Char} {n : ℕ}
    (hpat : pat = c :: (tag ++ ['>'])) (h : strFind pat v = some n) :
    ∃ s x, v = s ++ c :: (tag ++ ['>'] ++ x) ∧ byteLen s = n ∧
      FoundAt pat s (c :: (tag ++ ['>'] ++ x)) := by
  obtain ⟨s, w, hv, hlen, hfound⟩ := exists_of_strFind h
  obtain ⟨x, rfl⟩ := hfound.here
  have hw : pat ++ x = c :: (tag ++ ['>'] ++ x) := by rw [hpat, List.cons_append]
  rw [hw] at hv hfound
  exact ⟨s, x, hv, hlen, hfound⟩

/-- The candidate is the first place where an opening tag of either kind stands, and one with a
prefix stands there or after it. -/
theorem exists_of_candidate {tag v : List Char} {off len : ℕ}
    (h : candidate tag (strFind (plain tag) v) (strFind (prefixed tag) v) = some (off, len)) :
    ∃ s c x, v = s ++ c :: (tag ++ ['>'] ++ x) ∧ byteLen s = off ∧ tagOpen c = true ∧
      byteLen (c :: (tag ++ ['>'])) = len ∧
      (∀ s', s' <:+ s → s' ≠ [] → (tagRe tag).first (s' ++ c :: (tag ++ ['>'] ++ x)) = none) ∧
      prefixed tag <:+: c :: (tag ++ ['>'] ++ x) := by
  -- The place of the next tag with a prefix; there is one, since there is a candidate.
  obtain ⟨b, hb⟩ : ∃ b, strFind (prefixed tag) v = some b := by
    apply Option.ne_none_iff_exists'.mp
    intro hb
    rw [candidate_eq_none_iff.mpr hb] at h
    cases h
  obtain ⟨sb, xb, hvb, hlenb, hfoundb⟩ := exists_of_strFind_tag rfl hb
  have hinfixb : prefixed tag <:+: ':' :: (tag ++ ['>'] ++ xb) := ⟨[], xb, rfl⟩
  cases ha : strFind (plain tag) v with
  | none =>
    -- Only a tag with a prefix is left.
    rw [ha, hb, candidate] at h
    cases h
    refine ⟨sb, ':', xb, hvb, hlenb, rfl, rfl, ?_, hinfixb⟩
    intro s' hs' hne
    rw [hvb] at ha
    exact first_tagRe_neg (not_prefix_append_of_strFind ha hs') (hfoundb.not_before s' hs' hne)
  | some a =>
    obtain ⟨sa, xa, hva, hlena, hfounda⟩ := exists_of_strFind_tag rfl ha
    rw [ha, hb, candidate] at h
    split_ifs at h with hlt
    · -- The tag with a prefix comes first.
      cases h
      refine ⟨sb, ':', xb, hvb, hlenb, rfl, rfl, ?_, hinfixb⟩
      intro s' hs' hne
      obtain ⟨r, -, hnot⟩ := hfounda.exists_append (hva.symm.trans hvb) (by omega)
      exact first_tagRe_neg (hnot s' hs' hne) (hfoundb.not_before s' hs' hne)
    · -- The tag without a prefix comes first, and the other one after it.
      cases h
      obtain ⟨r, hr, hnot⟩ := hfoundb.exists_append (hvb.symm.trans hva) (by omega)
      refine ⟨sa, '<', xa, hva, hlena, rfl, rfl, ?_, ?_⟩
      · intro s' hs' hne
        exact first_tagRe_neg (hfounda.not_before s' hs' hne) (hnot s' hs' hne)
      · rw [hr]
        exact hinfixb.trans (List.suffix_append r _).isInfix

/-- The contents after a candidate. -/
theorem tagContent_candidate (tag u s x : List Char) (c : Char) :
    tagContent (u ++ (s ++ c :: (tag ++ ['>'] ++ x)))
      (byteLen u + byteLen s + byteLen (c :: (tag ++ ['>']))) = .ok (contents x) := by
  have htext : u ++ (s ++ c :: (tag ++ ['>'] ++ x)) = u ++ s ++ c :: (tag ++ ['>']) ++ x := by
    simp
  rw [← byteLen_append, ← byteLen_append, htext, tagContent_eq]

/-- An opening tag starts with one byte. -/
theorem byteLen_tagOpen {c : Char} (hc : tagOpen c = true) : byteLen [c] = 1 := by
  rcases Bool.or_eq_true_iff.mp hc with h | h
  · rw [beq_iff_eq.mp h]
    rfl
  · rw [beq_iff_eq.mp h]
    rfl

/-- Where no match starts in some text, nor at the character after it, none starts in the two. -/
theorem first_tagRe_concat {tag s w : List Char} {c : Char}
    (hbefore : ∀ s', s' <:+ s → s' ≠ [] → (tagRe tag).first (s' ++ c :: w) = none)
    (hc : (tagRe tag).first (c :: w) = none) {s' : List Char} (hs' : s' <:+ s ++ [c])
    (hne : s' ≠ []) : (tagRe tag).first (s' ++ w) = none := by
  rcases List.suffix_concat_iff.mp hs' with rfl | ⟨r, rfl, hr⟩
  · exact absurd rfl hne
  · rw [List.append_assoc, List.singleton_append]
    by_cases hnil : r = []
    · rw [hnil]
      exact hc
    · exact hbefore r hr hnil

/-- Where no opening tag with a prefix stands, none follows a match, so that there is no match. -/
theorem tagCapture_of_strFind {tag v : List Char} (hnone : strFind (prefixed tag) v = none)
    (hfollows : prefixedFollows tag v) : tagCapture tag v = none := by
  cases hsearch : (tagRe tag).search v with
  | none => simp [tagCapture, hsearch]
  | some x =>
    obtain ⟨r, t, hrt⟩ := hfollows x hsearch
    have hv := Re.append_of_search hsearch
    rw [← hrt] at hv
    have hsuffix : prefixed tag ++ t <:+ v := ⟨x.1 ++ r, by simp [← hv]⟩
    exact absurd (List.prefix_append _ _) (not_prefix_of_strFind hnone hsuffix)

/-- The leftmost match, where none starts before it: what it captures, and that an opening tag with
a prefix follows, if one stands there or after it. -/
theorem tagCapture_of_first {tag s w content : List Char} {c : Char}
    (hbefore : ∀ s', s' <:+ s → s' ≠ [] → (tagRe tag).first (s' ++ c :: w) = none)
    (hfirst : ((tagRe tag).first (c :: w)).map (fun h => h.groups.getD 0 []) = some content)
    (hstands : prefixed tag <:+: c :: w) :
    prefixedFollows tag (s ++ c :: w) ∧ tagCapture tag (s ++ c :: w) = some content := by
  obtain ⟨hit, hhit, hgroup⟩ := Option.map_eq_some_iff.mp hfirst
  have hsearch := Re.search_skip hbefore
  rw [Re.search_of_first hhit, Option.map_some, List.append_nil] at hsearch
  constructor
  · intro y hy
    rw [hsearch] at hy
    cases hy
    rw [Re.text_append_rest_of_first hhit]
    exact hstands
  · rw [tagCapture, hsearch, Option.map_some, hgroup]

/-- The loop of `extract_tag` on the text `u ++ v`, after `u`, returns what the leftmost match in
`v` captures, if an opening tag with a prefix stands at the match or after it, and nothing
otherwise. The induction is on the length of `v`. -/
theorem extractTagLoop_eq (tag u v : List Char) :
    (prefixedFollows tag v → extractTagLoop (u ++ v) tag (byteLen u) = .ok (tagCapture tag v)) ∧
      (¬ prefixedFollows tag v → extractTagLoop (u ++ v) tag (byteLen u) = .ok none) := by
  induction hn : v.length using Nat.strong_induction_on generalizing u v with
  | _ n ih =>
    subst hn
    rw [extractTagLoop_step]
    cases hcand : candidate tag (strFind (plain tag) v) (strFind (prefixed tag) v) with
    | none =>
      -- No opening tag with a prefix is left.
      have hnone := candidate_eq_none_iff.mp hcand
      refine ⟨fun hfollows => ?_, fun _ => rfl⟩
      rw [tagCapture_of_strFind hnone hfollows]
    | some cand =>
      obtain ⟨off, len⟩ := cand
      obtain ⟨s, c, x, rfl, rfl, hc, rfl, hbefore, hinfix⟩ := exists_of_candidate hcand
      have hopen := @first_tagRe_open tag x c hc
      simp only [tagContent_candidate, Res.ok_bind]
      generalize hw : tag ++ ['>'] ++ x = w at *
      cases hcontents : contents x with
      | some content =>
        -- The candidate is the leftmost match.
        obtain ⟨hfollows, hcapture⟩ :=
          tagCapture_of_first hbefore (hopen.trans hcontents) hinfix
        refine ⟨fun _ => ?_, fun hnot => absurd hfollows hnot⟩
        rw [hcapture]
        rfl
      | none =>
        -- No match starts at the candidate: the search goes on after its first character.
        have hfirst : (tagRe tag).first (c :: w) = none := by
          rw [hcontents] at hopen
          exact Option.map_eq_none_iff.mp hopen
        have hskip : ∀ s', s' <:+ s ++ [c] → s' ≠ [] → (tagRe tag).first (s' ++ w) = none :=
          fun s' hs' hne => first_tagRe_concat hbefore hfirst hs' hne
        have hcapture := tagCapture_skip hskip
        have hfollows := prefixedFollows_skip hskip
        rw [List.append_assoc, List.singleton_append] at hcapture hfollows
        have hrest := ih w.length (by simp; omega) (u ++ s ++ [c]) w rfl
        have htext : u ++ s ++ [c] ++ w = u ++ (s ++ c :: w) := by simp
        rw [htext, byteLen_append, byteLen_append, byteLen_tagOpen hc] at hrest
        rw [hcapture, hfollows]
        exact hrest

/-- Where an opening tag with a prefix stands at the leftmost match or after it, `extract_tag`
returns what the match captures. -/
theorem extractTag_of_follows {tag xml : List Char} (h : prefixedFollows tag xml) :
    extractTag xml tag = .ok (tagCapture tag xml) := by
  have hloop := (extractTagLoop_eq tag [] xml).1 h
  rw [List.nil_append, byteLen_nil] at hloop
  exact hloop

/-- Where none does, `extract_tag` returns nothing. -/
theorem extractTag_of_not_follows {tag xml : List Char} (h : ¬ prefixedFollows tag xml) :
    extractTag xml tag = .ok none := by
  have hloop := (extractTagLoop_eq tag [] xml).2 h
  rw [List.nil_append, byteLen_nil] at hloop
  exact hloop

/-- `extract_tag` is the regular expression exactly where an opening tag with a prefix stands at the
leftmost match or after it, or there is no match. -/
theorem extractTag_eq_iff (xml tag : List Char) :
    extractTag xml tag = .ok (tagCapture tag xml) ↔ prefixedFollows tag xml := by
  constructor
  · intro heq y hy
    by_contra hnot
    have hnone := extractTag_of_not_follows fun hfollows => hnot (hfollows y hy)
    rw [hnone, tagCapture, hy] at heq
    cases heq
  · exact extractTag_of_follows

/-- An element without a prefix, and none with a prefix after it, is not found. -/
theorem extractTag_plain_only :
    tagCapture "Address".toList "<Address>x</Address>".toList = some ['x'] ∧
      extractTag "<Address>x</Address>".toList "Address".toList = .ok none := by
  decide +kernel

end Uscan.Wsd
