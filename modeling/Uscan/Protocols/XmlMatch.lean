import Uscan.Lib.Capture
import Uscan.Protocols.Xml

/-!
# The elements of an answer and their regular expression

`extract_xml_string` looks for an element by hand, in place of the expression `<TAG>([^<]*)</TAG>`.
Its loop goes on behind an opening tag whose element is not closed in place: the tag has no angle
bracket, so that no other opening tag starts inside the one that is passed over. Where no `<` is
left the loop ends, and no opening tag is left either. So the loop returns what the leftmost match
of the expression captures (`extractXmlString_search`), and the parsers return.
-/

namespace Uscan

open Re

/-- `<TAG>`. -/
def openTag (tag : List Char) : List Char := '<' :: tag ++ ['>']

/-- `([^<]*)</TAG>`. -/
def elementEnd (tag : List Char) : Re Char :=
  seq (group (many (· != '<'))) (lit ('<' :: '/' :: tag ++ ['>']))

/-- `<TAG>([^<]*)</TAG>`. -/
def elementRe (tag : List Char) : Re Char := seq (lit (openTag tag)) (elementEnd tag)

/-- The expression has one group. -/
theorem arity_elementRe (tag : List Char) : (elementRe tag).arity = some 1 := by
  simp [elementRe, elementEnd, arity, arity_lit]

/-- An opening tag starts nowhere inside another one. -/
theorem not_prefix_inside_openTag {tag x y : List Char} (htag : '<' ∉ tag)
    (hx : x <:+ openTag tag) (hne : x ≠ []) (hproper : x ≠ openTag tag) :
    ¬ openTag tag <+: x ++ y := by
  obtain ⟨c, x, rfl⟩ := List.exists_cons_of_ne_nil hne
  rw [openTag, List.cons_append] at hx hproper
  have hmem : c ∈ tag ++ ['>'] := by
    rcases List.suffix_cons_iff.mp hx with heq | hsuffix
    · exact absurd heq hproper
    · exact hsuffix.subset List.mem_cons_self
  rw [openTag, List.cons_append, List.cons_append, List.cons_prefix_cons]
  rintro ⟨rfl, -⟩
  simp [htag] at hmem

/-- What the expression captures after an opening tag, where a `<` follows. -/
theorem captureAt_elementEnd {x : List Char} (hx : '<' ∉ x) (tag y : List Char) :
    captureAt (elementEnd tag) (x ++ '<' :: y) =
      if '<' :: '/' :: tag ++ ['>'] <+: '<' :: y then some x else none := by
  obtain ⟨htake, hdrop⟩ := takeWhile_ne_append hx y
  rw [elementEnd, List.cons_append, captureAt_group_many (by simp), htake, hdrop]

/-- Without a `<` it captures nothing. -/
theorem captureAt_elementEnd_none {w : List Char} (hw : '<' ∉ w) (tag : List Char) :
    captureAt (elementEnd tag) w = none := by
  rw [elementEnd, List.cons_append, captureAt_group_many (by simp),
    (takeWhile_ne_of_notMem hw).2, if_neg (by simp)]

/-- Without an opening tag the loop ends. -/
theorem extractXmlLoop_none {tag v : List Char} (hfind : strFind (openTag tag) v = none)
    (u : List Char) : extractXmlLoop (u ++ v) tag (byteLen u) = .ok none := by
  have hle : byteLen u ≤ byteLen (u ++ v) := by
    rw [byteLen_append]
    omega
  rw [extractXmlLoop, dif_pos hle, strFrom_append, Res.ok_bind, ← openTag, hfind]
  rfl

/-- What the loop does where an opening tag is found. -/
theorem extractXmlLoop_found {tag s w : List Char}
    (hfind : strFind (openTag tag) (s ++ (openTag tag ++ w)) = some (byteLen s)) (u : List Char) :
    extractXmlLoop (u ++ (s ++ (openTag tag ++ w))) tag (byteLen u) =
      match captureAt (elementEnd tag) w with
      | some t => .ok (some t)
      | none =>
        extractXmlLoop (u ++ s ++ openTag tag ++ w) tag (byteLen (u ++ s ++ openTag tag)) := by
  have hle : byteLen u ≤ byteLen (u ++ (s ++ (openTag tag ++ w))) := by
    rw [byteLen_append u]
    omega
  -- The content starts after the opening tag.
  have htext : u ++ (s ++ (openTag tag ++ w)) = u ++ s ++ openTag tag ++ w := by simp
  have hstart : byteLen u + byteLen s + byteLen (openTag tag) =
      byteLen (u ++ s ++ openTag tag) := by rw [byteLen_append, byteLen_append]
  rw [extractXmlLoop, dif_pos hle, strFrom_append, Res.ok_bind, ← openTag, hfind]
  dsimp only
  rw [hstart, htext, strFrom_append, Res.ok_bind]
  by_cases hw : '<' ∈ w
  · -- The content ends at the first `<`, where the closing tag must stand.
    obtain ⟨x, y, rfl, hx⟩ := List.eq_append_cons_of_mem hw
    have hstop : byteLen (u ++ s ++ openTag tag) + byteLen x =
        byteLen (u ++ s ++ openTag tag ++ x) := (byteLen_append _ _).symm
    have hcut : u ++ s ++ openTag tag ++ (x ++ '<' :: y) =
        u ++ s ++ openTag tag ++ x ++ '<' :: y := by simp
    have hslice := strSlice_append (ε := Empty) (u ++ s ++ openTag tag) x ('<' :: y)
    have hclosing := strFrom_append (ε := Empty) (u ++ s ++ openTag tag ++ x) ('<' :: y)
    rw [strFind_singleton_append hx y, captureAt_elementEnd hx]
    dsimp only
    rw [hcut, hslice, hstop, hclosing, Res.ok_bind]
    split_ifs with hclose
    · rfl
    · rw [← hcut]
  · -- The loop returns, and would find no opening tag if it went on.
    rw [strFind_eq_none hw, captureAt_elementEnd_none hw]
    exact (extractXmlLoop_none (strFind_eq_none hw _) _).symm

/-- Each copy of `extract_xml_string` returns what the leftmost match of the expression captures, if
the tag does not have a `<`. -/
theorem extractXmlString_eq {tag : List Char} (htag : '<' ∉ tag) (xml : List Char) :
    extractXmlString xml tag = .ok ((elementRe tag).capture xml) := by
  refine searchLoop_eq_capture (arity_elementRe tag)
    (fun u v (hfind : strFind (openTag tag) v = none) => extractXmlLoop_none hfind u) ?_ ?_ [] xml
  · intro u s w t hfind hcapture
    rw [extractXmlLoop_found hfind, hcapture]
  · intro u s w hfind hcapture
    -- The loop goes on behind the opening tag, inside of which no other one starts.
    refine ⟨openTag tag, w, rfl, by simp [openTag], ?_, ?_⟩
    · exact fun x' hx' hne hproper => not_prefix_inside_openTag htag hx' hne hproper
    · rw [extractXmlLoop_found hfind, hcapture]

/-- `Hikvision::parse` returns. -/
theorem Hikvision.parse_ok (src : SocketAddr) (data : List UInt8) :
    ∃ devs, Hikvision.parse src data = .ok devs := by
  unfold Hikvision.parse
  dsimp only
  split_ifs
  · exact ⟨[], rfl⟩
  · simp only [Hikvision.extractXmlString, Res.ok_bind,
      extractXmlString_eq (show '<' ∉ "DeviceDescription".toList by decide),
      extractXmlString_eq (show '<' ∉ "DeviceSN".toList by decide),
      extractXmlString_eq (show '<' ∉ "IPv4Address".toList by decide),
      extractXmlString_eq (show '<' ∉ "IPv6Address".toList by decide)]
    split <;> exact ⟨_, rfl⟩

/-- `Bosch::parse` returns. -/
theorem Bosch.parse_ok (src : SocketAddr) (data : List UInt8) :
    ∃ devs, Bosch.parse src data = .ok devs := by
  unfold Bosch.parse
  split_ifs with hbinary
  · -- The binary answer is as long as its last field needs.
    have hlen : data.length = 0x20 := hbinary
    obtain ⟨magic, hmagic⟩ := be32At_eq_ok (i := 0) (show 0 + 3 < data.length by omega)
    obtain ⟨ip, hip⟩ := le32At_eq_ok (i := 0x10) (show 0x10 + 3 < data.length by omega)
    rw [parseBinary, hmagic, Res.ok_bind]
    split_ifs
    · exact ⟨[], rfl⟩
    · rw [hip, Res.ok_bind, macAt_eq (show 0x08 + 6 ≤ data.length by omega)]
      exact ⟨_, rfl⟩
  · unfold parseXml
    simp only [Bosch.extractXmlString, Res.ok_bind,
      extractXmlString_eq (show '<' ∉ "friendlyName".toList by decide),
      extractXmlString_eq (show '<' ∉ "serialNumber".toList by decide),
      extractXmlString_eq (show '<' ∉ "physAddress".toList by decide),
      extractXmlString_eq (show '<' ∉ "unitIPAddress".toList by decide),
      extractXmlString_eq (show '<' ∉ "unitIPv6Address".toList by decide)]
    split <;> exact ⟨_, rfl⟩

/-- `Eden::parse` returns. -/
theorem Eden.parse_ok (src : SocketAddr) (data : List UInt8) :
    ∃ devs, Eden.parse src data = .ok devs := by
  unfold Eden.parse
  split
  · split_ifs
    · exact ⟨[], rfl⟩
    · simp only [Eden.extractXmlString, Res.ok_bind,
        extractXmlString_eq (show '<' ∉ "serialNumber".toList by decide),
        extractXmlString_eq (show '<' ∉ "adresseIP".toList by decide)]
      exact ⟨_, rfl⟩
  · exact ⟨[], rfl⟩

/-- For every text and every tag without angle brackets, each copy of `extract_xml_string` returns
what the leftmost match of the expression captures. -/
theorem extractXmlString_search (xml tag : List Char) (htag : '<' ∉ tag ∧ '>' ∉ tag) :
    Hikvision.extractXmlString xml tag = .ok ((elementRe tag).capture xml) ∧
      Bosch.extractXmlString xml tag = .ok ((elementRe tag).capture xml) ∧
      Eden.extractXmlString xml tag = .ok ((elementRe tag).capture xml) :=
  ⟨extractXmlString_eq htag.1 xml, extractXmlString_eq htag.1 xml, extractXmlString_eq htag.1 xml⟩

/-- A first element that is not closed in place does not hide the next one. -/
theorem extractXmlString_search_second :
    '<' ∉ "a".toList ∧ '>' ∉ "a".toList ∧
      Hikvision.extractXmlString "<a>x<b/></a><a>y</a>".toList "a".toList =
        .ok ((elementRe "a".toList).capture "<a>x<b/></a><a>y</a>".toList) ∧
      (elementRe "a".toList).capture "<a>x<b/></a><a>y</a>".toList = some "y".toList := by
  have htag : '<' ∉ "a".toList ∧ '>' ∉ "a".toList := by decide
  exact ⟨htag.1, htag.2, (extractXmlString_search _ _ htag).1, by decide⟩

end Uscan
