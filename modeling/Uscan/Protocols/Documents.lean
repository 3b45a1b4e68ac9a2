import Mathlib.Data.List.Chain
import Uscan.Lib.Markup
import Uscan.Protocols.Text
import Uscan.Protocols.XmlMatch

/-!
# Answers that are documents

What Hikvision, Bosch and Eden make of a document: they take the text of the first leaf of each
name that they know, wherever it stands among the elements (`parse_documents`).

What Microchip makes of lines: they may end in any of three ways, each in its own
(`Microchip.parse_lines`).
-/

namespace Uscan

open Re Markup

/-! ## Opening tags -/

/-- Two tags that end in the same place are the same. -/
theorem tag_prefix_iff {tag tag' : List Char} (h : '>' ∉ tag) (h' : '>' ∉ tag') (s : List Char) :
    tag ++ ['>'] <+: tag' ++ '>' :: s ↔ tag' = tag := by
  constructor
  · rintro ⟨t, ht⟩
    rw [List.append_assoc, List.singleton_append] at ht
    have htake := congrArg (List.takeWhile (· != '>')) ht
    rw [(takeWhile_ne_append h _).1, (takeWhile_ne_append h' _).1] at htake
    exact htake.symm
  · rintro rfl
    exact ⟨s, by rw [List.append_assoc, List.singleton_append]⟩

/-- No opening tag starts in a text without one. -/
theorem not_prefix_openTag {u v : List Char} (hu : '<' ∉ u) (hne : u ≠ []) (tag : List Char) :
    ¬ openTag tag <+: u ++ v := by
  obtain ⟨c, u, rfl⟩ := List.exists_cons_of_ne_nil hne
  rw [openTag, List.cons_append, List.cons_append, List.cons_prefix_cons]
  rintro ⟨rfl, -⟩
  exact hu List.mem_cons_self

/-- Such a text is passed over. -/
theorem capture_elementRe_skip {u : List Char} (hu : '<' ∉ u) (tag v : List Char) :
    capture (elementRe tag) (u ++ v) = capture (elementRe tag) v := by
  refine capture_skip fun u' hu' hne => ?_
  have hnot := not_prefix_openTag (v := v) (fun hmem => hu (hu'.subset hmem)) hne tag
  rw [elementRe, first, run_seq_lit_neg hnot]
  rfl

/-- What the expression captures at the tag of a piece. -/
theorem captureAt_piece {tag : List Char} (htag : '>' ∉ tag) {p : Piece} (hp : p.Ok)
    {ps : List Piece} (hps : ∀ q ∈ ps, q.Ok) :
    captureAt (elementRe tag) (write (p :: ps)) =
      if p.tag = tag ∧ ∃ q ∈ ps.head?, q.tag = '/' :: tag then some p.tail else none := by
  have hwrite (p : Piece) (ps : List Piece) :
      write (p :: ps) = '<' :: (p.tag ++ '>' :: (p.tail ++ write ps)) := by
    simp [write]
  by_cases hopen : p.tag = tag
  · have htext : write (p :: ps) = openTag tag ++ (p.tail ++ write ps) := by
      rw [hwrite, hopen, openTag, List.cons_append, List.cons_append, List.append_assoc]
      rfl
    rw [htext, elementRe, captureAt_lit_append]
    cases ps with
    | nil =>
      rw [write, List.append_nil, captureAt_elementEnd_none hp.tail_lt, if_neg (by simp)]
    | cons q qs =>
      -- The next tag is where the content ends.
      have hq := hps q List.mem_cons_self
      have hclose : '<' :: '/' :: tag ++ ['>'] <+: '<' :: (q.tag ++ '>' :: (q.tail ++ write qs)) ↔
          q.tag = '/' :: tag := by
        rw [List.cons_append, List.cons_prefix_cons, tag_prefix_iff (by simpa using htag) hq.tag_gt]
        exact and_iff_right rfl
      rw [hwrite q qs, captureAt_elementEnd hp.tail_lt]
      exact if_congr (hclose.trans (by simp [hopen])) rfl rfl
  · have hnot : ¬ openTag tag <+: write (p :: ps) := by
      rw [hwrite, openTag, List.cons_append, List.cons_prefix_cons,
        tag_prefix_iff htag hp.tag_gt]
      exact fun h => hopen h.2
    rw [elementRe, captureAt_lit_neg hnot, if_neg fun h => hopen h.1]

/-- The leftmost match captures the first text directly between the tags. -/
theorem capture_write {tag : List Char} (htag : '>' ∉ tag) {ps : List Piece}
    (hps : ∀ p ∈ ps, p.Ok) : capture (elementRe tag) (write ps) = firstContent tag ps := by
  induction ps with
  | nil =>
    rw [write]
    refine capture_eq_none fun t ht => ?_
    rw [List.suffix_nil.mp ht]
    rfl
  | cons p ps ih =>
    obtain ⟨hp, hrest⟩ := List.forall_mem_cons.mp hps
    have hat := captureAt_piece htag hp hrest
    by_cases hfound : p.tag = tag ∧ ∃ q ∈ ps.head?, q.tag = '/' :: tag
    · rw [if_pos hfound] at hat
      rw [capture_of_captureAt hat]
      obtain ⟨hopen, q, hq, hclose⟩ := hfound
      obtain ⟨qs, rfl⟩ := List.head?_eq_some_iff.mp hq
      exact (if_pos ⟨hopen, hclose⟩).symm
    · rw [if_neg hfound, captureAt_eq_none_iff (arity_elementRe tag)] at hat
      -- No other match starts in the piece.
      have hpiece : '<' ∉ p.tag ++ '>' :: p.tail := by
        simpa using ⟨hp.tag_lt, hp.tail_lt⟩
      have hskip : capture (elementRe tag) (('<' :: (p.tag ++ '>' :: p.tail)) ++ write ps) =
          capture (elementRe tag) (write ps) := by
        refine capture_skip fun u hu hne => ?_
        rcases List.suffix_cons_iff.mp hu with rfl | hu
        · exact hat
        · have hnot := not_prefix_openTag (v := write ps) (fun h => hpiece (hu.subset h)) hne tag
          rw [elementRe, first, run_seq_lit_neg hnot]
          rfl
      refine hskip.trans ((ih hrest).trans ?_)
      cases ps with
      | nil => rfl
      | cons q qs => exact (if_neg fun h => hfound ⟨h.1, q, rfl, h.2⟩).symm

/-- In a document, each copy of `extract_xml_string` returns the text of the first leaf. -/
theorem extractXmlString_document (doc : Document) (name : List Char) (hname : IsName name) :
    extractXmlString doc.text name = .ok (doc.content name) := by
  have hlt : '<' ∉ name := Forest.notMem_of_isName hname (by decide)
  have hgt : '>' ∉ name := Forest.notMem_of_isName hname (by decide)
  rw [extractXmlString_eq hlt, Document.text, capture_elementRe_skip doc.prolog_lt,
    capture_write hgt (Forest.pieces_ok doc.forest_ok), doc.firstContent_eq hname]

/-- `str::contains` finds what stands somewhere. -/
theorem strContains_iff (pat s : List Char) : strContains pat s = true ↔ pat <:+: s := by
  rw [strContains, List.infix_iff_prefix_suffix]
  cases hfind : strFind pat s with
  | none => exact iff_of_false Bool.false_ne_true fun ⟨t, hpat, ht⟩ =>
      not_prefix_of_strFind hfind ht hpat
  | some n =>
    obtain ⟨u, v, rfl, -, hfound⟩ := exists_of_strFind hfind
    exact iff_of_true rfl ⟨v, hfound.here, List.suffix_append u v⟩

/-- An opening tag does not stand in a text without one. -/
theorem openTag_infix_skip {u : List Char} (hu : '<' ∉ u) (tag v : List Char) :
    openTag tag <:+: u ++ v ↔ openTag tag <:+: v := by
  induction u with
  | nil => exact Iff.rfl
  | cons c u ih =>
    rw [List.cons_append, List.infix_cons_iff, ih fun h => hu (List.mem_cons_of_mem c h)]
    exact or_iff_right (not_prefix_openTag (u := c :: u) hu (List.cons_ne_nil c u) tag)

/-- It stands in a sequence of pieces just when one of them has it. -/
theorem openTag_infix_write {tag : List Char} (htag : '>' ∉ tag) {ps : List Piece}
    (hps : ∀ p ∈ ps, p.Ok) : openTag tag <:+: write ps ↔ tag ∈ ps.map Piece.tag := by
  induction ps with
  | nil => simp [write, openTag]
  | cons p ps ih =>
    obtain ⟨hp, hrest⟩ := List.forall_mem_cons.mp hps
    have hpiece : '<' ∉ p.tag ++ '>' :: p.tail := by
      simpa using ⟨hp.tag_lt, hp.tail_lt⟩
    have hfront : openTag tag <+: '<' :: (p.tag ++ '>' :: p.tail ++ write ps) ↔ p.tag = tag := by
      rw [openTag, List.cons_append, List.cons_prefix_cons, List.append_assoc, List.cons_append,
        tag_prefix_iff htag hp.tag_gt]
      exact and_iff_right rfl
    have hwrite : write (p :: ps) = '<' :: (p.tag ++ '>' :: p.tail ++ write ps) := rfl
    rw [hwrite, List.infix_cons_iff, hfront, openTag_infix_skip hpiece, ih hrest, List.map_cons,
      List.mem_cons, eq_comm]

/-- An opening tag stands in a document just when an element has it. -/
theorem strContains_document (doc : Document) (name : List Char) (hname : IsName name) :
    strContains (openTag name) doc.text = true ↔ name ∈ doc.tags := by
  have hgt : '>' ∉ name := Forest.notMem_of_isName hname (by decide)
  rw [strContains_iff, Document.text, openTag_infix_skip doc.prolog_lt,
    openTag_infix_write hgt (Forest.pieces_ok doc.forest_ok), Document.tags]

/-! ## The parsers -/

/-- The devices of an answer with an address of each kind, or only the first. -/
def withIpv6 (device : IpAddr → Device) (ip : IpAddr) (ip6 : Option IpAddr) : List Device :=
  device ip :: ip6.toList.map device

/-- What Hikvision reports of a document. -/
def Hikvision.ofDocument (src : SocketAddr) (doc : Document) : List Device :=
  let text (name : String) : Option (List Char) := doc.content name.toList
  if doc.tags.contains "ProbeMatch".toList then
    withIpv6
      (fun ip => ⟨"Hikvision".toList, 1, ip, [], (text "DeviceDescription").getD [],
        (text "DeviceSN").getD []⟩)
      ((parseIpAddr ((text "IPv4Address").getD src.ip.text)).getD src.ip)
      ((text "IPv6Address").bind parseIpAddr)
  else []

/-- What Bosch reports of a document. -/
def Bosch.ofDocument (src : SocketAddr) (doc : Document) : List Device :=
  let text (name : String) : Option (List Char) := doc.content name.toList
  withIpv6
    (fun ip => ⟨"Bosch".toList, 2, ip, ((text "physAddress").map normalizeMac).getD [],
      (text "friendlyName").getD [], ((text "serialNumber").or (text "physAddress")).getD []⟩)
    (((text "unitIPAddress").bind parseIpAddr).getD src.ip)
    ((text "unitIPv6Address").bind parseIpAddr)

/-- What Eden reports of a document. -/
def Eden.ofDocument (src : SocketAddr) (doc : Document) : List Device :=
  let text (name : String) : Option (List Char) := doc.content name.toList
  [⟨"Eden".toList, 1, ((text "adresseIP").bind parseIpAddr).getD src.ip, [],
    "Optima box".toList, (text "serialNumber").getD []⟩]

/-- Without a text there is no address. -/
theorem parseIpAddr_getD (text : Option (List Char)) :
    parseIpAddr (text.getD []) = text.bind parseIpAddr := by
  cases text with
  | none => exact (by decide : parseIpAddr [] = none)
  | some text => rfl

/-- Hikvision reports a document. -/
theorem Hikvision.parse_document (src : SocketAddr) (doc : Document) :
    Hikvision.parse src (utf8 doc.text) = .ok (Hikvision.ofDocument src doc) := by
  have hmatch : strContains "<ProbeMatch>".toList doc.text = true ↔
      doc.tags.contains "ProbeMatch".toList = true := by
    rw [List.contains_iff_mem]
    exact strContains_document doc "ProbeMatch".toList (.of_all (by decide))
  rw [Hikvision.parse, fromUtf8Lossy_utf8, ofDocument]
  dsimp only
  by_cases h : doc.tags.contains "ProbeMatch".toList = true
  · rw [hmatch.mpr h, if_pos h, if_neg (by decide)]
    simp only [Hikvision.extractXmlString, Res.ok_bind,
      extractXmlString_document doc "DeviceDescription".toList (.of_all (by decide)),
      extractXmlString_document doc "DeviceSN".toList (.of_all (by decide)),
      extractXmlString_document doc "IPv4Address".toList (.of_all (by decide)),
      extractXmlString_document doc "IPv6Address".toList (.of_all (by decide))]
    cases (doc.content "IPv6Address".toList).bind parseIpAddr <;> rfl
  · rw [if_neg h, if_pos (by simpa using mt hmatch.mp h)]

/-- Bosch reports a document, unless it is as long as a binary answer. -/
theorem Bosch.parse_document (src : SocketAddr) (doc : Document)
    (h : byteLen doc.text ≠ binaryAnswerSize) :
    Bosch.parse src (utf8 doc.text) = .ok (Bosch.ofDocument src doc) := by
  have hlen : ¬ (utf8 doc.text).length = binaryAnswerSize := h
  rw [Bosch.parse, if_neg hlen, fromUtf8Lossy_utf8, parseXml, ofDocument]
  simp only [Bosch.extractXmlString, Res.ok_bind,
    extractXmlString_document doc "friendlyName".toList (.of_all (by decide)),
    extractXmlString_document doc "serialNumber".toList (.of_all (by decide)),
    extractXmlString_document doc "physAddress".toList (.of_all (by decide)),
    extractXmlString_document doc "unitIPAddress".toList (.of_all (by decide)),
    extractXmlString_document doc "unitIPv6Address".toList (.of_all (by decide)),
    parseIpAddr_getD]
  cases (doc.content "unitIPv6Address".toList).bind parseIpAddr <;>
    cases doc.content "serialNumber".toList <;> rfl

/-- Eden reports a document between its marks, whatever bytes follow the second one. -/
theorem Eden.parse_document (src : SocketAddr) (doc : Document) (h : '|' ∉ doc.text)
    {rest : List UInt8} (hrest : ∀ b ∈ rest.head?, b = '|'.toUInt8) :
    Eden.parse src (utf8 ("BOX|".toList ++ doc.text) ++ rest) = .ok (Eden.ofDocument src doc) := by
  have hsplit : ∃ parts, ("BOX|".toList ++ doc.text ++ fromUtf8Lossy rest).splitOn '|' =
      answerMagic :: doc.text :: parts := by
    have htext : "BOX|".toList ++ doc.text ++ fromUtf8Lossy rest =
        answerMagic ++ '|' :: (doc.text ++ fromUtf8Lossy rest) := by
      rw [List.append_assoc]
      rfl
    rw [htext, List.splitOn_append_cons_self_of_not_mem (by decide)]
    cases rest with
    | nil => exact ⟨[], by rw [fromUtf8Lossy, List.append_nil, List.splitOn_eq_singleton h]⟩
    | cons b rest =>
      -- The mark is read as such, for it is a character of one byte.
      have hmark : fromUtf8Lossy (b :: rest) = '|' :: fromUtf8Lossy rest := by
        rw [hrest b rfl]
        exact fromUtf8Lossy_utf8_append ['|'] rest
      rw [hmark, List.splitOn_append_cons_self_of_not_mem h]
      exact ⟨_, rfl⟩
  obtain ⟨parts, hparts⟩ := hsplit
  rw [Eden.parse, fromUtf8Lossy_utf8_append, hparts, ofDocument]
  simp only [Eden.extractXmlString, Res.ok_bind, if_neg (not_not.mpr rfl),
    extractXmlString_document doc "serialNumber".toList (.of_all (by decide)),
    extractXmlString_document doc "adresseIP".toList (.of_all (by decide)),
    parseIpAddr_getD]
  rfl

namespace Microchip

/-- The end of a line. -/
inductive LineEnd where
  | lf
  | cr
  | crlf
  deriving DecidableEq, Repr

/-- Its characters. -/
def LineEnd.text : LineEnd → List Char
  | lf => ['\n']
  | cr => ['\r']
  | crlf => ['\r', '\n']

/-- A first line, and more lines, each with the end of the one before. -/
def linesText (first : List Char) (more : List (LineEnd × List Char)) : List Char :=
  first ++ more.flatMap fun line => line.1.text ++ line.2

/-- A carriage return that ends a line, and a line feed that ends an empty line after it, would be
one end. -/
def Joined (line next : LineEnd × List Char) : Prop := line.1 = .cr ∧ line.2 = [] ∧ next.1 = .lf

/-- No line has an end inside. -/
def Whole (line : List Char) : Prop := '\r' ∉ line ∧ '\n' ∉ line

/-- A carriage return without a line feed stays. -/
theorem strReplace_cr {s : List Char} (h : s.head? ≠ some '\n') (new : List Char) :
    strReplace ['\r', '\n'] new ('\r' :: s) = '\r' :: strReplace ['\r', '\n'] new s := by
  have hdrop : ('\r' :: s).dropPrefix? ['\r', '\n'] = none := by
    cases s with
    | nil => rfl
    | cons c s =>
      have hc : c ≠ '\n' := fun hc => h (by rw [hc]; rfl)
      simpa [List.dropPrefix?] using hc
  rw [strReplace, hdrop]

/-- One character in place of another one. -/
theorem strReplace_singleton (c d : Char) (s : List Char) :
    strReplace [c] [d] s = s.map fun x => if x = c then d else x := by
  induction s with
  | nil => rw [strReplace, List.map_nil]
  | cons x s ih =>
    rw [List.map_cons, ← ih]
    split_ifs with hx
    · subst hx
      exact strReplace_self_append x [] [d] s
    · exact strReplace_cons hx [] [d] s

/-- The end of a line after the first replacement. -/
def LineEnd.replaced : LineEnd → List Char
  | lf => ['\n']
  | cr => ['\r']
  | crlf => ['\n']

/-- The first replacement. -/
theorem strReplace_lines {more : List (LineEnd × List Char)} (hmore : ∀ line ∈ more, Whole line.2)
    (hapart : more.IsChain fun line next => ¬ Joined line next) :
    strReplace ['\r', '\n'] ['\n'] (more.flatMap fun line => line.1.text ++ line.2) =
      more.flatMap fun line => line.1.replaced ++ line.2 := by
  induction more with
  | nil => rw [List.flatMap_nil, strReplace, List.flatMap_nil]
  | cons line more ih =>
    obtain ⟨⟨hcr, hlf⟩, hrest⟩ := List.forall_mem_cons.mp hmore
    obtain ⟨hnext, hapart⟩ := List.isChain_cons.mp hapart
    have ih := ih hrest hapart
    obtain ⟨e, line⟩ := line
    rw [List.flatMap_cons, List.flatMap_cons, ← ih, List.append_assoc, List.append_assoc]
    cases e with
    | lf =>
      rw [← strReplace_append hcr]
      exact strReplace_cons (by decide) _ _ _
    | crlf =>
      rw [← strReplace_append hcr]
      exact strReplace_self_append '\r' ['\n'] ['\n'] _
    | cr =>
      rw [← strReplace_append hcr]
      refine strReplace_cr ?_ _
      -- An empty line is followed by the end of a line that is no line feed.
      cases line with
      | cons c line =>
        intro hhead
        cases hhead
        exact hlf List.mem_cons_self
      | nil =>
        cases more with
        | nil =>
          intro hhead
          cases hhead
        | cons next more =>
          obtain ⟨e, line⟩ := next
          cases e with
          | lf => exact absurd ⟨rfl, rfl, rfl⟩ (hnext _ rfl)
          | cr => simp [LineEnd.text]
          | crlf => simp [LineEnd.text]

/-- After both replacements, every line ends in a line feed. -/
theorem normalized_eq {first : List Char} {more : List (LineEnd × List Char)}
    (hfirst : Whole first) (hmore : ∀ line ∈ more, Whole line.2)
    (hapart : more.IsChain fun line next => ¬ Joined line next) :
    strReplace ['\r'] ['\n'] (strReplace ['\r', '\n'] ['\n'] (linesText first more)) =
      ['\n'].intercalate (first :: more.map Prod.snd) := by
  have hkeep {line : List Char} (h : Whole line) :
      (line.map fun x => if x = '\r' then '\n' else x) = line := by
    refine (List.map_congr_left fun x hx => if_neg ?_).trans (List.map_id' line)
    rintro rfl
    exact h.1 hx
  have hend (e : LineEnd) : (e.replaced.map fun x => if x = '\r' then '\n' else x) = ['\n'] := by
    cases e <;> rfl
  rw [linesText, strReplace_append hfirst.1, strReplace_lines hmore hapart, strReplace_singleton,
    List.map_append, hkeep hfirst]
  clear hapart
  induction more generalizing first with
  | nil => simp
  | cons line more ih =>
    obtain ⟨hline, hrest⟩ := List.forall_mem_cons.mp hmore
    rw [List.map_cons, List.intercalate_cons_cons, ← ih hline hrest, List.flatMap_cons,
      List.map_append, List.map_append, hend, hkeep hline, List.append_assoc, List.append_assoc]

/-- What Microchip reports of lines. -/
def ofLines (src : SocketAddr) : List (List Char) → List Device
  | _ :: mac :: _ :: product :: _ =>
    [device src "GCE".toList (normalizeMac (trim mac)) (trim product) (trim mac)]
  | hostname :: mac :: _ =>
    [device src "Microchip".toList (normalizeMac (trim mac)) (trim hostname) (trim mac)]
  | _ => []

/-- Lines are reported in the same way whether they end in a line feed, a carriage return, or both,
and also if each ends in another way, as long as no two ends can be taken for one. -/
theorem parse_lines (src : SocketAddr) (first : List Char) (more : List (LineEnd × List Char))
    (hfirst : Whole first) (hmore : ∀ line ∈ more, Whole line.2)
    (hapart : more.IsChain fun line next => ¬ Joined line next)
    (hprobe : linesText first more ≠ probe) :
    parse src (utf8 (linesText first more)) = .ok (ofLines src (first :: more.map Prod.snd)) := by
  have hsplit : (['\n'].intercalate (first :: more.map Prod.snd)).splitOn '\n' =
      first :: more.map Prod.snd := by
    refine List.splitOn_intercalate '\n' ?_ (List.cons_ne_nil _ _)
    rw [List.forall_mem_cons, List.forall_mem_map]
    exact ⟨hfirst.2, fun line hline => (hmore line hline).2⟩
  rw [parse, fromUtf8_utf8]
  dsimp only
  rw [if_neg hprobe, normalized_eq hfirst hmore hapart, hsplit]
  generalize more.map Prod.snd = lines
  rcases lines with _ | ⟨_, _ | ⟨_, _ | ⟨_, lines⟩⟩⟩ <;> rfl

/-- The lines of an answer, with three kinds of ends. -/
def exampleLines : List (LineEnd × List Char) :=
  [(.crlf, "00-04-A3-12-34-56".toList), (.cr, "30303".toList), (.lf, " IPX800 ".toList)]

/-- They are reported as a device of GCE. -/
theorem parse_lines_gce :
    parse ⟨.v4 ⟨192, 168, 1, 2⟩, 30303⟩ (utf8 (linesText "host".toList exampleLines)) =
      .ok (ofLines ⟨.v4 ⟨192, 168, 1, 2⟩, 30303⟩
        ("host".toList :: exampleLines.map Prod.snd)) := by
  refine parse_lines _ _ _ ?_ ?_ ?_ ?_
  · exact ⟨by decide, by decide⟩
  · unfold Whole
    decide
  · unfold exampleLines Joined
    simp
  · decide

end Microchip

end Uscan
