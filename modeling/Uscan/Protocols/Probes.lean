import Uscan.Protocols.Dahua
import Uscan.Protocols.Fixed
import Uscan.Protocols.Stream
import Uscan.Protocols.Text
import Uscan.Protocols.Vision360
import Uscan.Protocols.Wsd
import Uscan.Protocols.Xml

/-!
# Probes that come back

An engine that listens on the port it probes receives its own multicast and broadcast probes. Its
parser reports no device for them, for one reason or another: the probe lacks the mark of an answer,
or is too short, or the engine compares with it. The exception is the probe of WSDiscovery with a
fresh identifier, which has an address and types of its own, and is reported as a device
(`forall_parse_probes_iff`).
-/

namespace Uscan

/-! ## The engines -/

/-- The engines that listen on the port they probe. -/
inductive ProbeEngine where
  | ssdp
  | wsd
  | dahua1
  | dahua2
  | hikvision
  | ubiquiti
  | vision360
  | vstarcam
  | eaton
  | foscam
  | lantronix
  | microchip
  | eden
  | cyberPower
  | mssql
  | tvt
  deriving DecidableEq, Repr

namespace ProbeEngine

/-- The probes that `scan` sends, with the setting `onvif_verbatim` and the identifier it has
made. -/
def probes (e : ProbeEngine) (onvifVerbatim : Bool) (id : Wsd.Uuid) : List (List UInt8) :=
  match e with
  | ssdp =>
    [utf8 (Ssdp.probe "239.255.255.250:1900".toList),
      utf8 (Ssdp.probe "255.255.255.255:1900".toList)]
  | wsd => [Wsd.probe onvifVerbatim id]
  | dahua1 => [Dahua1.discover]
  | dahua2 => [Dahua2.buildProbe]
  | hikvision => [utf8 Hikvision.probe]
  | ubiquiti => [Ubiquiti.buildProbe]
  | vision360 => [utf8 Vision360.request]
  | vstarcam => [Vstarcam.buildProbe]
  | eaton => [utf8 Eaton.probe]
  | foscam => [Foscam.probe]
  | lantronix => [Lantronix.probe]
  | microchip => [utf8 Microchip.probe]
  | eden => [utf8 Eden.probe]
  | cyberPower => [CyberPower.probe]
  | mssql => [Mssql.probe]
  | tvt => [Tvt.buildProbe]

/-- `ScanEngine::parse`. -/
def parse (e : ProbeEngine) : SocketAddr → List UInt8 → Res Empty (List Device) :=
  match e with
  | ssdp => Ssdp.parse
  | wsd => Wsd.parse
  | dahua1 => Dahua1.parse
  | dahua2 => Dahua2.parse
  | hikvision => Hikvision.parse
  | ubiquiti => Ubiquiti.parse
  | vision360 => Vision360.parse
  | vstarcam => Vstarcam.parse
  | eaton => Eaton.parse
  | foscam => Foscam.parse
  | lantronix => Lantronix.parse
  | microchip => Microchip.parse
  | eden => Eden.parse
  | cyberPower => CyberPower.parse
  | mssql => Mssql.parse
  | tvt => Tvt.parse

end ProbeEngine

/-! ## The probe of WSDiscovery -/

namespace Wsd

/-- Without types, there is no device. -/
theorem parse_of_no_types (src : SocketAddr) {xml address : List Char}
    (haddress : extractTag xml "Address".toList = .ok (some address))
    (htypes : extractTag xml "Types".toList = .ok none) : parse src (utf8 xml) = .ok [] := by
  rw [parse, fromUtf8Lossy_utf8, haddress]
  simp only [Res.ok_bind, htypes]
  rfl

/-- With an address and types, there is a device. -/
theorem parse_of_types (src : SocketAddr) {xml address types : List Char}
    (haddress : extractTag xml "Address".toList = .ok (some address))
    (htypes : extractTag xml "Types".toList = .ok (some types))
    (hnot : ¬ (removeNamespace types = [] ∨ extractUuid address = [])) :
    parse src (utf8 xml) ≠ .ok [] := by
  rw [parse, fromUtf8Lossy_utf8, haddress]
  simp only [Res.ok_bind, htypes, if_neg hnot]
  intro h
  cases h

/-- The value that the parser extracts, by the leftmost match: a tag with a prefix stands there or
after it, and the match captures the value. -/
theorem extracts_of_match {tag xml value : List Char}
    (h : ∃ x ∈ (tagRe tag).search xml, prefixed tag <:+: x.2.text ++ x.2.rest ∧
      x.2.groups.getD 0 [] = value) :
    prefixedFollows tag xml ∧ tagCapture tag xml = some value := by
  obtain ⟨x, hx, hfollows, rfl⟩ := h
  have hsearch : (tagRe tag).search xml = some x := hx
  constructor
  · intro y hy
    cases hsearch.symm.trans hy
    exact hfollows
  · rw [tagCapture, hsearch, Option.map_some]

/-- Without a match the parser extracts nothing. -/
theorem extractTag_of_no_match {tag xml : List Char} (h : (tagRe tag).search xml = none) :
    extractTag xml tag = .ok none := by
  have hfollows : prefixedFollows tag xml := by
    intro x hx
    cases h.symm.trans hx
  rw [extractTag_of_follows hfollows, tagCapture, h, Option.map_none]

/-- The probe with a fixed identifier has an attribute in the tag of its types, so that the parser
does not find them. -/
theorem parse_verbatim (src : SocketAddr) (id : Uuid) : parse src (probe true id) = .ok [] := by
  have haddress : ∃ x ∈ (tagRe "Address".toList).search verbatim,
      prefixed "Address".toList <:+: x.2.text ++ x.2.rest ∧ x.2.groups.getD 0 [] =
        "http://schemas.xmlsoap.org/ws/2004/08/addressing/role/anonymous".toList := by
    delta verbatim
    repeat rewrite [String.toList_append]
    repeat rewrite [String.toList_ofList]
    decide +kernel
  have htypes : (tagRe "Types".toList).search verbatim = none := by
    delta verbatim
    repeat rewrite [String.toList_append]
    repeat rewrite [String.toList_ofList]
    decide +kernel
  obtain ⟨hfollows, hcapture⟩ := extracts_of_match haddress
  have haddress' := extractTag_of_follows hfollows
  rw [hcapture] at haddress'
  rw [probe, if_pos rfl]
  exact parse_of_no_types src haddress' (extractTag_of_no_match htypes)

/-- The text of the probe before the identifier. -/
def beforeId : List Char := announce.takeWhile (· != '\x7b')

/-- The text of the probe after the identifier. -/
def afterId : List Char := (announce.dropWhile (· != '\x7b')).drop 3

/-- The announcement has one mark. -/
theorem announce_eq : announce = beforeId ++ ('\x7b' :: ['0', '\x7d'] ++ afterId) ∧
    '\x7b' ∉ beforeId ∧ '\x7b' ∉ afterId := by
  delta beforeId afterId announce
  repeat rewrite [String.toList_append]
  repeat rewrite [String.toList_ofList]
  decide +kernel

/-- The probe is the announcement with the identifier at its place. -/
theorem probe_false (id : Uuid) : probe false id = utf8 (beforeId ++ (id.text ++ afterId)) := by
  obtain ⟨hsplit, hbefore, hafter⟩ := announce_eq
  have hmark : "\x7b0\x7d".toList = '\x7b' :: ['0', '\x7d'] := String.toList_ofList
  rw [probe, if_neg (by decide), hmark, hsplit, strReplace_once hbefore hafter]

/-- The characters of an identifier. -/
def idChars : List Char := "0123456789abcdef-".toList

/-- Whether `tag` may stand at the front of a text that starts with `r` and goes on with a
character of an identifier. -/
def mayStart (tag r : List Char) : Bool :=
  tag.isPrefixOf r ||
    (r.isPrefixOf tag && (tag.drop r.length).head?.any fun c => idChars.contains c)

/-- What may not stand at the front does not. -/
theorem not_prefix_of_mayStart {tag r i w : List Char} (hi : i ≠ []) (hchars : ∀ c ∈ i, c ∈ idChars)
    (h : mayStart tag r = false) : ¬ tag <+: r ++ (i ++ w) := by
  intro htag
  obtain ⟨hnot, hrest⟩ := Bool.or_eq_false_iff.mp h
  rcases List.prefix_or_prefix_of_prefix htag (List.prefix_append r _) with hr | ⟨q, rfl⟩
  · -- It would stand in `r`.
    rw [List.isPrefixOf_iff_prefix.mpr hr] at hnot
    cases hnot
  · -- It would reach into the identifier, and have a character of it right after `r`.
    obtain ⟨c, i, rfl⟩ := List.exists_cons_of_ne_nil hi
    cases q with
    | nil =>
      rw [List.append_nil, List.isPrefixOf_iff_prefix.mpr List.prefix_rfl] at hnot
      cases hnot
    | cons d q =>
      have hd := (List.cons_prefix_cons.mp ((List.prefix_append_right_inj r).mp htag)).1
      have hmem : c ∈ idChars := hchars c List.mem_cons_self
      simp [hd] at hrest
      exact hrest hmem

/-- Whether an opening tag of the given name may start before the end of the identifier. -/
def mayStartBefore (tag : List Char) : Bool :=
  beforeId.tails.any fun r => mayStart (plain tag) r || mayStart (prefixed tag) r

/-- Where no opening tag may start before the end of the identifier, the expression has no match
that starts there. -/
theorem first_tagRe_before {tag w : List Char} (h : mayStartBefore tag = false) (id : Uuid) :
    ∀ s, s <:+ beforeId ++ id.text → s ≠ [] → (tagRe tag).first (s ++ w) = none := by
  have hnone (r i : List Char) (hr : r <:+ beforeId) (hi : i ≠ []) (hid : i <:+ id.text) :
      (tagRe tag).first (r ++ (i ++ w)) = none := by
    have hchars : ∀ c ∈ i, c ∈ idChars := fun c hc => id.chars c (hid.subset hc)
    have hmay := (List.any_eq_false.mp h) r ((List.mem_tails r beforeId).mpr hr)
    rw [Bool.not_eq_true, Bool.or_eq_false_iff] at hmay
    exact first_tagRe_neg (not_prefix_of_mayStart hi hchars hmay.1)
      (not_prefix_of_mayStart hi hchars hmay.2)
  have hid : id.text ≠ [] := List.ne_nil_of_length_pos (by rw [id.length_eq]; omega)
  rintro s ⟨t, ht⟩ hne
  -- The stretch starts in the identifier or before it.
  rcases List.append_eq_append_iff.mp ht with ⟨r, hbefore, rfl⟩ | ⟨r, -, htext⟩
  · rw [List.append_assoc]
    exact hnone r id.text ⟨t, hbefore.symm⟩ hid List.suffix_rfl
  · exact hnone [] s List.nil_suffix hne ⟨r, htext.symm⟩

/-- The search for a tag in the probe is one in the text after the identifier. -/
theorem extractTag_probe {tag : List Char} (hbefore : mayStartBefore tag = false)
    (hfollows : prefixedFollows tag afterId) (id : Uuid) :
    extractTag (beforeId ++ (id.text ++ afterId)) tag = .ok (tagCapture tag afterId) := by
  have hskip := first_tagRe_before (w := afterId) hbefore id
  rw [← List.append_assoc, ← tagCapture_skip hskip]
  exact extractTag_of_follows ((prefixedFollows_skip hskip).mpr hfollows)

/-- The probe with a fresh identifier is reported as a device. -/
theorem parse_probe_ne_nil (src : SocketAddr) (id : Uuid) :
    parse src (probe false id) ≠ .ok [] := by
  have haddress : mayStartBefore "Address".toList = false ∧
      ∃ x ∈ (tagRe "Address".toList).search afterId,
        prefixed "Address".toList <:+: x.2.text ++ x.2.rest ∧ x.2.groups.getD 0 [] =
          "http://schemas.xmlsoap.org/ws/2004/08/addressing/role/anonymous".toList := by
    delta mayStartBefore beforeId afterId announce
    repeat rewrite [String.toList_append]
    repeat rewrite [String.toList_ofList]
    decide +kernel
  have htypes : mayStartBefore "Types".toList = false ∧
      ∃ x ∈ (tagRe "Types".toList).search afterId,
        prefixed "Types".toList <:+: x.2.text ++ x.2.rest ∧ x.2.groups.getD 0 [] =
          "w:Device o:Device".toList := by
    delta mayStartBefore beforeId afterId announce
    repeat rewrite [String.toList_append]
    repeat rewrite [String.toList_ofList]
    decide +kernel
  have hnot : ¬ (removeNamespace "w:Device o:Device".toList = [] ∨
      extractUuid "http://schemas.xmlsoap.org/ws/2004/08/addressing/role/anonymous".toList =
        []) := by
    repeat rewrite [String.toList_ofList]
    decide +kernel
  obtain ⟨hfollows, hcapture⟩ := extracts_of_match haddress.2
  have haddress' := extractTag_probe haddress.1 hfollows id
  obtain ⟨hfollows, hcapture'⟩ := extracts_of_match htypes.2
  have htypes' := extractTag_probe htypes.1 hfollows id
  rw [hcapture] at haddress'
  rw [hcapture'] at htypes'
  rw [probe_false]
  exact parse_of_types src haddress' htypes' hnot

end Wsd

/-! ## Every engine -/

/-- An engine other than WSDiscovery reports no device for its own probes. -/
theorem ProbeEngine.parse_probes {e : ProbeEngine} (he : e ≠ wsd) (onvifVerbatim : Bool)
    (id : Wsd.Uuid) (src : SocketAddr) :
    ∀ p ∈ e.probes onvifVerbatim id, e.parse src p = .ok [] := by
  cases e with
  | wsd => exact absurd rfl he
  | ssdp =>
    intro p hp
    rcases List.mem_pair.mp hp with rfl | rfl
    · exact Ssdp.parse_probe src (.inl rfl)
    · exact Ssdp.parse_probe src (.inr rfl)
  | dahua1 => exact List.forall_mem_singleton.mpr (Dahua1.parse_discover src)
  | dahua2 => exact List.forall_mem_singleton.mpr (Dahua2.parse_buildProbe src)
  | hikvision => exact List.forall_mem_singleton.mpr (Hikvision.parse_probe src)
  | ubiquiti => exact List.forall_mem_singleton.mpr (Ubiquiti.parse_buildProbe src)
  | vision360 => exact List.forall_mem_singleton.mpr (Vision360.parse_request src)
  | vstarcam => exact List.forall_mem_singleton.mpr (Vstarcam.parse_buildProbe src)
  | eaton => exact List.forall_mem_singleton.mpr (Eaton.parse_probe src)
  | foscam => exact List.forall_mem_singleton.mpr (Foscam.parse_probe src)
  | lantronix => exact List.forall_mem_singleton.mpr (Lantronix.parse_probe src)
  | microchip => exact List.forall_mem_singleton.mpr (Microchip.parse_probe src)
  | eden => exact List.forall_mem_singleton.mpr (Eden.parse_probe src)
  | cyberPower => exact List.forall_mem_singleton.mpr (CyberPower.parse_probe src)
  | mssql => exact List.forall_mem_singleton.mpr (Mssql.parse_probe src)
  | tvt => exact List.forall_mem_singleton.mpr (Tvt.parse_buildProbe src)

/-- An engine reports no device for its own probes, except WSDiscovery for the probe with a fresh
identifier. -/
theorem forall_parse_probes_iff (e : ProbeEngine) (onvifVerbatim : Bool) (id : Wsd.Uuid)
    (src : SocketAddr) :
    (∀ p ∈ e.probes onvifVerbatim id, e.parse src p = .ok []) ↔
      ¬ (e = .wsd ∧ onvifVerbatim = false) := by
  by_cases he : e = .wsd
  · subst he
    cases onvifVerbatim with
    | true =>
      have hnone : ∀ p ∈ ProbeEngine.wsd.probes true id, Wsd.parse src p = .ok [] :=
        List.forall_mem_singleton.mpr (Wsd.parse_verbatim src id)
      exact iff_of_true hnone fun h => Bool.noConfusion h.2
    | false =>
      have hsome : ¬ ∀ p ∈ ProbeEngine.wsd.probes false id, Wsd.parse src p = .ok [] := by
        intro h
        exact Wsd.parse_probe_ne_nil src id (h _ List.mem_cons_self)
      exact iff_of_false hsome fun h => h ⟨rfl, rfl⟩
  · exact iff_of_true (e.parse_probes he onvifVerbatim id src) fun h => he h.1

/-- An identifier for examples. -/
def exampleUuid : Wsd.Uuid where
  text := "f686768c-3e60-4f9c-a344-0769929d665c".toList
  length_eq := by
    rewrite [String.toList_ofList]
    rfl
  chars := by
    have hsub : "f686768c-3e60-4f9c-a344-0769929d665c".toList ⊆ "0123456789abcdef-".toList := by
      repeat rewrite [String.toList_ofList]
      decide
    exact fun c hc => hsub hc

/-- The probe with the identifier `f686768c-3e60-4f9c-a344-0769929d665c`, sent back by the host
itself, is reported as a device. -/
theorem parse_probes_loopback :
    ¬ ∀ (e : ProbeEngine) (onvifVerbatim : Bool) (id : Wsd.Uuid) (src : SocketAddr),
      ∀ p ∈ e.probes onvifVerbatim id, e.parse src p = .ok [] := by
  intro h
  have hnone := h .wsd false exampleUuid ⟨.v4 ⟨192, 168, 1, 5⟩, 3702⟩
  exact Wsd.parse_probe_ne_nil _ _ (hnone _ List.mem_cons_self)

end Uscan
