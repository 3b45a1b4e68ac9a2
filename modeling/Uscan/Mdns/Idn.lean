import Uscan.Lib.Split
import Uscan.Mdns.Punycode
import Uscan.Mdns.RoundTrip
import Uscan.Protocols.Common

/-!
# Queries

The query that is sent for a domain. The labels of the domain are made ASCII before they are
written, each by itself, so that there are as many of them in the packet. What the parser reads in
the packet is the question for just that name (`buildQuery_asks`).
-/

namespace Uscan.Mdns

/-- `str::is_ascii`. -/
def isAscii (s : List Char) : Bool := s.all (·.toNat < 128)

/-- What `idn_ascii` makes of a label. -/
def idnLabel (label : List Char) : List Char :=
  if isAscii label then label else "xn--".toList ++ punycode label

/-- `idn_ascii`. -/
def idnAscii (domain : List Char) : List Char :=
  ['.'].intercalate (((domain.map toAsciiLowercase).splitOn '.').map idnLabel)

/-- `build_query`. It does not fail. -/
def buildQuery (domain : List Char) (qtype : UInt16) : Res Error (List UInt8) :=
  .ok (queryPacket (idnAscii domain) qtype)

/-! ## Labels -/

/-- A label is made ASCII, and no dot comes into it. -/
theorem idnLabel_spec {label : List Char} (h : '.' ∉ label) :
    ∀ c ∈ idnLabel label, c.toNat < 128 ∧ c ≠ '.' := by
  unfold idnLabel
  split_ifs with hascii
  · intro c hc
    refine ⟨of_decide_eq_true (List.all_eq_true.mp hascii c hc), ?_⟩
    rintro rfl
    exact h hc
  · refine List.forall_mem_append.mpr ⟨List.forall_iff_forall_mem.mp (by decide), ?_⟩
    refine forall_mem_punycode ?_ (by decide) (by decide)
    intro c hc
    obtain ⟨hmem, hlt⟩ := List.mem_filter.mp hc
    refine ⟨of_decide_eq_true hlt, ?_⟩
    rintro rfl
    exact h hmem

/-- The labels of the domain that `idn_ascii` makes are those that it makes one by one. -/
theorem splitOn_idnAscii (domain : List Char) :
    (idnAscii domain).splitOn '.' = ((domain.map toAsciiLowercase).splitOn '.').map idnLabel := by
  refine List.splitOn_intercalate _ ?_ (by simp [List.splitOn_ne_nil])
  intro l hl hdot
  obtain ⟨label, hlabel, rfl⟩ := List.mem_map.mp hl
  exact (idnLabel_spec (notMem_of_mem_splitOn hlabel) '.' hdot).2 rfl

/-- A dot has no other case. -/
theorem toAsciiLowercase_eq_dot {c : Char} : toAsciiLowercase c = '.' ↔ c = '.' := by
  unfold toAsciiLowercase
  split_ifs with h
  · have hall : ∀ n < 91, 65 ≤ n → Char.ofNat (n + 32) ≠ '.' := by decide
    refine iff_of_false (hall c.toNat (Nat.lt_succ_of_le h.2) h.1) ?_
    rintro rfl
    exact absurd h.1 (by decide)
  · rfl

/-- The domain that `idn_ascii` makes has as many labels as the domain. -/
theorem length_splitOn_idnAscii (domain : List Char) :
    ((idnAscii domain).splitOn '.').length = (domain.splitOn '.').length := by
  rw [splitOn_idnAscii, List.length_map, length_splitOn, length_splitOn, List.count,
    List.countP_map]
  congr 1
  refine List.countP_congr fun c _ => ?_
  simp only [Function.comp_apply, beq_iff_eq, toAsciiLowercase_eq_dot]

/-- The domain that `idn_ascii` makes is ASCII. -/
theorem idnAscii_ascii (domain : List Char) : ∀ c ∈ idnAscii domain, c.toNat < 128 := by
  intro c hc
  rcases mem_of_mem_intercalate hc with hdot | ⟨l, hl, hcl⟩
  · obtain rfl := List.mem_singleton.mp hdot
    decide
  · obtain ⟨label, hlabel, rfl⟩ := List.mem_map.mp hl
    exact (idnLabel_spec (notMem_of_mem_splitOn hlabel) c hcl).1

/-! ## The packet -/

/-- Labels of 1 to 63 bytes can be sent. -/
theorem exists_labels {parts : List (List Char)}
    (h : ∀ l ∈ parts, 1 ≤ (utf8 l).length ∧ (utf8 l).length ≤ 63) :
    ∃ ls : List Label, ls.map Label.text = parts := by
  induction parts with
  | nil => exact ⟨[], rfl⟩
  | cons l parts ih =>
    obtain ⟨⟨hpos, hle⟩, hrest⟩ := List.forall_mem_cons.mp h
    obtain ⟨ls, rfl⟩ := ih hrest
    exact ⟨⟨l, List.length_pos_iff.mp hpos, hle⟩ :: ls, rfl⟩

/-- The message with one question. -/
def queryMessage (ls : List Label) (qtype : UInt16) : Message where
  id := 0
  flags := 0
  questions := [⟨ls, qtype, 1⟩]
  questions_le := length_singleton_le _
  records := []
  an := 0
  ns := 0
  ar := 0

/-- The packet of a query is the message with the question. -/
theorem queryPacket_eq {ls : List Label} {domain : List Char} {qtype : UInt16}
    (h : ls.map Label.text = domain.splitOn '.') :
    queryPacket domain qtype = (queryMessage ls qtype).bytes := by
  rw [queryPacket, encodeName_of_splitOn h.symm]
  simp [Message.bytes, Message.header, queryMessage, Question.bytes, toBe16]

/-- A query asks for the domain that was requested: the parser accepts it and finds no answer in it,
its header announces one question, and the reader of names finds there the domain, in ASCII and with
as many labels, before the type and the class IN, which end the packet. -/
theorem buildQuery_asks (domain : List Char) (qtype : UInt16)
    (h : ∀ l ∈ (idnAscii domain).splitOn '.', 1 ≤ (utf8 l).length ∧ (utf8 l).length ≤ 63) :
    ∃ packet, buildQuery domain qtype = .ok packet ∧
      (∀ d : Slice, d.bytes = packet →
        parseDns d = .ok ⟨[]⟩ ∧
        rd16 d 4 = .ok (1, 6) ∧
        readName d 12 16 = .ok (idnAscii domain, d.len - 4) ∧ 16 ≤ d.len ∧
        rd16 d (d.len - 4) = .ok (qtype, d.len - 2) ∧
        rd16 d (d.len - 2) = .ok (1, d.len)) ∧
      (∀ c ∈ idnAscii domain, c.toNat < 128) ∧
      ((idnAscii domain).splitOn '.').length = (domain.splitOn '.').length := by
  refine ⟨_, rfl, ?_, idnAscii_ascii domain, length_splitOn_idnAscii domain⟩
  obtain ⟨ls, hls⟩ := exists_labels h
  have htext : nameText ls = idnAscii domain := by rw [nameText, hls, List.intercalate_splitOn]
  rw [← htext]
  intro d hd
  rw [queryPacket_eq (by rw [hls, htext])] at hd
  have hencodes : Encodes d (queryMessage ls qtype) [] :=
    ⟨by rw [hd, List.append_nil], .inl ⟨rfl, rfl⟩⟩
  have hparse := parseDns_carries hencodes.carries
    (hencodes.header_lt (.inl (List.cons_ne_nil _ _)))
  -- What stands where in the packet.
  have hmessage : Stands d.bytes 0 (queryMessage ls qtype).bytes := by
    rw [hd]
    exact List.prefix_rfl
  obtain ⟨hheader, hbody⟩ := stands_append.mp hmessage
  obtain ⟨hquestion, -⟩ := stands_append.mp hbody
  have hcount : Stands d.bytes 4 (toBe16 1) :=
    (stands_append.mp (stands_append.mp (stands_append.mp hheader).2).2).1
  rw [Message.header_length] at hquestion
  obtain ⟨hfront, hclass⟩ := stands_append.mp (stands_append.mp hquestion).1
  obtain ⟨hname, htype⟩ := stands_append.mp hfront
  -- The name is followed by four bytes.
  have hlen : d.len = 12 + (encodeLabels (nameBytes ls)).length + 4 := by
    rw [Slice.len, hd, Message.bytes, List.length_append, Message.header_length, Nat.add_assoc]
    simp [queryMessage, Question.bytes]
  have hread := readName_encodeLabels hname
  have hrtype := rd16_stands htype
  have hrclass := rd16_stands hclass
  rw [List.length_append, toBe16_length, ← Nat.add_assoc] at hrclass
  simp only [Nat.zero_add] at hread hrtype hrclass
  refine ⟨hparse, rd16_stands hcount, ?_, by omega, ?_, ?_⟩
  · rw [hread, hlen, Nat.add_sub_cancel]
  · rw [hlen, Nat.add_sub_cancel]
    exact hrtype
  · rw [hlen, Nat.add_sub_assoc (by decide)]
    exact hrclass

/-- The query for a domain with a label that is not ASCII asks for its code. -/
theorem buildQuery_asks_two :
    ∃ packet, buildQuery ['é', '.', 'a'] 12 = .ok packet ∧
      ((idnAscii ['é', '.', 'a']).splitOn '.').length = 2 := by
  obtain ⟨packet, hpacket, -, -, hlabels⟩ :=
    buildQuery_asks ['é', '.', 'a'] 12 (by decide +kernel)
  exact ⟨packet, hpacket, hlabels⟩

end Uscan.Mdns
