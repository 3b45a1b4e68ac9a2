import Uscan.Mdns.Layout

/-!
# The parser undoes the encoding

`parseDns_encode`: on the encoding of a message and a tail, `parse_dns` returns the records of the
message. Where the encoding of a part of a message stands in a packet, that part stands there
uncompressed (`Record.at_bytes`, `Question.at_bytes`), so that the packet carries the message
(`Encodes.carries`).

A packet of twelve bytes is too short for the parser, so that the theorem needs a packet with
something after the header, and `not_parseDns_encode` is the message where it fails without.
-/

namespace Uscan.Mdns

variable {d : Slice} {p : ℕ}

/-! ## Uncompressed parts -/

/-- A name without pointers stands where its encoding does. -/
theorem nameIn_encodeLabels {name : List Label}
    (h : Stands d.bytes p (encodeLabels (nameBytes name))) :
    NameIn d name p (p + (encodeLabels (nameBytes name)).length) := by
  obtain ⟨m, hm⟩ := (nameAt_encodeLabels (fun l hl => nameBytes_bounds hl) h).compressed
  exact ⟨0, m, hm, by decide, .inr (Nat.le_zero.mp hm.le)⟩

/-- The data of a record stand where their encoding does. -/
theorem Rdata.at_bytes {r : Rdata} (h : Stands d.bytes p r.bytes) :
    r.At d p (p + r.bytes.length) := by
  cases r with
  | a ip => exact .a h
  | aaaa ip =>
    rw [bytes, ip.octets_length]
    exact .aaaa h
  | ptr name => exact .ptr (nameIn_encodeLabels h)
  | txt ss => exact .txt h
  | srv priority weight port target =>
    obtain ⟨hpriority, hrest⟩ := stands_append.mp h
    obtain ⟨hweight, hrest⟩ := stands_append.mp hrest
    obtain ⟨hport, hname⟩ := stands_append.mp hrest
    have hhead : Stands d.bytes p (toBe16 priority ++ (toBe16 weight ++ toBe16 port)) :=
      stands_append.mpr ⟨hpriority, stands_append.mpr ⟨hweight, hport⟩⟩
    have hstop : p + (srv priority weight port target).bytes.length =
        p + 6 + (encodeLabels (nameBytes target)).length := by
      simp only [bytes, List.length_append, toBe16_length]
      omega
    rw [hstop]
    exact .srv hhead (nameIn_encodeLabels hname)

/-- A record stands where its encoding does. -/
theorem Record.at_bytes (r : Record) (p : ℕ) (h : Stands d.bytes p r.bytes) :
    r.At d p (p + r.bytes.length) := by
  obtain ⟨howner, hrest⟩ := stands_append.mp h
  obtain ⟨hhead, hdata⟩ := stands_append.mp hrest
  have hrdlen : (UInt16.ofNat r.rdata.bytes.length).toNat = r.rdata.bytes.length :=
    UInt16.toNat_ofNat_of_lt' (Nat.lt_succ_of_le r.length_le)
  have hstop : p + r.bytes.length =
      p + (encodeLabels (nameBytes r.owner)).length + 10 + r.rdata.bytes.length := by
    rw [r.bytes_length]
    omega
  refine ⟨_, _, nameIn_encodeLabels howner, hhead, ?_, by rw [hrdlen, hstop]⟩
  rw [hstop]
  exact Rdata.at_bytes hdata

/-- A question stands where its encoding does. -/
theorem Question.at_bytes (q : Question) (p : ℕ) (h : Stands d.bytes p q.bytes) :
    q.At d p (p + q.bytes.length) := by
  rw [bytes, List.append_assoc] at h
  obtain ⟨hname, hfields⟩ := stands_append.mp h
  refine ⟨_, nameIn_encodeLabels hname, hfields, ?_⟩
  simp only [bytes, List.length_append, toBe16_length]
  omega

/-! ## Messages -/

/-- A message with a question, a record, or a tail is longer than its header. -/
theorem Encodes.header_lt {m : Message} {tail : List UInt8} (h : Encodes d m tail)
    (hmore : m.questions ≠ [] ∨ m.records ≠ [] ∨ tail ≠ []) : 12 < d.len := by
  have hlen := congrArg List.length h.bytes_eq
  simp only [Message.bytes, List.length_append, m.header_length] at hlen
  unfold Slice.len
  rcases hmore with hq | hr | ht
  · obtain ⟨q, qs, hqs⟩ := List.exists_cons_of_ne_nil hq
    have hpos := List.length_pos_iff.mpr q.bytes_ne
    rw [hqs, List.flatMap_cons, List.length_append] at hlen
    omega
  · obtain ⟨r, rs, hrs⟩ := List.exists_cons_of_ne_nil hr
    have hpos := List.length_pos_iff.mpr r.bytes_ne
    rw [hrs, List.flatMap_cons, @List.length_append _ r.bytes] at hlen
    omega
  · have hpos := List.length_pos_iff.mpr ht
    omega

/-- A packet that is a message and a tail carries the message. -/
theorem Encodes.carries {m : Message} {tail : List UInt8} (h : Encodes d m tail) :
    Carries d m := by
  have hmessage : Stands d.bytes 0 m.bytes := by
    rw [h.bytes_eq]
    exact stands_zero tail
  obtain ⟨hheader, hbody⟩ := stands_append.mp hmessage
  obtain ⟨hquestions, hrecords⟩ := stands_append.mp hbody
  rw [m.header_length, Nat.zero_add] at hquestions hrecords
  have hend : 12 + (m.questions.flatMap Question.bytes).length +
      (m.records.flatMap Record.bytes).length = m.bytes.length := by
    simp only [Message.bytes, List.length_append, m.header_length, Nat.add_assoc]
  refine ⟨hheader, _, _, laid_flatMap Question.at_bytes hquestions,
    laid_flatMap Record.at_bytes hrecords, ?_⟩
  rw [hend]
  exact h.tail_ok.imp_left And.right

/-- The parser undoes the encoding: on a message with a tail, unless that is a bare header,
`parse_dns` returns the records of the message, in order, with their names, types, and data. No text
record of the message ends in an empty string. -/
theorem parseDns_encode (m : Message) (tail : List UInt8) (d : Slice) (h : Encodes d m tail)
    (hlast : ∀ r ∈ m.records, r.rdata.LastNonempty)
    (hmore : m.questions ≠ [] ∨ m.records ≠ [] ∨ tail ≠ []) :
    parseDns d = .ok ⟨m.records.map Record.answer⟩ := by
  have hread : m.records.map Record.read = m.records.map Record.answer := by
    refine List.map_congr_left fun r hr => ?_
    rw [Record.read, (hlast r hr).read_eq, Record.answer]
  rw [parseDns_carries h.carries (h.header_lt hmore), hread]

/-- The message without questions and records. -/
def emptyMessage : Message := ⟨0, 0, [], by decide, [], 0, 0, 0⟩

/-- The packet of the empty message: a bare header. -/
def bareHeader : Slice := ⟨List.replicate 12 0, by decide⟩

/-- The empty message, with the empty tail, is not read back: the parser takes its packet for too
short. -/
theorem not_parseDns_encode :
    ¬ ∀ (m : Message) (tail : List UInt8) (d : Slice), Encodes d m tail →
      (∀ r ∈ m.records, r.rdata.LastNonempty) →
      parseDns d = .ok ⟨m.records.map Record.answer⟩ := by
  intro h
  have hencodes : Encodes bareHeader emptyMessage [] := ⟨by decide, .inl ⟨rfl, by decide⟩⟩
  have hread := h emptyMessage [] bareHeader hencodes fun r hr => absurd hr List.not_mem_nil
  have hshort : parseDns bareHeader = .err (.dns "packet too short") := if_pos (by decide)
  rw [hshort] at hread
  cases hread

/-- The label `a`. -/
def labelA : Label := ⟨['a'], by decide, by decide⟩

/-- A response with a question, and a record in each of the three sections; the header counts one
record more. -/
def threeAnswers : Message where
  id := 0
  flags := 0x8400
  questions := [⟨[labelA], 12, 1⟩]
  questions_le := length_singleton_le _
  records :=
    [⟨[labelA], 1, 120, .ptr [labelA, labelA], by decide⟩,
      ⟨[labelA, labelA], 1, 120, .txt ⟨[[], [107, 61, 118]], by decide⟩, by decide⟩,
      ⟨[labelA], 1, 120, .a ⟨10, 0, 0, 1⟩, by decide⟩]
  an := 1
  ns := 1
  ar := 2

/-- The response, followed by a record of type 47 and some bytes, reads back as its records. -/
theorem parseDns_threeAnswers :
    parseDns ⟨threeAnswers.bytes ++ [0, 0, 47, 0, 1, 0, 0, 0, 0, 0, 1, 7, 255, 255], by decide⟩ =
      .ok ⟨[⟨12, ['a'], .ptr ['a', '.', 'a']⟩,
        ⟨16, ['a', '.', 'a'], .txt [[], ['k', '=', 'v']]⟩,
        ⟨1, ['a'], .a (.v4 ⟨10, 0, 0, 1⟩)⟩]⟩ := by
  let tail : List UInt8 := [0, 0, 47, 0, 1, 0, 0, 0, 0, 0, 1, 7, 255, 255]
  let d : Slice := ⟨threeAnswers.bytes ++ tail, by decide⟩
  have hforeign : ForeignAt d threeAnswers.bytes.length :=
    ⟨[], 0, _, 47, 1, 0, 1, .root ⟨_, rfl⟩, by decide, ⟨[7, 255, 255], rfl⟩, by decide, by decide⟩
  have hlast : ∀ r ∈ threeAnswers.records, r.rdata.LastNonempty := by
    simp [threeAnswers, Rdata.LastNonempty]
  exact parseDns_encode threeAnswers tail d ⟨rfl, .inr ⟨hforeign, by decide⟩⟩ hlast
    (.inr (.inl (by decide)))

end Uscan.Mdns
