import Uscan.Mdns.RoundTrip

/-!
# Truncated messages

What the parser makes of a message that is cut at its end. At the end of the questions or of a
record, `parse_dns` takes what is left for the whole message and returns the records that are there.
Anywhere else it fails (`parseDns_truncated`): each reader of a field compares its end with that of
the packet before it reads, so that it fails on a field that is cut (`rd16_cut`,
`readNameLoop_cut`), and the data of a record are compared as a whole, before their type is looked
at.

A text record may end in an empty string. The parser leaves that string out, in a truncated message
as in a complete one.
-/

namespace Uscan.Mdns

open Res

variable {d : Slice} {p : ℕ}

/-! ## Messages -/

/-- A message whose header announces just its records. -/
structure SentMessage extends Message where
  /-- The counts are those of the records. -/
  count_eq : toMessage.count = toMessage.records.length

/-- Where the first `k` records of a message end. -/
def Message.boundary (m : Message) (k : ℕ) : ℕ :=
  12 + (m.questions.flatMap Question.bytes).length +
    ((m.records.take k).flatMap Record.bytes).length

/-! ## Fields that are cut -/

/-- A 16-bit integer that is cut is not read. -/
theorem rd16_cut {x : UInt16} (h : Cut d.bytes p (toBe16 x)) : ∃ e, rd16 d p = .err e := by
  have hlt : d.len < p + 2 := h.lt
  refine ⟨.dns "u16 overflow", ?_⟩
  rw [rd16, fitsUsize_slice d h.le (by decide), ok_bind, if_pos hlt]

/-- A 32-bit integer that is cut is not read. -/
theorem rd32_cut {x : UInt32} (h : Cut d.bytes p (toBe32 x)) : ∃ e, rd32 d p = .err e := by
  have hlt : d.len < p + 4 := h.lt
  refine ⟨.dns "u32 overflow", ?_⟩
  rw [rd32, fitsUsize_slice d h.le (by decide), ok_bind, if_pos hlt]

/-- A name is not read at the end of the packet. -/
theorem readNameLoop_end (h : d.len ≤ p) (name : List Char) (budget : ℕ) :
    ∃ e, readNameLoop d name p budget = .err e :=
  ⟨_, by rw [readNameLoop, dif_pos h]⟩

/-- A label that is cut ends the loop of `read_name` with an error. -/
theorem readNameLoop_label_cut {l : List UInt8} (hne : l ≠ []) (hlen : l.length ≤ 63)
    (h : Cut d.bytes p (encodeLabel l)) (name : List Char) (budget : ℕ) :
    ∃ e, readNameLoop d name p budget = .err e := by
  -- The length is missing, or it is there and announces more than is left.
  rcases (cut_append (x := [UInt8.ofNat l.length])).mp h with hcut | ⟨hstands, hcut⟩
  · exact readNameLoop_end (Nat.lt_succ_iff.mp hcut.lt) name budget
  · have hle : p + 1 ≤ d.len := hstands.le (List.cons_ne_nil _ _)
    have hlt : d.len < p + 1 + l.length := hcut.lt
    have hpos := List.length_pos_iff.mpr hne
    have htoNat : (UInt8.ofNat l.length).toNat = l.length := toNat_ofNat_of_lt (by omega)
    have hzero : UInt8.ofNat l.length ≠ 0 := by
      intro hzero
      rw [hzero, UInt8.toNat_zero] at htoNat
      omega
    refine ⟨.dns "label overflow", ?_⟩
    rw [readNameLoop, dif_neg (by omega), index_of_getElem? hstands.head?, ok_bind,
      fitsUsize_slice d (by omega) (by decide), ok_bind, if_neg hzero, isPointer_length hlen,
      if_neg (by decide), htoNat, if_neg (by omega)]

/-- A name that is cut is not read. The induction is along the labels. -/
theorem readNameLoop_cut {ls : List Label} (h : Cut d.bytes p (encodeLabels (nameBytes ls)))
    (name : List Char) (budget : ℕ) : ∃ e, readNameLoop d name p budget = .err e := by
  induction ls generalizing p name with
  | nil => exact readNameLoop_end (Nat.lt_succ_iff.mp h.lt) name budget
  | cons l ls ih =>
    have hcons : encodeLabels (nameBytes (l :: ls)) =
        encodeLabel l.bytes ++ encodeLabels (nameBytes ls) := by
      simp [encodeLabels, nameBytes]
    rw [hcons] at h
    rcases cut_append.mp h with hcut | ⟨hlabel, hcut⟩
    · exact readNameLoop_label_cut l.bytes_ne l.length_le hcut name budget
    · rw [readNameLoop_label l.bytes_ne l.length_le hlabel]
      refine ih ?_ _
      rwa [encodeLabel, List.length_cons, Nat.add_comm l.bytes.length, ← Nat.add_assoc] at hcut

/-! ## Questions and records that are cut -/

/-- Of fields that are cut, a name that comes first is not read, or it is and the others are cut. -/
theorem readName_of_cut {ls : List Label} {x : List UInt8}
    (h : Cut d.bytes p (encodeLabels (nameBytes ls) ++ x)) :
    (∃ e, readName d p 16 = .err e) ∨
      readName d p 16 = .ok (nameText ls, p + (encodeLabels (nameBytes ls)).length) ∧
        Cut d.bytes (p + (encodeLabels (nameBytes ls)).length) x := by
  rcases cut_append.mp h with hname | ⟨hname, hx⟩
  · obtain ⟨e, he⟩ := readNameLoop_cut hname [] 16
    exact .inl ⟨e, by rw [readName, he]⟩
  · exact .inr ⟨readName_encodeLabels hname, hx⟩

/-- A 16-bit integer likewise. -/
theorem rd16_of_cut {v : UInt16} {x : List UInt8} (h : Cut d.bytes p (toBe16 v ++ x)) :
    (∃ e, rd16 d p = .err e) ∨ rd16 d p = .ok (v, p + 2) ∧ Cut d.bytes (p + 2) x := by
  rcases cut_append.mp h with hcut | ⟨hv, hx⟩
  · exact .inl (rd16_cut hcut)
  · exact .inr ⟨rd16_stands hv, hx⟩

/-- A 32-bit integer likewise. -/
theorem rd32_of_cut {v : UInt32} {x : List UInt8} (h : Cut d.bytes p (toBe32 v ++ x)) :
    (∃ e, rd32 d p = .err e) ∨ rd32 d p = .ok (v, p + 4) ∧ Cut d.bytes (p + 4) x := by
  rcases cut_append.mp h with hcut | ⟨hv, hx⟩
  · exact .inl (rd32_cut hcut)
  · exact .inr ⟨rd32_stands hv, hx⟩

/-- A question that is cut is not skipped, nor one that is missing. The induction is along the
questions. -/
theorem skipQuestions_cut {qs : List Question} (h : Cut d.bytes p (qs.flatMap Question.bytes)) :
    ∃ e, skipQuestions d qs.length p = .err e := by
  induction qs generalizing p with
  | nil => exact absurd h not_cut_nil
  | cons q qs ih =>
    rw [List.length_cons, skipQuestions]
    split_ifs with hend
    · exact ⟨_, rfl⟩
    · rw [List.flatMap_cons, Question.bytes, List.append_assoc, List.append_assoc] at h
      -- The fields before the one that is cut are read, and that one is an error.
      refine exists_err_bind (readName_of_cut h) fun h => ?_
      refine exists_err_bind (rd16_of_cut h) fun h => ?_
      refine exists_err_bind (rd16_of_cut h) fun h => ?_
      exact ih h

/-- The fields of a record that is cut are not read: one of them is cut, or they are there and say
that the data go on behind the end of the packet. -/
theorem readRecordHead_cut {r : Record} (h : Cut d.bytes p r.bytes) :
    ∃ e, readRecordHead d p = .err e := by
  rw [Record.bytes, encodeHead] at h
  simp only [List.append_assoc] at h
  unfold readRecordHead
  refine exists_err_bind (readName_of_cut h) fun h => ?_
  refine exists_err_bind (rd16_of_cut h) fun h => ?_
  refine exists_err_bind (rd16_of_cut h) fun h => ?_
  refine exists_err_bind (rd32_of_cut h) fun h => ?_
  refine exists_err_bind (rd16_of_cut h) fun h => ?_
  dsimp only
  -- All fields are there, and the data that they announce end behind the packet.
  have hle := r.length_le
  have htoNat : (UInt16.ofNat r.rdata.bytes.length).toNat = r.rdata.bytes.length :=
    UInt16.toNat_ofNat_of_lt' (Nat.lt_succ_of_le hle)
  refine ⟨.dns "rdata out of bounds", ?_⟩
  rw [htoNat, fitsUsize_slice d h.le (by omega), ok_bind]
  exact if_pos h.lt

/-! ## The message -/

section Truncated

variable {m : SentMessage} {n : ℕ}

/-- The records of a message up to one of them, that one, and the others. -/
theorem Message.bytes_split (m : Message) (k : ℕ) :
    m.bytes = m.header ++ m.questions.flatMap Question.bytes ++
      ((m.records.take k).flatMap Record.bytes ++
        (m.records.drop k).flatMap Record.bytes) := by
  rw [← List.flatMap_append, List.take_append_drop, bytes, List.append_assoc]

/-- The header stands in a prefix of more than twelve bytes. -/
theorem header_stands (hd : d.bytes = m.bytes.take n) (hn : 12 ≤ n) :
    Stands d.bytes 0 m.header := by
  rw [hd]
  exact stands_take [] (by rw [m.header_length]; exact (Nat.zero_add _).trans_le hn)

/-- The questions stand in a prefix that does not end before them. -/
theorem questions_stand (hd : d.bytes = m.bytes.take n)
    (hn : 12 + (m.questions.flatMap Question.bytes).length ≤ n) :
    Stands d.bytes 12 (m.questions.flatMap Question.bytes) := by
  have hstands := stands_take m.header (x := m.questions.flatMap Question.bytes)
    (w := m.records.flatMap Record.bytes) (n := n) (by rwa [m.header_length])
  rwa [m.header_length, ← Message.bytes, ← hd] at hstands

/-- The first records stand in a prefix that does not end before them. -/
theorem records_stand {k : ℕ} (hd : d.bytes = m.bytes.take n) (hn : m.boundary k ≤ n) :
    Stands d.bytes (12 + (m.questions.flatMap Question.bytes).length)
      ((m.records.take k).flatMap Record.bytes) := by
  have hstands := stands_take (m.header ++ m.questions.flatMap Question.bytes)
    (x := (m.records.take k).flatMap Record.bytes)
    (w := (m.records.drop k).flatMap Record.bytes) (n := n)
    (by rwa [List.length_append, m.header_length])
  rwa [List.length_append, m.header_length, ← m.bytes_split, ← hd] at hstands

/-- Without records, a message ends with its questions. -/
theorem Message.boundary_zero (m : Message) :
    m.boundary 0 = 12 + (m.questions.flatMap Question.bytes).length := by
  rw [boundary, List.take_zero, List.flatMap_nil, List.length_nil, Nat.add_zero]

/-- The questions are cut in a prefix that ends in them. -/
theorem questions_cut (hd : d.bytes = m.bytes.take n) (hle : 12 ≤ n)
    (hlt : n < 12 + (m.questions.flatMap Question.bytes).length) :
    Cut d.bytes 12 (m.questions.flatMap Question.bytes) := by
  have hcut := cut_take_append m.header (x := m.questions.flatMap Question.bytes)
    (w := m.records.flatMap Record.bytes) (n := n) (by rwa [m.header_length])
    (by rwa [m.header_length])
  rwa [m.header_length, ← Message.bytes, ← hd] at hcut

/-- A record is cut in a prefix that ends in it. -/
theorem record_cut {k : ℕ} (hd : d.bytes = m.bytes.take n) (hk : k < m.records.length)
    (hle : m.boundary k ≤ n) (hlt : n < m.boundary (k + 1)) :
    Cut d.bytes (m.boundary k) m.records[k].bytes := by
  have hrest : (m.records.drop k).flatMap Record.bytes =
      m.records[k].bytes ++ (m.records.drop (k + 1)).flatMap Record.bytes := by
    rw [List.drop_eq_getElem_cons hk, List.flatMap_cons]
  have hnext : m.boundary (k + 1) = m.boundary k + m.records[k].bytes.length := by
    rw [Message.boundary, ← List.take_concat_get' _ _ hk, List.flatMap_append,
      List.flatMap_singleton, List.length_append, ← Nat.add_assoc, Message.boundary]
  have hstart : (m.header ++ m.questions.flatMap Question.bytes ++
      (m.records.take k).flatMap Record.bytes).length = m.boundary k := by
    rw [List.length_append, List.length_append, m.header_length, Message.boundary]
  have hcut := cut_take_append (m.header ++ m.questions.flatMap Question.bytes ++
    (m.records.take k).flatMap Record.bytes) (x := m.records[k].bytes)
    (w := (m.records.drop (k + 1)).flatMap Record.bytes) (n := n) (by omega) (by omega)
  rwa [hstart, ← hrest, List.append_assoc, ← m.bytes_split, ← hd] at hcut

/-- The parser reads the first records of a prefix that does not end before them, and goes on after
them. -/
theorem parseDns_first {k : ℕ} (hd : d.bytes = m.bytes.take n) (hlen : 12 < n)
    (hdlen : d.len = n) (hk : k ≤ m.records.length) (hn : m.boundary k ≤ n) :
    parseDns d = (do
      let answers ← parseRecords d (m.records.length - k) (m.boundary k)
        ((m.records.take k).map Record.read)
      return ⟨answers⟩) := by
  have hquestions := questions_stand hd (by unfold Message.boundary at hn; omega)
  have hcount : m.records.length = (m.records.take k).length + (m.records.length - k) := by
    rw [List.length_take]
    omega
  rw [parseDns_of_header (by omega) (header_stands hd (by omega)), m.count_eq,
    skipQuestions_laid (laid_flatMap Question.at_bytes hquestions), ok_bind, hcount,
    parseRecords_laid (laid_flatMap Record.at_bytes (records_stand hd hn)), ← hcount,
    List.nil_append, Message.boundary]

end Truncated

/-- A truncated message never yields wrong answers. A prefix of a message that is too short for the
parser, that ends in or before the questions, or that ends inside a record is an error. A longer one
that ends with the questions or with a record gives the records that are there. -/
theorem parseDns_truncated (m : SentMessage) (n : ℕ) (d : Slice) (hd : d.bytes = m.bytes.take n)
    (hn : n ≤ m.bytes.length) :
    (n ≤ 12 ∨ n < m.boundary 0 → ∃ e, parseDns d = .err e) ∧
      (∀ k < m.records.length, m.boundary k < n → n < m.boundary (k + 1) →
        ∃ e, parseDns d = .err e) ∧
      (∀ k ≤ m.records.length, 12 < n → n = m.boundary k →
        parseDns d = .ok ⟨(m.records.take k).map Record.read⟩) := by
  have hdlen : d.len = n := by
    rw [Slice.len, hd, List.length_take_of_le hn]
  refine ⟨?_, ?_, ?_⟩
  · intro hshort
    by_cases hle : n ≤ 12
    · exact ⟨.dns "packet too short", if_pos (by omega)⟩
    · have hlt := hshort.resolve_left hle
      rw [m.boundary_zero] at hlt
      obtain ⟨e, he⟩ := skipQuestions_cut (questions_cut hd (by omega) hlt)
      exact ⟨e, by rw [parseDns_of_header (by omega) (header_stands hd (by omega)), he, err_bind]⟩
  · intro k hk hlow hhigh
    obtain ⟨e, he⟩ := readRecordHead_cut (record_cut hd hk hlow.le hhigh)
    refine ⟨e, ?_⟩
    -- The header announces more records than are there, so that the loop reads on.
    have hcount : m.records.length - k = m.records.length - (k + 1) + 1 := by omega
    have hlen : 12 < n := by
      unfold Message.boundary at hlow
      omega
    rw [parseDns_first hd hlen hdlen hk.le hlow.le, hcount, parseRecords, if_neg (by omega), he,
      err_bind, err_bind]
  · intro k hk hlen hend
    rw [parseDns_first hd hlen hdlen hk hend.ge]
    cases m.records.length - k with
    | zero => rfl
    | succ j =>
      -- At the end of the data the loop ends, whatever the header announces.
      rw [parseRecords, if_pos (by omega)]
      rfl

/-- A question for the name `a`, and the answer to it. -/
def askedAddress : SentMessage :=
  ⟨⟨0, 0x8400, [⟨[labelA], 1, 1⟩], length_singleton_le _,
    [⟨[labelA], 1, 120, .a ⟨10, 0, 0, 8⟩, by decide⟩], 1, 0, 0⟩, by decide⟩

/-- Cut after its question, the message has no answers; one byte later it is an error. -/
theorem parseDns_truncated_askedAddress :
    parseDns ⟨askedAddress.bytes.take 19, by decide⟩ = .ok ⟨[]⟩ ∧
      ∃ e, parseDns ⟨askedAddress.bytes.take 20, by decide⟩ = .err e :=
  ⟨(parseDns_truncated askedAddress 19 _ rfl (by decide)).2.2 0 (by decide) (by decide)
      (by decide),
    (parseDns_truncated askedAddress 20 _ rfl (by decide)).2.1 0 (by decide) (by decide)
      (by decide)⟩

end Uscan.Mdns
