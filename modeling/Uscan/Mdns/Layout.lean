import Uscan.Lib.Cursor
import Uscan.Mdns.Compression

/-!
# Messages in a packet

How a message may stand in a packet. Its names may be compressed: `NameIn` allows every form of a
name that reads as its text. `Rdata.At`, `Record.At` and `Question.At` say where the parts of a
message start and end, and `Carries` that a packet has the header, the questions and the records of
a message, and after them nothing that the header counts, or a record of a type that the parser does
not know.

`parse_dns` reads the records of the message in every such packet (`parseDns_carries`). The readers
of record data come first, one type at a time (`Rdata.At.readRdata_eq`), then one record, and then
the record and question loops, by induction along what stands there.
-/

namespace Uscan.Mdns

open Res

variable {d : Slice} {p stop : ℕ}

/-! ## What stands where -/

/-- The name stands in the packet at `p` in a form that reads as its text: with at most 15
compression pointers, none of them between its last label and the root. Its field ends at `stop`. -/
def NameIn (d : Slice) (name : List Label) (p stop : ℕ) : Prop :=
  ∃ n m, Compressed d (nameBytes name) n m p stop ∧ n ≤ 15 ∧ (nameBytes name = [] ∨ m = 0)

/-- The data stand in the packet from `p` to `stop`. The name in them may be compressed. -/
inductive Rdata.At (d : Slice) : Rdata → ℕ → ℕ → Prop where
  /-- An IPv4 address. -/
  | a {ip : Ipv4Addr} {p : ℕ} (h : Stands d.bytes p ip.octets) : At d (.a ip) p (p + 4)
  /-- An IPv6 address. -/
  | aaaa {ip : Ipv6Addr} {p : ℕ} (h : Stands d.bytes p ip.octets) : At d (.aaaa ip) p (p + 16)
  /-- A domain name. -/
  | ptr {name : List Label} {p stop : ℕ} (h : NameIn d name p stop) : At d (.ptr name) p stop
  /-- The strings of a text record. -/
  | txt {ss : TxtStrings} {p : ℕ} (h : Stands d.bytes p (encodeStrings ss.strings)) :
      At d (.txt ss) p (p + (encodeStrings ss.strings).length)
  /-- A service. -/
  | srv {priority weight port : UInt16} {target : List Label} {p stop : ℕ}
      (h : Stands d.bytes p (toBe16 priority ++ (toBe16 weight ++ toBe16 port)))
      (hname : NameIn d target (p + 6) stop) : At d (.srv priority weight port target) p stop

/-- The record stands in the packet from `p` to `stop`. -/
def Record.At (d : Slice) (r : Record) (p stop : ℕ) : Prop :=
  ∃ mid rdlen, NameIn d r.owner p mid ∧
    Stands d.bytes mid (encodeHead r.rdata.rrtype r.rrclass r.ttl rdlen) ∧
    r.rdata.At d (mid + 10) stop ∧ stop = mid + 10 + rdlen.toNat

/-- The question stands in the packet from `p` to `stop`. -/
def Question.At (d : Slice) (q : Question) (p stop : ℕ) : Prop :=
  ∃ mid, NameIn d q.name p mid ∧ Stands d.bytes mid (toBe16 q.qtype ++ toBe16 q.qclass) ∧
    stop = mid + 4

/-- The packet carries the message. After it, the header counts no more records, or it counts more
and a record of an unknown type follows. -/
structure Carries (d : Slice) (m : Message) : Prop where
  /-- The header of the message. -/
  header : Stands d.bytes 0 m.header
  /-- Its questions and records, and what follows them. -/
  body : ∃ mid stop, Laid (Question.At d) m.questions 12 mid ∧
    Laid (Record.At d) m.records mid stop ∧
    (m.count = m.records.length ∨ ForeignAt d stop ∧ m.records.length < m.count)

/-! ## Names -/

/-- A name in a packet reads as its text. -/
theorem NameIn.readName_eq {name : List Label} (h : NameIn d name p stop) :
    readName d p 16 = .ok (nameText name, stop) := by
  obtain ⟨n, m, hname, hn, hm⟩ := h
  rw [hname.readName_eq hn hm, joinOnto_nameBytes]

/-- A name ends after its start, in the packet. -/
theorem NameAt.stop_le {ls : List (List UInt8)} {n : ℕ} (h : NameAt d ls n p stop) :
    p < stop ∧ stop ≤ d.len := by
  induction h with
  | root h => exact ⟨Nat.lt_succ_self _, h.le (by simp)⟩
  | label _ _ _ _ ih =>
    obtain ⟨hlt, hle⟩ := ih
    exact ⟨by omega, hle⟩
  | pointer _ h _ => exact ⟨by omega, h.le (by simp)⟩

/-- The field of a name is not empty, and lies in the packet. -/
theorem NameIn.stop_le {name : List Label} (h : NameIn d name p stop) :
    p < stop ∧ stop ≤ d.len := by
  obtain ⟨n, m, hname, -⟩ := h
  exact hname.nameAt.stop_le

/-! ## Text records -/

/-- The inner loop of `parse_txt` reads a string that stands in the packet. -/
theorem txtString_stands {s : List UInt8} (h : Stands d.bytes p s) {remaining : ℕ}
    (hrem : s.length ≤ remaining) (acc : List Char) :
    txtString d s.length remaining p acc =
      .ok (acc ++ s.map latin1, remaining - s.length, p + s.length) := by
  induction s generalizing p remaining acc with
  | nil => simp [txtString]
  | cons b s ih =>
    have hle : p + (s.length + 1) ≤ d.len := h.le (by simp)
    have hrest : Stands d.bytes (p + 1) s := (stands_append (x := [b]).mp h).2
    rw [List.length_cons] at hrem
    rw [List.length_cons, txtString, if_pos (by omega), h.head?]
    simp only
    rw [fitsUsize_slice d (by omega) (by decide), ok_bind, ih hrest (by omega)]
    have hremaining : remaining - 1 - s.length = remaining - (s.length + 1) := by omega
    have hpos : p + 1 + s.length = p + (s.length + 1) := by omega
    rw [hremaining, hpos, List.map_cons, List.append_assoc, List.singleton_append]

/-- One step of the outer loop of `parse_txt`. -/
theorem parseTxtLoop_step {remaining remaining' pos' n : ℕ} {len : UInt8} {s : List Char}
    (hrem : 1 < remaining) (hp : p + 1 < d.len) (hlen : d.bytes[p]? = some len)
    (hn : len.toNat = n)
    (hs : txtString d n (remaining - 1) (p + 1) [] = .ok (s, remaining', pos'))
    (out : List (List Char)) :
    parseTxtLoop d remaining p out = parseTxtLoop d remaining' pos' (out ++ [s]) := by
  subst hn
  rw [parseTxtLoop_eq, if_pos hrem, fitsUsize_slice d (by omega) (by decide), ok_bind, if_pos hp,
    index_of_getElem? hlen, ok_bind, hs, ok_bind]

/-- An empty last string is the only one that is dropped. -/
theorem dropEmptyLast_cons {s : List UInt8} {ss : List (List UInt8)} (h : s ≠ [] ∨ ss ≠ []) :
    dropEmptyLast (s :: ss) = s :: dropEmptyLast ss := by
  cases ss with
  | nil => simp [dropEmptyLast, h.resolve_right (by simp)]
  | cons t ts =>
    simp only [dropEmptyLast, List.getLast?_cons_cons, List.dropLast_cons_cons]
    split_ifs <;> rfl

/-- The outer loop of `parse_txt` reads the strings that stand in the packet. The induction is along
the strings; what remains of the record is what stands there. -/
theorem parseTxtLoop_stands {ss : List (List UInt8)} (hss : ∀ s ∈ ss, s.length ≤ 255)
    (h : Stands d.bytes p (encodeStrings ss)) (out : List (List Char)) :
    ∃ pos, parseTxtLoop d (encodeStrings ss).length p out =
        .ok (out ++ (dropEmptyLast ss).map (·.map latin1), pos) ∧
      pos ≤ p + (encodeStrings ss).length := by
  induction ss generalizing p out with
  | nil =>
    refine ⟨p, ?_, Nat.le_add_right _ _⟩
    rw [parseTxtLoop, dif_neg (by simp [encodeStrings])]
    simp [dropEmptyLast]
  | cons s ss ih =>
    have hsplit : encodeStrings (s :: ss) = UInt8.ofNat s.length :: (s ++ encodeStrings ss) := by
      simp [encodeStrings, encodeLabel]
    by_cases hlast : s = [] ∧ ss = []
    · -- Only the length byte of an empty last string remains.
      obtain ⟨rfl, rfl⟩ := hlast
      refine ⟨p, ?_, Nat.le_add_right _ _⟩
      rw [parseTxtLoop, dif_neg (by decide)]
      simp [dropEmptyLast]
    have hlast' : s ≠ [] ∨ ss ≠ [] := by
      rwa [← not_and_or]
    -- Otherwise more than the length byte remains, and the loop goes on.
    have hmore : 1 ≤ s.length + (encodeStrings ss).length := by
      rcases hlast' with hs | hss'
      · have := List.length_pos_iff.mpr hs
        omega
      · obtain ⟨t, ts, rfl⟩ := List.exists_cons_of_ne_nil hss'
        simp only [encodeStrings, List.flatMap_cons, encodeLabel, List.length_append,
          List.length_cons]
        omega
    rw [hsplit] at h ⊢
    have hle : p + (s ++ encodeStrings ss).length + 1 ≤ d.len := h.le (by simp)
    obtain ⟨hstring, hrest⟩ := stands_append.mp (stands_append (x := [_]).mp h).2
    have hlen' : (UInt8.ofNat s.length).toNat = s.length :=
      UInt8.toNat_ofNat_of_lt' (Nat.lt_succ_of_le (hss s List.mem_cons_self))
    have hrem : s.length ≤ (s ++ encodeStrings ss).length := by simp
    have hread := txtString_stands hstring hrem []
    obtain ⟨pos, hloop, hpos⟩ := ih (fun t ht => hss t (List.mem_cons_of_mem _ ht)) hrest
      (out ++ [s.map latin1])
    refine ⟨pos, ?_, ?_⟩
    · rw [parseTxtLoop_step (by simp; omega) (by simp at hle; omega) h.head? hlen' hread,
        List.length_append, Nat.add_sub_cancel_left, List.nil_append, hloop,
        dropEmptyLast_cons hlast', List.map_cons, List.append_assoc, List.singleton_append]
    · simp only [List.length_cons, List.length_append, List.length_nil] at hpos ⊢
      omega

/-! ## Record data -/

/-- The four bytes of an IPv4 address read back as the address. -/
theorem ipv4From_octets {ip : Ipv4Addr} (h : Stands d.bytes p ip.octets) :
    ipv4From d p = .ok ip := by
  have h0 := h.head?
  have h1 := h.getElem? (i := 1) (by simp [Ipv4Addr.octets])
  have h2 := h.getElem? (i := 2) (by simp [Ipv4Addr.octets])
  have h3 := h.getElem? (i := 3) (by simp [Ipv4Addr.octets])
  rw [ipv4From, index_of_getElem? h0, ok_bind, index_of_getElem? h1, ok_bind,
    index_of_getElem? h2, ok_bind, index_of_getElem? h3, ok_bind, pure_eq]
  rfl

/-- A service reads back. -/
theorem parseSrv_eq {priority weight port : UInt16} {target : List Label}
    (h : Stands d.bytes p (toBe16 priority ++ (toBe16 weight ++ toBe16 port)))
    (hname : NameIn d target (p + 6) stop) {rdlen : ℕ} (hlen : 6 ≤ rdlen) :
    parseSrv d p rdlen = .ok (.srv priority weight port (nameText target)) := by
  have hle := h.le (by simp [toBe16])
  obtain ⟨hpriority, hrest⟩ := stands_append.mp h
  obtain ⟨hweight, hport⟩ := stands_append.mp hrest
  have hp0 := hpriority.head?
  have hp1 := hpriority.getElem? (i := 1) (by simp)
  have hw0 := hweight.head?
  have hw1 := hweight.getElem? (i := 1) (by simp)
  have ho0 := hport.head?
  have ho1 := hport.getElem? (i := 1) (by simp)
  -- The six bytes, at offsets from the start of the data.
  simp only [toBe16_length, Nat.add_assoc, Nat.reduceAdd] at hw0 hw1 ho0 ho1
  have hp : p ≤ d.len := by
    unfold Slice.len
    omega
  rw [parseSrv, if_neg (by omega), fitsUsize_slice d hp (by decide), ok_bind,
    index_of_getElem? hp0, ok_bind, index_of_getElem? hp1, ok_bind,
    index_of_getElem? hw0, ok_bind, index_of_getElem? hw1, ok_bind,
    index_of_getElem? ho0, ok_bind, index_of_getElem? ho1, ok_bind, hname.readName_eq]
  have hints (x : UInt16) : be16 (UInt8.ofNat (x.toNat / 256)) (toBe16 x)[1] = x := be16_toBe16 x
  simp only [hints, ok_bind, pure_eq]

/-- The data of a record read back, according to their type. -/
theorem Rdata.At.readRdata_eq {r : Rdata} (h : r.At d p stop) {rdlen : ℕ}
    (hstop : stop = p + rdlen) : readRdata d r.rrtype p rdlen = .ok (some r.read) := by
  cases h with
  | @a ip _ h =>
    rw [readRdata, rrtype, if_pos rfl]
    simp only
    rw [if_neg (by omega), ipv4From_octets h]
    rfl
  | @aaaa ip _ h =>
    have hne : ip.octets ≠ [] := by
      intro hnil
      have := ip.octets_length
      rw [hnil] at this
      cases this
    -- The slice of sixteen bytes is the address.
    have hslice := h.subslice_eq (ε := Error) hne
    rw [ip.octets_length] at hslice
    rw [readRdata, rrtype, if_neg (by decide), if_pos rfl]
    simp only
    rw [if_neg (by omega), hslice, ok_bind, Ipv6Addr.ofSlice_octets]
    rfl
  | ptr h =>
    rw [readRdata, rrtype, if_neg (by decide), if_neg (by decide), if_pos rfl, h.readName_eq]
    rfl
  | @txt ss _ h =>
    obtain ⟨pos, hloop, -⟩ := parseTxtLoop_stands ss.length_le h []
    obtain rfl : (encodeStrings ss.strings).length = rdlen := Nat.add_left_cancel hstop
    rw [readRdata, rrtype, if_neg (by decide), if_neg (by decide), if_neg (by decide),
      if_pos rfl, parseTxt, hloop]
    rfl
  | srv h hname =>
    have := hname.stop_le
    rw [readRdata, rrtype, if_neg (by decide), if_neg (by decide), if_neg (by decide),
      if_neg (by decide), if_pos rfl, parseSrv_eq h hname (by omega)]
    rfl

/-- The data of a record lie in the packet. -/
theorem Rdata.At.stop_le {r : Rdata} (h : r.At d p stop) (hp : p ≤ d.len) : stop ≤ d.len := by
  cases h with
  | a h => exact h.le (by simp [Ipv4Addr.octets])
  | @aaaa ip _ h =>
    rw [← ip.octets_length]
    exact h.le (List.ne_nil_of_length_pos (by rw [ip.octets_length]; decide))
  | ptr h => exact h.stop_le.2
  | @txt ss _ h =>
    by_cases hnil : encodeStrings ss.strings = []
    · rwa [hnil, List.length_nil, Nat.add_zero]
    · exact h.le hnil
  | srv _ hname => exact hname.stop_le.2

/-! ## Records and questions -/

/-- The fields between the owner name and the data of a record read back. -/
theorem readRecordHead_stands {name : List Char} {stop : ℕ} {rrtype rrclass : UInt16}
    {ttl : UInt32} {rdlen : UInt16} (hname : readName d p 16 = .ok (name, stop))
    (h : Stands d.bytes stop (encodeHead rrtype rrclass ttl rdlen))
    (hend : stop + 10 + rdlen.toNat ≤ d.len) :
    readRecordHead d p = .ok (name, rrtype, rdlen.toNat, stop + 10) := by
  obtain ⟨htype, hrest⟩ := stands_append.mp h
  obtain ⟨hclass, hrest⟩ := stands_append.mp hrest
  obtain ⟨httl, hrdlen⟩ := stands_append.mp hrest
  simp only [toBe16_length, toBe32_length, Nat.add_assoc, Nat.reduceAdd] at hclass httl hrdlen
  have hle : rdlen.toNat ≤ 2 ^ 63 := by
    have := rdlen.toNat_lt
    omega
  rw [readRecordHead, hname, ok_bind]
  simp only [rd16_stands htype, rd16_stands hclass, rd32_stands httl, rd16_stands hrdlen, ok_bind,
    Nat.add_assoc, Nat.reduceAdd]
  rw [← Nat.add_assoc, fitsUsize_slice d (by omega) hle, ok_bind, if_neg (by omega), pure_eq]

/-- The record loop reads a record, and goes on after it. -/
theorem Record.At.parseRecords_eq {r : Record} (h : r.At d p stop) (n : ℕ)
    (answers : List MdnsAnswer) :
    parseRecords d (n + 1) p answers = parseRecords d n stop (answers ++ [r.read]) := by
  obtain ⟨mid, rdlen, howner, hhead, hdata, rfl⟩ := h
  have hmid : mid + 10 ≤ d.len := hhead.le (by simp [encodeHead, toBe16])
  obtain ⟨hlt, -⟩ := howner.stop_le
  rw [parseRecords, if_neg (by omega),
    readRecordHead_stands howner.readName_eq hhead (hdata.stop_le hmid), ok_bind]
  simp only [hdata.readRdata_eq rfl, ok_bind]
  rfl

/-- The record loop reads the records that stand at its cursor, and goes on after them. The
induction is along the records. -/
theorem parseRecords_laid {rs : List Record} (h : Laid (Record.At d) rs p stop) (n : ℕ)
    (answers : List MdnsAnswer) :
    parseRecords d (rs.length + n) p answers =
      parseRecords d n stop (answers ++ rs.map Record.read) := by
  induction h generalizing answers with
  | nil => simp
  | @cons r rs p q stop h rest ih =>
    have hcount : (r :: rs).length + n = rs.length + n + 1 := by
      rw [List.length_cons]
      omega
    rw [hcount, h.parseRecords_eq, ih, List.map_cons, List.append_assoc, List.singleton_append]

/-- The record loop ends at a record of an unknown type, with the records before it. -/
theorem parseRecords_foreign (h : ForeignAt d p) (n : ℕ) (answers : List MdnsAnswer) :
    parseRecords d (n + 1) p answers = .ok answers := by
  obtain ⟨ls, redirects, stop, rrtype, rrclass, ttl, rdlen, hname, hbudget, hhead, hend, htype⟩ := h
  obtain ⟨s, hs, -⟩ := hname.readNameLoop_eq [] 16 (by omega)
  have hlt : p < d.len := by
    by_contra hge
    rw [readNameLoop, dif_pos (by omega)] at hs
    cases hs
  -- The type is none of those that the match has a branch for.
  simp only [knownTypes, List.mem_cons, List.not_mem_nil, or_false, not_or] at htype
  obtain ⟨h1, h28, h12, h16, h33⟩ := htype
  have hdata (pos rdlen : ℕ) : readRdata d rrtype pos rdlen = .ok none := by
    rw [readRdata, if_neg h1, if_neg h28, if_neg h12, if_neg h16, if_neg h33]
  rw [parseRecords, if_neg (by omega), readRecordHead_stands hs hhead hend, ok_bind]
  simp only [hdata, ok_bind, pure_eq]

/-- The question loop skips the questions that stand at its cursor. The induction is along the
questions. -/
theorem skipQuestions_laid {qs : List Question} (h : Laid (Question.At d) qs p stop) :
    skipQuestions d qs.length p = .ok stop := by
  induction h with
  | nil => rfl
  | @cons q qs p _ stop h rest ih =>
    obtain ⟨mid, hname, hfields, rfl⟩ := h
    obtain ⟨htype, hclass⟩ := stands_append.mp hfields
    obtain ⟨hlt, hle⟩ := hname.stop_le
    rw [List.length_cons, skipQuestions, if_neg (by omega), hname.readName_eq, ok_bind]
    simp only [toBe16_length] at hclass
    simp only [rd16_stands htype, rd16_stands hclass, ok_bind]
    rw [← ih]

/-! ## Messages -/

/-- What the parser does after the header, once that is there. -/
theorem parseDns_of_header {m : Message} (hlen : 12 < d.len) (h : Stands d.bytes 0 m.header) :
    parseDns d = (do
      let pos ← skipQuestions d m.questions.length 12
      let answers ← parseRecords d m.count pos []
      return ⟨answers⟩) := by
  -- The parser reads the counts, and neither the identifier nor the flags.
  obtain ⟨-, h⟩ := stands_append.mp h
  obtain ⟨-, h⟩ := stands_append.mp h
  obtain ⟨hqd, h⟩ := stands_append.mp h
  obtain ⟨han, h⟩ := stands_append.mp h
  obtain ⟨hns, har⟩ := stands_append.mp h
  simp only [toBe16_length, Nat.zero_add, Nat.reduceAdd] at hqd han hns har
  have hqdToNat : (UInt16.ofNat m.questions.length).toNat = m.questions.length :=
    UInt16.toNat_ofNat_of_lt' (Nat.lt_succ_of_le m.questions_le)
  have hcountLt : m.count < 2 ^ 64 := by
    have := m.an.toNat_lt
    have := m.ns.toNat_lt
    have := m.ar.toNat_lt
    unfold Message.count
    omega
  rw [parseDns, if_neg (by omega)]
  simp only [rd16_stands hqd, rd16_stands han, rd16_stands hns, rd16_stands har, ok_bind,
    hqdToNat]
  rw [← Message.count, fitsUsize_eq hcountLt]
  rfl

/-- The parser reads the records of the message that a packet carries, if that is more than a bare
header. -/
theorem parseDns_carries {m : Message} (h : Carries d m) (hlen : 12 < d.len) :
    parseDns d = .ok ⟨m.records.map Record.read⟩ := by
  obtain ⟨mid, stop, hquestions, hrecords, hrest⟩ := h.body
  have hcount : m.count = m.records.length + (m.count - m.records.length) := by
    rcases hrest with hcount | ⟨-, hcount⟩ <;> omega
  rw [parseDns_of_header hlen h.header, skipQuestions_laid hquestions, ok_bind, hcount,
    parseRecords_laid hrecords, List.nil_append]
  -- Past the records, the loop ends: at once, or at the record of an unknown type.
  rcases hrest with hcount | ⟨hforeign, hlt⟩
  · rw [hcount, Nat.sub_self, parseRecords]
    rfl
  · obtain ⟨n, hn⟩ := Nat.exists_eq_add_of_lt hlt
    have hsub : m.count - m.records.length = n + 1 := by omega
    rw [hsub, parseRecords_foreign hforeign]
    rfl

end Uscan.Mdns
