import Uscan.Mdns.Total

/-!
# The wire format of a message

The wire format of a DNS message, which the parser of the broker reads back. A `Message` has
questions and records of the five types that the parser knows; its labels carry their bounds, and
`Message.bytes` writes its names uncompressed. `NameAt` says that a name stands in a packet, with
the number of compression pointers on its way; it is what the owner of a record of another type may
be.

Each reader of a field has one lemma here: where the encoding of a value stands at its cursor, it
returns the value and the position after the encoding (`rd16_stands`, `NameAt.readNameLoop_eq`,
`readName_encodeLabels`).
-/

namespace Uscan.Mdns

open Res

/-! ## The wire format -/

/-- A label of a name to send: text of 1 to 63 bytes. -/
structure Label where
  /-- The text. -/
  text : List Char
  /-- It is not empty. -/
  bytes_ne : utf8 text ≠ []
  /-- Its length fits in the six bits that the wire has for it. -/
  length_le : (utf8 text).length ≤ 63

/-- The bytes of a label. -/
def Label.bytes (l : Label) : List UInt8 := utf8 l.text

/-- A label on the wire: its length and its bytes. -/
def encodeLabel (l : List UInt8) : List UInt8 := UInt8.ofNat l.length :: l

/-- A name on the wire: its labels and a zero byte. -/
def encodeLabels (ls : List (List UInt8)) : List UInt8 := ls.flatMap encodeLabel ++ [0]

/-- `encode_name`: the labels of a domain text on the wire. -/
def encodeName (domain : List Char) : List UInt8 :=
  encodeLabels ((domain.splitOn '.').map utf8)

/-- The packet of `build_query`, of the domain that `idn_ascii` makes: a header with one question,
the name, the type and the class IN. -/
def queryPacket (domain : List Char) (qtype : UInt16) : List UInt8 :=
  List.replicate 4 0 ++ toBe16 1 ++ List.replicate 6 0 ++ encodeName domain ++ toBe16 qtype ++
    toBe16 1

/-- The bytes of the labels of a name. -/
def nameBytes (ls : List Label) : List (List UInt8) := ls.map Label.bytes

/-- The text of a name: its labels joined with dots. -/
def nameText (ls : List Label) : List Char := ['.'].intercalate (ls.map Label.text)

/-- A question. -/
structure Question where
  /-- The name asked for. -/
  name : List Label
  /-- The type asked for. -/
  qtype : UInt16
  /-- The class. -/
  qclass : UInt16

/-- A question on the wire. -/
def Question.bytes (q : Question) : List UInt8 :=
  encodeLabels (nameBytes q.name) ++ toBe16 q.qtype ++ toBe16 q.qclass

/-- The strings of a text record to send. -/
structure TxtStrings where
  /-- The strings, as bytes. -/
  strings : List (List UInt8)
  /-- The length of a string fits in its byte. -/
  length_le : ∀ s ∈ strings, s.length ≤ 255

/-- The strings that the loop of `parse_txt` reports: it stops before an empty last one. -/
def dropEmptyLast (ss : List (List UInt8)) : List (List UInt8) :=
  if ss.getLast? = some [] then ss.dropLast else ss

/-- The data of a record to send. -/
inductive Rdata where
  /-- An IPv4 address. -/
  | a (ip : Ipv4Addr)
  /-- An IPv6 address. -/
  | aaaa (ip : Ipv6Addr)
  /-- A domain name. -/
  | ptr (name : List Label)
  /-- The strings of a text record. -/
  | txt (strings : TxtStrings)
  /-- A service. -/
  | srv (priority weight port : UInt16) (target : List Label)

/-- The strings of a text record on the wire, each after its length. -/
def encodeStrings (ss : List (List UInt8)) : List UInt8 := ss.flatMap encodeLabel

namespace Rdata

/-- The type of a record with these data. -/
def rrtype : Rdata → UInt16
  | a _ => 1
  | aaaa _ => 28
  | ptr _ => 12
  | txt _ => 16
  | srv _ _ _ _ => 33

/-- The data on the wire. -/
def bytes : Rdata → List UInt8
  | a ip => ip.octets
  | aaaa ip => ip.octets
  | ptr name => encodeLabels (nameBytes name)
  | txt ss => encodeStrings ss.strings
  | srv priority weight port target =>
    toBe16 priority ++ (toBe16 weight ++ (toBe16 port ++ encodeLabels (nameBytes target)))

/-- The data as an answer has them. -/
def data : Rdata → MdnsData
  | a ip => .a (.v4 ip)
  | aaaa ip => .aaaa (.v6 ip)
  | ptr name => .ptr (nameText name)
  | txt ss => .txt (ss.strings.map (·.map latin1))
  | srv priority weight port target => .srv priority weight port (nameText target)

/-- The data as the parser reads them: a text record loses an empty last string. -/
def read : Rdata → MdnsData
  | txt ss => .txt ((dropEmptyLast ss.strings).map (·.map latin1))
  | r => r.data

/-- The data are not those of a text record with an empty last string. -/
def LastNonempty : Rdata → Prop
  | txt ss => ss.strings.getLast? ≠ some []
  | _ => True

/-- The parser reads all other data as they are. -/
theorem LastNonempty.read_eq {r : Rdata} (h : r.LastNonempty) : r.read = r.data := by
  cases r with
  | txt ss => rw [read, dropEmptyLast, if_neg h, data]
  | _ => rfl

end Rdata

/-- A record to send. -/
structure Record where
  /-- Its owner name. -/
  owner : List Label
  /-- Its class. -/
  rrclass : UInt16
  /-- Its time to live. -/
  ttl : UInt32
  /-- Its data. -/
  rdata : Rdata
  /-- The length of the data fits in its field. -/
  length_le : rdata.bytes.length ≤ 65535

/-- The fields of a record between its owner name and its data. -/
def encodeHead (rrtype rrclass : UInt16) (ttl : UInt32) (rdlen : UInt16) : List UInt8 :=
  toBe16 rrtype ++ (toBe16 rrclass ++ (toBe32 ttl ++ toBe16 rdlen))

namespace Record

/-- A record on the wire. -/
def bytes (r : Record) : List UInt8 :=
  encodeLabels (nameBytes r.owner) ++
    (encodeHead r.rdata.rrtype r.rrclass r.ttl (UInt16.ofNat r.rdata.bytes.length) ++
      r.rdata.bytes)

/-- The record as an answer. -/
def answer (r : Record) : MdnsAnswer := ⟨r.rdata.rrtype, nameText r.owner, r.rdata.data⟩

/-- The record as the parser reads it. -/
def read (r : Record) : MdnsAnswer := ⟨r.rdata.rrtype, nameText r.owner, r.rdata.read⟩

/-- The length of a record on the wire is that of its owner, ten bytes, and its data. -/
theorem bytes_length (r : Record) :
    r.bytes.length = (encodeLabels (nameBytes r.owner)).length + 10 + r.rdata.bytes.length := by
  simp only [bytes, encodeHead, List.length_append, toBe16_length, toBe32_length]
  omega

/-- A record is not empty on the wire. -/
theorem bytes_ne (r : Record) : r.bytes ≠ [] := by
  intro h
  have := r.bytes_length
  rw [h, List.length_nil] at this
  omega

end Record

/-- A message to send. The parser reads the three record counts as one sum. -/
structure Message where
  /-- Its identifier. -/
  id : UInt16
  /-- Its flags. -/
  flags : UInt16
  /-- Its questions. -/
  questions : List Question
  /-- Their number fits in its field. -/
  questions_le : questions.length ≤ 65535
  /-- Its records. -/
  records : List Record
  /-- The answer count. -/
  an : UInt16
  /-- The authority count. -/
  ns : UInt16
  /-- The additional count. -/
  ar : UInt16

namespace Message

/-- The number of records that the header announces. -/
def count (m : Message) : ℕ := m.an.toNat + m.ns.toNat + m.ar.toNat

/-- The header. -/
def header (m : Message) : List UInt8 :=
  toBe16 m.id ++ (toBe16 m.flags ++ (toBe16 (UInt16.ofNat m.questions.length) ++
    (toBe16 m.an ++ (toBe16 m.ns ++ toBe16 m.ar))))

/-- A message on the wire. -/
def bytes (m : Message) : List UInt8 :=
  m.header ++ (m.questions.flatMap Question.bytes ++ m.records.flatMap Record.bytes)

/-- A header is twelve bytes. -/
theorem header_length (m : Message) : m.header.length = 12 := by
  simp [header]

end Message

/-- A header can announce one question. -/
theorem length_singleton_le (q : Question) : [q].length ≤ 65535 := Nat.le_add_left 1 _

/-- A question is not empty on the wire. -/
theorem Question.bytes_ne (q : Question) : q.bytes ≠ [] := by
  simp [Question.bytes, toBe16]

/-- The name with labels `ls` stands in the packet at `p`, and its field ends at `stop`. On the way
there are `n` compression pointers. -/
inductive NameAt (d : Slice) : List (List UInt8) → ℕ → ℕ → ℕ → Prop where
  /-- The end of a name. -/
  | root {p : ℕ} (h : Stands d.bytes p [0]) : NameAt d [] 0 p (p + 1)
  /-- A label and the rest of the name. -/
  | label {l : List UInt8} {ls : List (List UInt8)} {n p stop : ℕ} (hne : l ≠ [])
      (hle : l.length ≤ 63) (h : Stands d.bytes p (encodeLabel l))
      (rest : NameAt d ls n (p + 1 + l.length) stop) : NameAt d (l :: ls) n p stop
  /-- A pointer to the rest of the name. -/
  | pointer {hi lo : UInt8} {ls : List (List UInt8)} {n p stop : ℕ} (hptr : isPointer hi = true)
      (h : Stands d.bytes p [hi, lo]) (rest : NameAt d ls n (pointerTarget hi lo) stop) :
      NameAt d ls (n + 1) p (p + 2)

/-- The types that the parser knows. -/
def knownTypes : List UInt16 := [1, 28, 12, 16, 33]

/-- A complete record of a type that the parser does not know stands in the packet at `p`. Its owner
may be compressed, within the budget of a name. -/
def ForeignAt (d : Slice) (p : ℕ) : Prop :=
  ∃ ls n stop rrtype rrclass ttl rdlen, NameAt d ls n p stop ∧ n ≤ 15 ∧
    Stands d.bytes stop (encodeHead rrtype rrclass ttl rdlen) ∧
    stop + 10 + rdlen.toNat ≤ d.len ∧ rrtype ∉ knownTypes

/-- The packet is the message `m` and a tail: an empty one, when the header announces just the
records of the message, or one that starts with a record of an unknown type, when the header
announces that one too. -/
structure Encodes (d : Slice) (m : Message) (tail : List UInt8) : Prop where
  /-- The packet is the message and the tail. -/
  bytes_eq : d.bytes = m.bytes ++ tail
  /-- The tail and the record counts. -/
  tail_ok : tail = [] ∧ m.count = m.records.length ∨
    ForeignAt d m.bytes.length ∧ m.records.length < m.count

/-! ## Fields -/

variable {d : Slice} {p : ℕ}

/-- A 16-bit integer reads back. -/
theorem rd16_stands {x : UInt16} (h : Stands d.bytes p (toBe16 x)) :
    rd16 d p = .ok (x, p + 2) := by
  have hle : p + 2 ≤ d.len := h.le (by simp [toBe16])
  have h0 := h.head?
  have h1 := h.getElem? (i := 1) (by simp)
  rw [rd16, fitsUsize_slice d (by omega) (by decide), ok_bind, if_neg (by omega),
    index_of_getElem? h0, ok_bind, index_of_getElem? h1, ok_bind, pure_eq]
  exact congrArg (fun y => Res.ok (y, p + 2)) (be16_toBe16 x)

/-- A 32-bit integer reads back. -/
theorem rd32_stands {x : UInt32} (h : Stands d.bytes p (toBe32 x)) :
    rd32 d p = .ok (x, p + 4) := by
  have hle : p + 4 ≤ d.len := h.le (by simp [toBe32])
  have h0 := h.head?
  have h1 := h.getElem? (i := 1) (by simp)
  have h2 := h.getElem? (i := 2) (by simp)
  have h3 := h.getElem? (i := 3) (by simp)
  rw [rd32, fitsUsize_slice d (by omega) (by decide), ok_bind, if_neg (by omega),
    index_of_getElem? h0, ok_bind, index_of_getElem? h1, ok_bind, index_of_getElem? h2, ok_bind,
    index_of_getElem? h3, ok_bind, pure_eq]
  exact congrArg (fun y => Res.ok (y, p + 4)) (be32_toBe32 x)

/-! ## Names -/

/-- A name read so far, and the labels that follow. -/
def joinOnto (name : List Char) : List (List UInt8) → List Char
  | [] => name
  | l :: ls => joinOnto (pushDot name ++ fromUtf8Lossy l) ls

/-- A label on the wire does not read as a pointer. -/
theorem isPointer_length {n : ℕ} (h : n ≤ 63) : isPointer (UInt8.ofNat n) = false := by
  have hall : ∀ n : Fin 64, isPointer (UInt8.ofNat n) = false := by decide
  exact hall ⟨n, by omega⟩

/-- The zero byte ends the loop of `read_name` with the name as it is. -/
theorem readNameLoop_root (h : Stands d.bytes p [0]) (name : List Char) (budget : ℕ) :
    readNameLoop d name p budget = .ok (name, p + 1) := by
  have hle : p + 1 ≤ d.len := h.le (by simp)
  have h0 := h.head?
  rw [readNameLoop, dif_neg (by omega), index_of_getElem? h0, ok_bind,
    fitsUsize_slice d (by omega) (by decide), ok_bind]
  exact if_pos rfl

/-- A label is put after the name and a dot, and the loop goes on behind it. -/
theorem readNameLoop_label {l : List UInt8} (hne : l ≠ []) (hlen : l.length ≤ 63)
    (h : Stands d.bytes p (encodeLabel l)) (name : List Char) (budget : ℕ) :
    readNameLoop d name p budget =
      readNameLoop d (pushDot name ++ fromUtf8Lossy l) (p + 1 + l.length) budget := by
  have hle : p + (l.length + 1) ≤ d.len := h.le (by simp [encodeLabel])
  have hd := d.length_le
  have h0 := h.head?
  have hlabel : Stands d.bytes (p + 1) l := (stands_append (x := [_]).mp h).2
  have hlen' : (UInt8.ofNat l.length).toNat = l.length := toNat_ofNat_of_lt (by omega)
  have hpos := List.length_pos_iff.mpr hne
  -- The length of a label is neither zero nor a pointer, so that the third branch reads it.
  have h0' : UInt8.ofNat l.length ≠ 0 := by
    intro hzero
    rw [hzero, UInt8.toNat_zero] at hlen'
    omega
  rw [readNameLoop, dif_neg (by omega), index_of_getElem? h0, ok_bind,
    fitsUsize_slice d (by omega) (by decide), ok_bind]
  simp only [Slice.len, isizeMax] at hle hd
  rw [if_neg h0', isPointer_length hlen, hlen', if_neg (by simp),
    if_pos ⟨by omega, by simp only [Slice.len]; omega⟩, hlabel.subslice_eq hne, ok_bind]

/-- A pointer into the packet ends the loop: the rest of the name is read at its target, on a budget
that covers one pointer less. -/
theorem readNameLoop_pointer {hi lo : UInt8} (hptr : isPointer hi = true)
    (h : Stands d.bytes p [hi, lo]) (htarget : pointerTarget hi lo < d.len) (name : List Char)
    (budget : ℕ) :
    readNameLoop d name p budget =
      if budget - 1 = 0 then .err maxRedirects
      else do
        let (rest, _) ← readNameLoop d [] (pointerTarget hi lo) (budget - 1)
        return (pushDot name ++ rest, p + 2) := by
  have hle : p + 2 ≤ d.len := h.le (by simp)
  have h0 := h.head?
  have h1 := h.getElem? (i := 1) (by simp)
  have hi0 : hi ≠ 0 := by
    rintro rfl
    exact absurd hptr (by decide)
  rw [readNameLoop, dif_neg (by omega), index_of_getElem? h0, ok_bind,
    fitsUsize_slice d (by omega) (by decide), ok_bind]
  simp only [List.getElem_cons_zero, List.getElem_cons_succ] at h1
  rw [if_neg hi0, if_pos hptr, h1]
  simp only
  rw [fitsUsize_slice d (by omega) (by decide), ok_bind, if_neg (by omega)]
  split_ifs <;> rfl

/-- A name stands inside the packet. -/
theorem NameAt.start_lt {ls : List (List UInt8)} {n stop : ℕ} (h : NameAt d ls n p stop) :
    p < d.len := by
  cases h with
  | root h => exact h.le (by simp)
  | label hne hlen h rest =>
    exact lt_of_lt_of_le (by simp [encodeLabel]) (h.le (by simp [encodeLabel]))
  | pointer hptr h rest => exact lt_of_lt_of_le (by simp) (h.le (by simp))

/-- The loop of `read_name` reads a name that stands in the packet, if the budget covers its
pointers. The induction is on how the name stands there. -/
theorem NameAt.readNameLoop_eq {ls : List (List UInt8)} {n stop : ℕ} (h : NameAt d ls n p stop)
    (name : List Char) (budget : ℕ) (hb : n < budget) :
    ∃ s, readNameLoop d name p budget = .ok (s, stop) ∧ (n = 0 → s = joinOnto name ls) := by
  induction h generalizing name budget with
  | root h => exact ⟨name, readNameLoop_root h name budget, fun _ => rfl⟩
  | @label l ls n p stop hne hlen h rest ih =>
    obtain ⟨s, hs, hjoin⟩ := ih (pushDot name ++ fromUtf8Lossy l) budget hb
    exact ⟨s, (readNameLoop_label hne hlen h name budget).trans hs, hjoin⟩
  | @pointer hi lo ls n p stop hptr h rest ih =>
    obtain ⟨s, hs, -⟩ := ih [] (budget - 1) (by omega)
    refine ⟨pushDot name ++ s, ?_, fun h => absurd h (by simp)⟩
    rw [readNameLoop_pointer hptr h rest.start_lt, if_neg (by omega), hs]
    rfl

/-- A name without pointers stands where its encoding does. -/
theorem nameAt_encodeLabels {ls : List (List UInt8)} (hls : ∀ l ∈ ls, l ≠ [] ∧ l.length ≤ 63)
    (h : Stands d.bytes p (encodeLabels ls)) :
    NameAt d ls 0 p (p + (encodeLabels ls).length) := by
  induction ls generalizing p with
  | nil => exact .root h
  | cons l ls ih =>
    rw [encodeLabels, List.flatMap_cons, List.append_assoc] at h
    obtain ⟨hhead, hrest⟩ := stands_append.mp h
    obtain ⟨hne, hle⟩ := hls l List.mem_cons_self
    have hrec := ih (fun l hl => hls l (List.mem_cons_of_mem _ hl)) hrest
    -- The encoding of the rest starts after the length byte and the label.
    have hstop : p + (encodeLabels (l :: ls)).length =
        p + 1 + l.length + (encodeLabels ls).length := by
      simp only [encodeLabels, encodeLabel, List.flatMap_cons, List.length_append,
        List.length_cons, List.length_nil]
      omega
    have hstart : p + (encodeLabel l).length = p + 1 + l.length := by
      simp only [encodeLabel, List.length_cons]
      omega
    rw [hstart] at hrec
    rw [hstop]
    exact .label hne hle hhead hrec

/-- Joining labels onto a name that is not empty puts a dot before each. -/
theorem joinOnto_of_ne_nil {name : List Char} (hname : name ≠ []) (ls : List Label) :
    joinOnto name (nameBytes ls) = ['.'].intercalate (name :: ls.map Label.text) := by
  induction ls generalizing name with
  | nil => simp [nameBytes, joinOnto, List.intercalate]
  | cons l ls ih =>
    have hdot : pushDot name = name ++ ['.'] := by
      rw [pushDot, if_neg (by simpa using hname)]
    have hne : name ++ ['.'] ++ l.text ≠ [] := by simp
    rw [nameBytes, List.map_cons, joinOnto, hdot, Label.bytes, fromUtf8Lossy_utf8, ← nameBytes,
      ih hne, List.map_cons, List.intercalate_cons_cons]
    cases ls.map Label.text <;> simp [List.intercalate_cons_cons]

/-- The labels of a name read as its text. -/
theorem joinOnto_nameBytes (ls : List Label) : joinOnto [] (nameBytes ls) = nameText ls := by
  cases ls with
  | nil => rfl
  | cons l ls =>
    have hne : l.text ≠ [] := by
      intro hnil
      exact l.bytes_ne (by rw [hnil, utf8_nil])
    rw [nameBytes, List.map_cons, joinOnto, Label.bytes, fromUtf8Lossy_utf8, ← nameBytes, nameText,
      List.map_cons]
    exact joinOnto_of_ne_nil hne ls

/-- The labels of a name are within the bounds of the wire. -/
theorem nameBytes_bounds {ls : List Label} {l : List UInt8} (hl : l ∈ nameBytes ls) :
    l ≠ [] ∧ l.length ≤ 63 := by
  obtain ⟨label, -, rfl⟩ := List.mem_map.mp hl
  exact ⟨label.bytes_ne, label.length_le⟩

/-- `read_name` reads a name back, and stops after it. -/
theorem readName_encodeLabels {ls : List Label}
    (h : Stands d.bytes p (encodeLabels (nameBytes ls))) :
    readName d p 16 = .ok (nameText ls, p + (encodeLabels (nameBytes ls)).length) := by
  obtain ⟨s, hs, hjoin⟩ := (nameAt_encodeLabels (fun l hl => nameBytes_bounds hl) h).readNameLoop_eq
    [] 16 (by decide)
  rw [readName, hs, hjoin rfl, joinOnto_nameBytes]

/-- What `encode_name` writes for a domain are the labels that it is split into. -/
theorem encodeName_of_splitOn {ls : List Label} {domain : List Char}
    (h : domain.splitOn '.' = ls.map Label.text) :
    encodeName domain = encodeLabels (nameBytes ls) := by
  rw [encodeName, h, List.map_map]
  rfl

end Uscan.Mdns
