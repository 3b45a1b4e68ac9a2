import Uscan.Lib.Reader
import Uscan.Lib.Runs
import Uscan.Net.Addr

/-!
# The pcap writer

`pcap.rs`: every captured datagram becomes a record with four nested headers, whose three lengths
are sums of `u16`s, each one header longer than the one before. In a development build an addition
past `2^16 - 1` panics while the writer is locked, and in a release build it wraps around
(`Profile`). The last sum fits exactly when the payload has at most 65493 bytes
(`appendUdp_lengthsExact_iff`), 14 bytes fewer than a datagram can carry.

Below that bound a file is read back (`readFile`, a reader of pcap files that uses the lengths in
the records) as the datagrams of all calls whose two endpoints are IPv4 (`new_run_readFile`).
-/

namespace Uscan

/-- How the program was built, which decides what an overflowing addition does. -/
inductive Profile where
  /-- A development build panics. -/
  | dev
  /-- A release build wraps around. -/
  | release
  deriving DecidableEq, Repr

/-- `a + b` on `u16`. -/
def addU16 (profile : Profile) (a b : UInt16) : Res Empty UInt16 :=
  match profile with
  | .dev => if a.toNat + b.toNat < 2 ^ 16 then .ok (a + b) else .panicked
  | .release => .ok (a + b)

/-- `SystemTime`: nanoseconds from the epoch. -/
structure SystemTime where
  /-- Negative before the epoch. -/
  nanos : ℤ
  deriving DecidableEq, Repr

/-- `duration_since(UNIX_EPOCH).unwrap_or_default()`, in nanoseconds: zero before the epoch. -/
def SystemTime.age (ts : SystemTime) : ℕ := ts.nanos.toNat

/-- How `write_all` ends: all bytes are written, or an error after some of them. -/
inductive WriteAll where
  | ok
  | err (written : ℕ)
  deriving DecidableEq, Repr

/-- The three lengths of a record. -/
structure Lengths where
  /-- The length of the UDP datagram. -/
  udp : UInt16
  /-- The length of the IPv4 packet. -/
  ip : UInt16
  /-- The length of the Ethernet frame. -/
  frame : UInt32
  deriving DecidableEq, Repr

/-- `udp_len`, `ip_len` and `frame_len` for a payload of `n` bytes. -/
def lengths (profile : Profile) (n : ℕ) : Res Empty Lengths := do
  let udpLen ← addU16 profile 8 (UInt16.ofNat n)
  let ipLen ← addU16 profile 20 udpLen
  let frameLen ← addU16 profile 14 ipLen
  return ⟨udpLen, ipLen, frameLen.toUInt32⟩

/-- The Ethernet header: a hardware address ends in the last three octets of its IP address. -/
def ethernetHeader (src4 dst4 : Ipv4Addr) : List UInt8 :=
  [0x02, 0x00, 0x00, dst4.b, dst4.c, dst4.d] ++ [0x02, 0x00, 0x00, src4.b, src4.c, src4.d] ++
    toBe16 0x0800

/-- The IPv4 header. -/
def ipv4Header (ipLen : UInt16) (src4 dst4 : Ipv4Addr) : List UInt8 :=
  [0x45] ++ [0] ++ toBe16 ipLen ++ toBe16 0 ++ toBe16 0 ++ [254] ++ [17] ++ toBe16 0 ++
    src4.octets ++ dst4.octets

/-- The UDP header. -/
def udpHeader (srcPort dstPort udpLen : UInt16) : List UInt8 :=
  toBe16 srcPort ++ toBe16 dstPort ++ toBe16 udpLen ++ toBe16 0

/-- The record header: the time stamp and the length of the frame, twice. -/
def recordHeader (age : ℕ) (frameLen : UInt32) : List UInt8 :=
  toLe32 (UInt32.ofNat (age / 10 ^ 9)) ++ toLe32 (UInt32.ofNat (age % 10 ^ 9 / 1000)) ++
    toLe32 frameLen ++ toLe32 frameLen

/-- The record of a datagram. -/
def record (age : ℕ) (l : Lengths) (src4 : Ipv4Addr) (srcPort : UInt16) (dst4 : Ipv4Addr)
    (dstPort : UInt16) (payload : List UInt8) : List UInt8 :=
  recordHeader age l.frame ++ ethernetHeader src4 dst4 ++ ipv4Header l.ip src4 dst4 ++
    udpHeader srcPort dstPort l.udp ++ payload

/-- `PcapWriter`, with the contents of its file. -/
structure PcapWriter where
  /-- The bytes written so far. -/
  file : List UInt8
  /-- The records written so far, a `u64` that the length of the file bounds
  (`PcapWriter.count_le`). -/
  count : ℕ
  /-- A call panicked while it held the lock. -/
  poisoned : Bool
  deriving DecidableEq, Repr

namespace PcapWriter

/-- The file header. -/
def fileHeader : List UInt8 :=
  [0xd4, 0xc3, 0xb2, 0xa1, 0x02, 0x00, 0x04, 0x00, 0, 0, 0, 0, 0, 0, 0, 0, 0xdc, 0x05, 0, 0,
    1, 0, 0, 0]

/-- `PcapWriter::new`, when the file can be created and written. -/
def new : PcapWriter := ⟨fileHeader, 0, false⟩

/-- `PcapWriter::append_udp`: the writer after the call, and how the call ends. -/
def appendUdp (profile : Profile) (w : PcapWriter) (io : WriteAll) (ts : SystemTime)
    (src dst : SocketAddr) (payload : List UInt8) : PcapWriter × Res Empty (Option ℕ) :=
  match src.ip, dst.ip with
  | .v4 src4, .v4 dst4 =>
    if w.poisoned then (w, .panicked)
    else
      match lengths profile payload.length with
      | .panicked => ({ w with poisoned := true }, .panicked)
      | .err e => e.elim
      | .ok l =>
        let bytes := record ts.age l src4 src.port dst4 dst.port payload
        match io with
        | .err written => ({ w with file := w.file ++ bytes.take written }, .ok none)
        | .ok => ({ w with file := w.file ++ bytes, count := w.count + 1 },
            .ok (some (w.count + 1)))
  | _, _ => (w, .ok none)

end PcapWriter

/-! ## The lengths -/

/-- A sum of `u16`s that fits is the sum, in every build. -/
theorem addU16_eq {profile : Profile} {a b : UInt16} (h : a.toNat + b.toNat < 2 ^ 16) :
    ∃ c, addU16 profile a b = .ok c ∧ c.toNat = a.toNat + b.toNat := by
  refine ⟨a + b, ?_, ?_⟩
  · cases profile with
    | dev => exact if_pos h
    | release => rfl
  · rw [UInt16.toNat_add]
    exact Nat.mod_eq_of_lt h

/-- The first two sums fit in every build: a datagram is no longer than an IPv4 packet can be. -/
theorem udp_ip_lengths (profile : Profile) {n : ℕ} (h : n ≤ 65507) :
    ∃ udpLen ipLen, addU16 profile 8 (UInt16.ofNat n) = .ok udpLen ∧
      addU16 profile 20 udpLen = .ok ipLen ∧ udpLen.toNat = 8 + n ∧ ipLen.toNat = 28 + n := by
  have hn : (UInt16.ofNat n).toNat = n :=
    UInt16.toNat_ofNat_of_lt' (show n < 65536 by omega)
  have h8 : (8 : UInt16).toNat = 8 := rfl
  have h20 : (20 : UInt16).toNat = 20 := rfl
  obtain ⟨udpLen, hudp, hudpNat⟩ := @addU16_eq profile 8 (UInt16.ofNat n) (by omega)
  obtain ⟨ipLen, hip, hipNat⟩ := @addU16_eq profile 20 udpLen (by omega)
  exact ⟨udpLen, ipLen, hudp, hip, by omega, by omega⟩

/-- Up to 65493 bytes of payload, the three lengths are the sums that they stand for. -/
theorem lengths_eq (profile : Profile) {n : ℕ} (h : n ≤ 65493) :
    ∃ l, lengths profile n = .ok l ∧ l.udp.toNat = 8 + n ∧ l.ip.toNat = 28 + n ∧
      l.frame.toNat = 42 + n := by
  obtain ⟨udpLen, ipLen, hudp, hip, hudpNat, hipNat⟩ := udp_ip_lengths profile (n := n) (by omega)
  have h14 : (14 : UInt16).toNat = 14 := rfl
  -- Each sum is one header more than the one before, and the last is at most 65535.
  obtain ⟨frameLen, hframe, hframeNat⟩ := @addU16_eq profile 14 ipLen (by omega)
  refine ⟨⟨udpLen, ipLen, frameLen.toUInt32⟩, ?_, ?_, ?_, ?_⟩
  · unfold lengths
    rw [hudp, Res.ok_bind, hip, Res.ok_bind, hframe, Res.ok_bind, Res.pure_eq]
  · exact hudpNat
  · exact hipNat
  · rw [UInt16.toNat_toUInt32]
    omega

/-- Past 65493 bytes of payload, up to what a datagram can carry, the last sum overflows. -/
theorem lengths_dev_panicked {n : ℕ} (h : 65493 < n) (hn : n ≤ 65507) :
    lengths .dev n = .panicked := by
  obtain ⟨udpLen, ipLen, hudp, hip, -, hipNat⟩ := udp_ip_lengths .dev hn
  have h14 : (14 : UInt16).toNat = 14 := rfl
  -- The third sum does not fit.
  have hframe : addU16 .dev 14 ipLen = .panicked := if_neg (by omega)
  unfold lengths
  rw [hudp, Res.ok_bind, hip, Res.ok_bind, hframe, Res.panicked_bind]

/-- A record is its header, the three others, and the payload. -/
theorem record_length (age : ℕ) (l : Lengths) (src4 : Ipv4Addr) (srcPort : UInt16)
    (dst4 : Ipv4Addr) (dstPort : UInt16) (payload : List UInt8) :
    (record age l src4 srcPort dst4 dstPort payload).length = 58 + payload.length := by
  simp only [record, recordHeader, ethernetHeader, ipv4Header, udpHeader, Ipv4Addr.octets,
    List.length_append, toBe16_length, toLe32_length, List.length_cons, List.length_nil]

/-- A sum of `u16`s that is returned is the sum up to `2^16`. -/
theorem addU16_toNat {profile : Profile} {a b c : UInt16} (h : addU16 profile a b = .ok c) :
    c.toNat = (a.toNat + b.toNat) % 2 ^ 16 := by
  unfold addU16 at h
  cases profile with
  | release =>
    cases h
    exact UInt16.toNat_add a b
  | dev =>
    dsimp only at h
    split_ifs at h
    cases h
    exact UInt16.toNat_add a b

/-- The frame length of a record is the length of its frame up to `2^16`. -/
theorem lengths_frame {profile : Profile} {n : ℕ} {l : Lengths} (h : lengths profile n = .ok l) :
    l.frame.toNat = (42 + n) % 2 ^ 16 := by
  unfold lengths at h
  obtain ⟨udpLen, hudp, h⟩ := Res.bind_eq_ok.mp h
  obtain ⟨ipLen, hip, h⟩ := Res.bind_eq_ok.mp h
  obtain ⟨frameLen, hframe, h⟩ := Res.bind_eq_ok.mp h
  cases h
  have h8 : (8 : UInt16).toNat = 8 := rfl
  have h20 : (20 : UInt16).toNat = 20 := rfl
  have h14 : (14 : UInt16).toNat = 14 := rfl
  have hudpNat := addU16_toNat hudp
  have hipNat := addU16_toNat hip
  have hframeNat := addU16_toNat hframe
  rw [UInt16.toNat_ofNat'] at hudpNat
  rw [UInt16.toNat_toUInt32]
  omega

/-- In a development build, a sum that is computed is the sum. -/
theorem addU16_dev {a b c : UInt16} (h : addU16 .dev a b = .ok c) :
    c.toNat = a.toNat + b.toNat := by
  rw [addU16_toNat h, Nat.mod_eq_of_lt]
  rw [addU16] at h
  by_contra hnot
  rw [if_neg hnot] at h
  cases h

/-- A development build panics at a payload whose length, of which the upper half is lost, leaves
no room for the headers. A release build does not. -/
theorem lengths_panicked_iff (profile : Profile) (n : ℕ) :
    lengths profile n = .panicked ↔ profile = .dev ∧ 65493 < n % 2 ^ 16 := by
  have hhalf : UInt16.ofNat n = UInt16.ofNat (n % 2 ^ 16) := by
    rw [← UInt16.toNat_inj, UInt16.toNat_ofNat', UInt16.toNat_ofNat', Nat.mod_mod]
  cases profile with
  | release => exact iff_of_false nofun fun h => Profile.noConfusion h.1
  | dev =>
    constructor
    · refine fun hpanic => ⟨rfl, ?_⟩
      by_contra hle
      obtain ⟨l, hl, -⟩ := lengths_eq .dev (Nat.le_of_not_lt hle)
      rw [lengths, hhalf, ← lengths, hl] at hpanic
      cases hpanic
    · -- A sum that does not overflow is exact, and the last one would be over its width.
      rintro ⟨-, hlt⟩
      cases hl : lengths .dev n with
      | panicked => rfl
      | err e => exact e.elim
      | ok l =>
        exfalso
        rw [lengths] at hl
        obtain ⟨udpLen, hudp, hl⟩ := Res.bind_eq_ok.mp hl
        obtain ⟨ipLen, hip, hl⟩ := Res.bind_eq_ok.mp hl
        obtain ⟨frameLen, hframe, -⟩ := Res.bind_eq_ok.mp hl
        have h8 : (8 : UInt16).toNat = 8 := rfl
        have h20 : (20 : UInt16).toNat = 20 := rfl
        have h14 : (14 : UInt16).toNat = 14 := rfl
        have hudpNat := addU16_dev hudp
        have hipNat := addU16_dev hip
        have hframeNat := addU16_dev hframe
        have hbound := frameLen.toNat_lt
        rw [UInt16.toNat_ofNat'] at hudpNat
        omega

namespace PcapWriter

/-- The call computes its three lengths without an overflow, and both length fields of the record
that it appends equal the number of frame bytes after the record header. -/
def LengthsExact (profile : Profile) (w : PcapWriter) (ts : SystemTime) (src dst : SocketAddr)
    (payload : List UInt8) : Prop :=
  lengths .dev payload.length ≠ .panicked ∧
    ∃ (times : List UInt8) (inclLen origLen : UInt32) (frame : List UInt8),
      (w.appendUdp profile .ok ts src dst payload).1.file =
        w.file ++ (times ++ toLe32 inclLen ++ toLe32 origLen ++ frame) ∧
      times.length = 8 ∧ inclLen.toNat = frame.length ∧ origLen.toNat = frame.length

/-- What a call with IPv4 endpoints does to a writer that is not poisoned, once it has the three
lengths. -/
theorem appendUdp_v4 {profile : Profile} {w : PcapWriter} (hw : w.poisoned = false)
    {payload : List UInt8} {l : Lengths} (hl : lengths profile payload.length = .ok l)
    (ts : SystemTime) (src4 dst4 : Ipv4Addr) (srcPort dstPort : UInt16) :
    w.appendUdp profile .ok ts ⟨.v4 src4, srcPort⟩ ⟨.v4 dst4, dstPort⟩ payload =
      ({ w with
          file := w.file ++ record ts.age l src4 srcPort dst4 dstPort payload
          count := w.count + 1 }, .ok (some (w.count + 1))) := by
  unfold appendUdp
  rw [hw, hl]
  rfl

/-- A call with IPv4 endpoints either has its lengths and a writer that takes it, or panics. -/
theorem appendUdp_v4_cases (profile : Profile) (w : PcapWriter) (ts : SystemTime)
    (src4 dst4 : Ipv4Addr) (srcPort dstPort : UInt16) (payload : List UInt8) :
    (w.poisoned = false ∧ ∃ l, lengths profile payload.length = .ok l ∧
      w.appendUdp profile .ok ts ⟨.v4 src4, srcPort⟩ ⟨.v4 dst4, dstPort⟩ payload =
        ({ w with
            file := w.file ++ record ts.age l src4 srcPort dst4 dstPort payload
            count := w.count + 1 }, .ok (some (w.count + 1)))) ∨
    ((w.poisoned = true ∨ lengths profile payload.length = .panicked) ∧
      w.appendUdp profile .ok ts ⟨.v4 src4, srcPort⟩ ⟨.v4 dst4, dstPort⟩ payload =
        ({ w with poisoned := true }, .panicked)) := by
  by_cases hw : w.poisoned = true
  · refine .inr ⟨.inl hw, ?_⟩
    simp only [appendUdp, hw, if_true]
    rw [← hw]
  · rw [Bool.not_eq_true] at hw
    cases hl : lengths profile payload.length with
    | ok l => exact .inl ⟨hw, l, rfl, appendUdp_v4 hw hl ts src4 dst4 srcPort dstPort⟩
    | err e => exact e.elim
    | panicked =>
      refine .inr ⟨.inr rfl, ?_⟩
      simp only [appendUdp, hw, hl, Bool.false_eq_true, if_false]

/-- A call that has its lengths returns, and leaves the lock as it was. -/
theorem appendUdp_of_lengths {profile : Profile} {w : PcapWriter} (hw : w.poisoned = false)
    {payload : List UInt8} (hl : lengths profile payload.length ≠ .panicked) (io : WriteAll)
    (ts : SystemTime) (src dst : SocketAddr) :
    (∃ n, (w.appendUdp profile io ts src dst payload).2 = .ok n) ∧
      (w.appendUdp profile io ts src dst payload).1.poisoned = false := by
  unfold appendUdp
  split
  · rw [hw, if_neg Bool.false_ne_true]
    cases hlengths : lengths profile payload.length with
    | panicked => exact absurd hlengths hl
    | err e => exact e.elim
    | ok l =>
      cases io with
      | ok => exact ⟨⟨_, rfl⟩, rfl⟩
      | err written => exact ⟨⟨_, rfl⟩, rfl⟩
  · exact ⟨⟨_, rfl⟩, hw⟩

/-- A record whose fields hold its length: the frame is what stands after the record header. -/
theorem record_eq_append (age : ℕ) (l : Lengths) (src4 : Ipv4Addr) (srcPort : UInt16)
    (dst4 : Ipv4Addr) (dstPort : UInt16) (payload : List UInt8) :
    ∃ times frame, record age l src4 srcPort dst4 dstPort payload =
        times ++ toLe32 l.frame ++ toLe32 l.frame ++ frame ∧
      times.length = 8 ∧ frame.length = 42 + payload.length := by
  refine ⟨toLe32 (UInt32.ofNat (age / 10 ^ 9)) ++ toLe32 (UInt32.ofNat (age % 10 ^ 9 / 1000)),
    ethernetHeader src4 dst4 ++ ipv4Header l.ip src4 dst4 ++ udpHeader srcPort dstPort l.udp ++
      payload, ?_, rfl, ?_⟩
  · simp only [record, recordHeader, List.append_assoc]
  · have hlength := record_length age l src4 srcPort dst4 dstPort payload
    simp only [record, recordHeader, List.length_append, toLe32_length] at hlength ⊢
    omega

/-- The lengths of a call with IPv4 endpoints are exact precisely up to 65493 bytes of payload, as
long as no call before it panicked while it held the lock. -/
theorem appendUdp_lengthsExact_iff (profile : Profile) (w : PcapWriter) (ts : SystemTime)
    (src4 dst4 : Ipv4Addr) (srcPort dstPort : UInt16) (payload : List UInt8) :
    LengthsExact profile w ts ⟨.v4 src4, srcPort⟩ ⟨.v4 dst4, dstPort⟩ payload ↔
      payload.length ≤ 65493 ∧ w.poisoned = false := by
  constructor
  · rintro ⟨-, times, inclLen, origLen, frame, hfile, htimes, hincl, -⟩
    rcases appendUdp_v4_cases profile w ts src4 dst4 srcPort dstPort payload with
      ⟨hw, l, hl, happend⟩ | ⟨-, hpanic⟩
    swap
    · -- A call that panics appends nothing.
      rw [hpanic] at hfile
      have hlength := congrArg List.length hfile
      simp only [List.length_append, toLe32_length] at hlength
      omega
    -- The first length field of the record is the last of the sums.
    rw [happend] at hfile
    obtain ⟨times', frame', hrecord, htimes', hframe'⟩ :=
      record_eq_append ts.age l src4 srcPort dst4 dstPort payload
    have heq := List.append_cancel_left (hfile.symm.trans (congrArg (w.file ++ ·) hrecord))
    simp only [List.append_assoc] at heq
    obtain ⟨-, heq⟩ := List.append_inj heq (htimes.trans htimes'.symm)
    obtain ⟨hfield, heq⟩ := List.append_inj heq rfl
    obtain ⟨-, hframes⟩ := List.append_inj heq rfl
    rw [Reader.toLe32_inj hfield, hframes, hframe'] at hincl
    rw [lengths_frame hl] at hincl
    exact ⟨by omega, hw⟩
  · rintro ⟨hlen, hw⟩
    obtain ⟨l, hl, -, -, hframe⟩ := lengths_eq profile hlen
    obtain ⟨ldev, hdev, -⟩ := lengths_eq .dev hlen
    obtain ⟨times, frame, hrecord, htimes, hlength⟩ :=
      record_eq_append ts.age l src4 srcPort dst4 dstPort payload
    refine ⟨by simp [hdev], times, l.frame, l.frame, frame, ?_, htimes, ?_, ?_⟩
    · rw [appendUdp_v4 hw hl, hrecord]
    · rw [hframe, hlength]
    · rw [hframe, hlength]

/-- A datagram of 65494 bytes, which a receive buffer delivers, has no exact lengths. -/
theorem not_lengthsExact_65494 :
    let payload := List.replicate 65494 (0 : UInt8)
    let src : SocketAddr := ⟨.v4 ⟨192, 168, 1, 50⟩, 1900⟩
    let dst : SocketAddr := ⟨.v4 ⟨0, 0, 0, 0⟩, 1900⟩
    payload.length ≤ 65507 ∧ ¬ LengthsExact .dev new ⟨0⟩ src dst payload ∧
      ¬ LengthsExact .release new ⟨0⟩ src dst payload := by
  intro payload src dst
  have hlen : payload.length = 65494 := List.length_replicate
  have hpanic : lengths .dev payload.length = .panicked :=
    lengths_dev_panicked (by omega) (by omega)
  exact ⟨by omega, fun h => h.1 hpanic, fun h => h.1 hpanic⟩

/-- Past the bound, a call in a development build panics and leaves the lock poisoned. -/
theorem appendUdp_dev_panicked {w : PcapWriter} (hw : w.poisoned = false) {payload : List UInt8}
    (h : 65493 < payload.length) (hle : payload.length ≤ 65507) (io : WriteAll) (ts : SystemTime)
    (src4 dst4 : Ipv4Addr) (srcPort dstPort : UInt16) :
    w.appendUdp .dev io ts ⟨.v4 src4, srcPort⟩ ⟨.v4 dst4, dstPort⟩ payload =
      ({ w with poisoned := true }, .panicked) := by
  unfold appendUdp
  simp only [hw, lengths_dev_panicked h hle, Bool.false_eq_true, if_false]

/-! ## Reading a file back -/

/-- A call of `append_udp`. -/
structure Call where
  /-- The time stamp. -/
  ts : SystemTime
  /-- The source. -/
  src : SocketAddr
  /-- The destination. -/
  dst : SocketAddr
  /-- The payload. -/
  payload : List UInt8

/-- Both endpoints of the call are IPv4. -/
def Call.isIpv4 (c : Call) : Bool :=
  match c.src.ip, c.dst.ip with
  | .v4 _, .v4 _ => true
  | _, _ => false

/-- A call whose write succeeds. -/
def append (profile : Profile) (w : PcapWriter) (c : Call) : PcapWriter × Res Empty (Option ℕ) :=
  w.appendUdp profile .ok c.ts c.src c.dst c.payload

/-- The writer after a sequence of calls whose writes succeed. -/
def run (profile : Profile) (w : PcapWriter) (cs : List Call) : PcapWriter :=
  Machine.run (fun w c => (w.append profile c).1) w cs

end PcapWriter

/-- A UDP datagram in a pcap file. -/
structure Packet where
  /-- The time stamp, in microseconds from the epoch. -/
  micros : ℕ
  /-- The source. -/
  src : SocketAddr
  /-- The destination. -/
  dst : SocketAddr
  /-- The payload. -/
  payload : List UInt8
  deriving DecidableEq, Repr

namespace PcapReader

open Reader

/-- An IPv4 address. -/
def readIpv4Addr : Reader UInt8 Ipv4Addr := do
  let a ← elem
  let b ← elem
  let c ← elem
  let d ← elem
  return ⟨a, b, c, d⟩

/-- The ports and the payload of a UDP datagram, as long as its header says. -/
def readUdp : Reader UInt8 (UInt16 × UInt16 × List UInt8) := do
  let srcPort ← u16be
  let dstPort ← u16be
  let udpLen ← u16be
  let _checksum ← u16be
  require (8 ≤ udpLen.toNat)
  let payload ← takeN (udpLen.toNat - 8)
  return (srcPort, dstPort, payload)

/-- An IPv4 packet with a UDP datagram, after its length. -/
def readIpv4 : Reader UInt8 (SocketAddr × SocketAddr × List UInt8) := do
  let _identification ← u16be
  let _fragment ← u16be
  let _ttl ← elem
  let protocol ← elem
  require (protocol = 17)
  let _checksum ← u16be
  let src4 ← readIpv4Addr
  let dst4 ← readIpv4Addr
  let udp ← readUdp
  return (⟨.v4 src4, udp.1⟩, ⟨.v4 dst4, udp.2.1⟩, udp.2.2)

/-- An Ethernet frame with an IPv4 packet, all of which belongs to the packet. -/
def readFrame : Reader UInt8 (SocketAddr × SocketAddr × List UInt8) := do
  let _dstMac ← takeN 6
  let _srcMac ← takeN 6
  let etherType ← u16be
  require (etherType = 0x0800)
  let versionIhl ← elem
  require (versionIhl = 0x45)
  let _tos ← elem
  let ipLen ← u16be
  require (20 ≤ ipLen.toNat)
  inside (ipLen.toNat - 4) readIpv4

/-- A record: its frame is as long as the record header says, and was captured as a whole. -/
def readRecord : Reader UInt8 Packet := do
  let secs ← u32le
  let micros ← u32le
  let inclLen ← u32le
  let origLen ← u32le
  require (inclLen = origLen)
  let frame ← inside inclLen.toNat readFrame
  return ⟨secs.toNat * 10 ^ 6 + micros.toNat, frame.1, frame.2.1, frame.2.2⟩

/-- The header of a little-endian file of Ethernet frames. -/
def readHeader : Reader UInt8 Unit := do
  let magic ← u32le
  require (magic = 0xa1b2c3d4)
  let major ← u16le
  require (major = 2)
  let _minor ← u16le
  let _timezone ← u32le
  let _sigfigs ← u32le
  let _snaplen ← u32le
  let linktype ← u32le
  require (linktype = 1)

/-- The datagrams of a file. -/
def readFile (file : List UInt8) : Option (List Packet) := do
  let (_, records) ← readHeader.run file
  readAll readRecord records

/-- The octets of an address are read back. -/
theorem reads_ipv4Addr (ip : Ipv4Addr) : Reads readIpv4Addr ip.octets ip := fun _ => rfl

/-- A UDP datagram whose length field is its length is read back. -/
theorem reads_udp (srcPort dstPort : UInt16) {udpLen : UInt16} {payload : List UInt8}
    (h : udpLen.toNat = 8 + payload.length) :
    Reads readUdp (udpHeader srcPort dstPort udpLen ++ payload) (srcPort, dstPort, payload) := by
  unfold readUdp udpHeader
  simp only [List.append_assoc]
  refine (reads_u16be srcPort).bind ?_
  refine (reads_u16be dstPort).bind ?_
  refine (reads_u16be udpLen).bind ?_
  refine (reads_u16be 0).bind ?_
  refine Reads.require (by omega) ?_
  exact (reads_takeN (by omega)).map

/-- An IPv4 packet with a UDP datagram whose length field is the length of the payload is read
back, after its length. -/
theorem reads_ipv4 (src4 dst4 : Ipv4Addr) (srcPort dstPort : UInt16) {udpLen : UInt16}
    {payload : List UInt8} (h : udpLen.toNat = 8 + payload.length) :
    Reads readIpv4 (toBe16 0 ++ toBe16 0 ++ [254] ++ [17] ++ toBe16 0 ++ src4.octets ++
        dst4.octets ++ (udpHeader srcPort dstPort udpLen ++ payload))
      (⟨.v4 src4, srcPort⟩, ⟨.v4 dst4, dstPort⟩, payload) := by
  unfold readIpv4
  simp only [List.append_assoc]
  refine (reads_u16be 0).bind ?_
  refine (reads_u16be 0).bind ?_
  refine (reads_elem 254).bind ?_
  refine (reads_elem 17).bind ?_
  refine Reads.require rfl ?_
  refine (reads_u16be 0).bind ?_
  refine (reads_ipv4Addr src4).bind ?_
  refine (reads_ipv4Addr dst4).bind ?_
  exact (reads_udp srcPort dstPort h).map

/-- The frame of a record is read back. -/
theorem reads_frame (src4 dst4 : Ipv4Addr) (srcPort dstPort : UInt16) {l : Lengths}
    {payload : List UInt8} (hudp : l.udp.toNat = 8 + payload.length)
    (hip : l.ip.toNat = 28 + payload.length) :
    Reads readFrame (ethernetHeader src4 dst4 ++ ipv4Header l.ip src4 dst4 ++
        udpHeader srcPort dstPort l.udp ++ payload)
      (⟨.v4 src4, srcPort⟩, ⟨.v4 dst4, dstPort⟩, payload) := by
  -- What is inside the total length of the IPv4 header, after its first four bytes.
  have hinside : Reads (inside (l.ip.toNat - 4) readIpv4) _ _ :=
    (reads_ipv4 src4 dst4 srcPort dstPort hudp).inside (by
      simp only [udpHeader, Ipv4Addr.octets, List.length_append, toBe16_length, List.length_cons,
        List.length_nil]
      omega)
  simp only [List.append_assoc] at hinside
  unfold readFrame ethernetHeader ipv4Header
  simp only [List.append_assoc]
  refine (@reads_takeN UInt8 6 [0x02, 0x00, 0x00, dst4.b, dst4.c, dst4.d] rfl).bind ?_
  refine (@reads_takeN UInt8 6 [0x02, 0x00, 0x00, src4.b, src4.c, src4.d] rfl).bind ?_
  refine (reads_u16be 0x0800).bind ?_
  refine Reads.require rfl ?_
  refine (reads_elem 0x45).bind ?_
  refine Reads.require rfl ?_
  refine (reads_elem 0).bind ?_
  refine (reads_u16be l.ip).bind ?_
  refine Reads.require (by omega) ?_
  exact hinside

/-- The time stamp of a record, in microseconds: the seconds are a `u32`. -/
def stampMicros (age : ℕ) : ℕ :=
  (UInt32.ofNat (age / 10 ^ 9)).toNat * 10 ^ 6 + (UInt32.ofNat (age % 10 ^ 9 / 1000)).toNat

/-- Before `2^32` seconds, the two parts of the time stamp add up to its microseconds. -/
theorem stampMicros_eq {age : ℕ} (h : age < 2 ^ 32 * 10 ^ 9) : stampMicros age = age / 1000 := by
  rw [stampMicros, UInt32.toNat_ofNat', UInt32.toNat_ofNat']
  omega

/-- From the epoch on, and before `2^32` seconds, they are those of the time. -/
theorem stampMicros_age {ts : SystemTime} (hnonneg : 0 ≤ ts.nanos)
    (hlt : ts.nanos < 2 ^ 32 * 10 ^ 9) : stampMicros ts.age = (ts.nanos / 1000).toNat := by
  have hage : ts.age = ts.nanos.toNat := rfl
  rw [stampMicros_eq (by omega)]
  omega

/-- A record whose lengths are exact is read back. -/
theorem reads_record (age : ℕ) (src4 dst4 : Ipv4Addr) (srcPort dstPort : UInt16) {l : Lengths}
    {payload : List UInt8} (hudp : l.udp.toNat = 8 + payload.length)
    (hip : l.ip.toNat = 28 + payload.length) (hframe : l.frame.toNat = 42 + payload.length) :
    Reads readRecord (record age l src4 srcPort dst4 dstPort payload)
      ⟨stampMicros age, ⟨.v4 src4, srcPort⟩, ⟨.v4 dst4, dstPort⟩, payload⟩ := by
  have hlength := record_length age l src4 srcPort dst4 dstPort payload
  have hinside : Reads (inside l.frame.toNat readFrame) _ _ :=
    (reads_frame src4 dst4 srcPort dstPort hudp hip).inside (by
      simp only [record, recordHeader, List.length_append, toLe32_length] at hlength ⊢
      omega)
  have hmap := hinside.map (f := fun frame =>
    (⟨stampMicros age, frame.1, frame.2.1, frame.2.2⟩ : Packet))
  simp only [List.append_assoc] at hmap
  unfold readRecord record recordHeader
  simp only [List.append_assoc]
  refine (reads_u32le _).bind ?_
  refine (reads_u32le _).bind ?_
  refine (reads_u32le l.frame).bind ?_
  refine (reads_u32le l.frame).bind ?_
  refine Reads.require rfl ?_
  exact hmap

/-- A region of fewer bytes than an Ethernet header has no frame. -/
theorem readFrame_short {s : List UInt8} (h : s.length < 14) : readFrame.run s = none := by
  have htake (n : ℕ) (t : List UInt8) : (takeN n).run t =
      if n ≤ t.length then some (t.take n, t.drop n) else none := rfl
  unfold readFrame
  rw [StateT.run_bind, htake]
  split_ifs with h6
  · show ((takeN 6).run (s.drop 6) >>= _) = none
    rw [htake, List.length_drop]
    split_ifs with h12
    · -- At most one byte of the type is left.
      have hrest : ((s.drop 6).drop 6).length < 2 := by
        rw [List.length_drop, List.length_drop]
        omega
      have htype : u16be.run ((s.drop 6).drop 6) = none := by
        match (s.drop 6).drop 6, hrest with
        | [], _ => rfl
        | [_], _ => rfl
        | _ :: _ :: _, h => exact absurd h (by simp)
      show (u16be.run ((s.drop 6).drop 6) >>= _) = none
      rw [htype]
      rfl
    · rfl
  · rfl

/-- A record that says that its frame is shorter than an Ethernet header is not read. -/
theorem readRecord_short (age : ℕ) {l : Lengths} (h : l.frame.toNat < 14) (src4 : Ipv4Addr)
    (srcPort : UInt16) (dst4 : Ipv4Addr) (dstPort : UInt16) (payload rest : List UInt8) :
    readRecord.run (record age l src4 srcPort dst4 dstPort payload ++ rest) = none := by
  unfold readRecord record recordHeader
  simp only [List.append_assoc]
  refine (reads_u32le _).bind_none ?_
  refine (reads_u32le _).bind_none ?_
  refine (reads_u32le l.frame).bind_none ?_
  refine (reads_u32le l.frame).bind_none ?_
  have hinside := @inside_none UInt8 _ readFrame l.frame.toNat
    fun s hs => readFrame_short (lt_of_le_of_lt hs h)
  rw [StateT.run_bind]
  show ((if l.frame = l.frame then some ((), _) else none) >>= _) = none
  rw [if_pos rfl]
  show (((inside l.frame.toNat readFrame).run _) >>= _) = none
  rw [hinside]
  rfl

/-! ## The length of what is read -/

/-- An address has four octets. -/
theorem takes_ipv4Addr : Takes readIpv4Addr fun _ n => n = 4 :=
  takes_elem.skip fun _ => takes_elem.skip fun _ => takes_elem.skip fun _ =>
    takes_elem.skip fun _ => (takes_pure _).mono fun _ _ h => by rw [h.2]

/-- A datagram is its header and its payload. -/
theorem takes_udp : Takes readUdp fun v n => n = 8 + v.2.2.length := by
  unfold readUdp
  refine takes_u16be.skip fun _ => ?_
  refine takes_u16be.skip fun _ => ?_
  refine takes_u16be.skip fun udpLen => ?_
  refine takes_u16be.skip fun _ => ?_
  refine Takes.require fun _ => ?_
  refine (takes_takeN _).bind fun payload n ⟨hpayload, hn⟩ => (takes_pure _).mono ?_
  rintro v m ⟨rfl, rfl⟩
  dsimp only
  omega

/-- After its length, a packet has 16 bytes before the datagram. -/
theorem takes_ipv4 : Takes readIpv4 fun v n => n = 24 + v.2.2.length := by
  unfold readIpv4
  refine takes_u16be.skip fun _ => ?_
  refine takes_u16be.skip fun _ => ?_
  refine takes_elem.skip fun _ => ?_
  refine takes_elem.skip fun _ => ?_
  refine Takes.require fun _ => ?_
  refine takes_u16be.skip fun _ => ?_
  refine takes_ipv4Addr.skip fun _ => ?_
  refine takes_ipv4Addr.skip fun _ => ?_
  refine takes_udp.bind fun udp n hn => (takes_pure _).mono ?_
  rintro v m ⟨rfl, rfl⟩
  dsimp only
  omega

/-- A frame has 42 bytes before the payload. -/
theorem takes_frame : Takes readFrame fun v n => n = 42 + v.2.2.length := by
  unfold readFrame
  refine (takes_takeN 6).bind fun _ n ⟨_, hn⟩ => ?_
  refine (takes_takeN 6).bind fun _ m ⟨_, hm⟩ => ?_
  refine takes_u16be.skip fun _ => ?_
  refine Takes.require fun _ => ?_
  refine takes_elem.skip fun _ => ?_
  refine Takes.require fun _ => ?_
  refine takes_elem.skip fun _ => ?_
  refine takes_u16be.skip fun ipLen => ?_
  refine Takes.require fun _ => ?_
  refine (takes_ipv4.inside _).mono fun v k ⟨hk, hv⟩ => ?_
  omega

/-- The payload of a record is 42 bytes shorter than the record says of its frame. -/
theorem readRecord_payload {age : ℕ} {l : Lengths} {src4 dst4 : Ipv4Addr}
    {srcPort dstPort : UInt16} {payload rest left : List UInt8} {p : Packet}
    (h : readRecord.run (record age l src4 srcPort dst4 dstPort payload ++ rest) = some (p, left)) :
    p.payload.length + 42 = l.frame.toNat := by
  unfold readRecord record recordHeader at h
  simp only [List.append_assoc] at h
  rw [(reads_u32le _).run_bind, (reads_u32le _).run_bind, (reads_u32le l.frame).run_bind,
    (reads_u32le l.frame).run_bind] at h
  -- What is left of the reader is the frame.
  have htakes : Takes (do
      require (l.frame = l.frame)
      let frame ← inside l.frame.toNat readFrame
      return (⟨stampMicros age, frame.1, frame.2.1, frame.2.2⟩ : Packet))
      fun p _ => p.payload.length + 42 = l.frame.toNat := by
    refine Takes.require fun _ => (takes_frame.inside _).bind fun v n ⟨_, hv⟩ =>
      (takes_pure _).mono ?_
    rintro p m ⟨rfl, -⟩
    dsimp only
    omega
  obtain ⟨-, -, hp⟩ := htakes _ _ _ h
  exact hp

/-- The header of a file is read. -/
theorem reads_header : Reads readHeader PcapWriter.fileHeader () := fun _ => rfl

/-- A file with a header and encoded records is read back. -/
theorem readFile_append {ι : Type} {enc : ι → List UInt8} {dec : ι → Packet} {xs : List ι}
    (h : ∀ i ∈ xs, enc i ≠ [] ∧ Reads readRecord (enc i) (dec i)) :
    readFile (PcapWriter.fileHeader ++ xs.flatMap enc) = some (xs.map dec) := by
  unfold readFile
  rw [reads_header]
  exact readAll_flatMap h

end PcapReader

namespace PcapWriter

/-- The time stamp of the call is one that a record can hold, and its payload leaves room for the
headers. -/
structure Call.InRange (c : Call) : Prop where
  /-- From the epoch on. -/
  nanos_nonneg : 0 ≤ c.ts.nanos
  /-- Before `2^32` seconds. -/
  nanos_lt : c.ts.nanos < 2 ^ 32 * 10 ^ 9
  /-- The bound of `appendUdp_lengthsExact_iff`. -/
  length_le : c.payload.length ≤ 65493

/-- What a reader should find of the call. -/
def Call.packet (c : Call) : Packet := ⟨(c.ts.nanos / 1000).toNat, c.src, c.dst, c.payload⟩

/-- The bytes that the call appends. -/
def Call.bytes (profile : Profile) (c : Call) : List UInt8 :=
  match c.src.ip, c.dst.ip, lengths profile c.payload.length with
  | .v4 src4, .v4 dst4, .ok l => record c.ts.age l src4 c.src.port dst4 c.dst.port c.payload
  | _, _, _ => []

/-- A call with an IPv6 endpoint returns `None` and changes nothing. -/
theorem append_of_not_isIpv4 (profile : Profile) (w : PcapWriter) {c : Call}
    (h : c.isIpv4 = false) : w.append profile c = (w, .ok none) := by
  obtain ⟨ts, ⟨srcIp, srcPort⟩, ⟨dstIp, dstPort⟩, payload⟩ := c
  cases srcIp with
  | v6 src6 => rfl
  | v4 src4 =>
    cases dstIp with
    | v6 dst6 => rfl
    | v4 dst4 => cases h

/-- The parts of a call with IPv4 endpoints. -/
theorem Call.exists_v4 {c : Call} (h : c.isIpv4 = true) :
    ∃ ts src4 srcPort dst4 dstPort payload,
      c = ⟨ts, ⟨.v4 src4, srcPort⟩, ⟨.v4 dst4, dstPort⟩, payload⟩ := by
  obtain ⟨ts, ⟨srcIp, srcPort⟩, ⟨dstIp, dstPort⟩, payload⟩ := c
  cases srcIp with
  | v6 src6 => cases h
  | v4 src4 =>
    cases dstIp with
    | v6 dst6 => cases h
    | v4 dst4 => exact ⟨ts, src4, srcPort, dst4, dstPort, payload, rfl⟩

/-- A call with IPv4 endpoints appends one record and returns the number of records. -/
theorem append_of_isIpv4 {profile : Profile} {w : PcapWriter} (hw : w.poisoned = false) {c : Call}
    (h : c.isIpv4 = true) {l : Lengths} (hl : lengths profile c.payload.length = .ok l) :
    w.append profile c = ({ w with file := w.file ++ c.bytes profile, count := w.count + 1 },
      .ok (some (w.count + 1))) := by
  obtain ⟨ts, src4, srcPort, dst4, dstPort, payload, rfl⟩ := Call.exists_v4 h
  simp only [append, Call.bytes, appendUdp_v4 hw hl, hl]

/-- A call with IPv4 endpoints either has its lengths and a writer that takes it, or panics. -/
theorem append_cases (profile : Profile) (w : PcapWriter) {c : Call} (h : c.isIpv4 = true) :
    (w.poisoned = false ∧ ∃ l, lengths profile c.payload.length = .ok l ∧
      w.append profile c = ({ w with file := w.file ++ c.bytes profile, count := w.count + 1 },
        .ok (some (w.count + 1)))) ∨
    ((w.poisoned = true ∨ lengths profile c.payload.length = .panicked) ∧
      w.append profile c = ({ w with poisoned := true }, .panicked)) := by
  obtain ⟨ts, src4, srcPort, dst4, dstPort, payload, rfl⟩ := Call.exists_v4 h
  rcases appendUdp_v4_cases profile w ts src4 dst4 srcPort dstPort payload with
    ⟨hw, l, hl, -⟩ | hpanic
  · exact .inl ⟨hw, l, hl, append_of_isIpv4 hw h hl⟩
  · exact .inr hpanic

/-- What a reader finds of the call, whatever its time stamp. -/
def Call.stamped (c : Call) : Packet :=
  ⟨PcapReader.stampMicros c.ts.age, c.src, c.dst, c.payload⟩

/-- The time stamp of a call in range is read back. -/
theorem Call.stamped_eq {c : Call} (hc : c.InRange) : c.stamped = c.packet := by
  rw [Call.stamped, PcapReader.stampMicros_age hc.nanos_nonneg hc.nanos_lt, Call.packet]

/-- The bytes of a call with IPv4 endpoints are a record. -/
theorem Call.bytes_eq {profile : Profile} {c : Call} (h : c.isIpv4 = true) {l : Lengths}
    (hl : lengths profile c.payload.length = .ok l) :
    ∃ src4 dst4, c.src = ⟨.v4 src4, c.src.port⟩ ∧ c.dst = ⟨.v4 dst4, c.dst.port⟩ ∧
      c.bytes profile = record c.ts.age l src4 c.src.port dst4 c.dst.port c.payload := by
  obtain ⟨ts, src4, srcPort, dst4, dstPort, payload, rfl⟩ := Call.exists_v4 h
  exact ⟨src4, dst4, rfl, rfl, by simp only [Call.bytes, hl]⟩

/-- A record is not empty. -/
theorem Call.bytes_ne_nil {profile : Profile} {c : Call} (h : c.isIpv4 = true) {l : Lengths}
    (hl : lengths profile c.payload.length = .ok l) : c.bytes profile ≠ [] := by
  obtain ⟨src4, dst4, -, -, hbytes⟩ := Call.bytes_eq h hl
  intro hnil
  have hlength := record_length c.ts.age l src4 c.src.port dst4 c.dst.port c.payload
  rw [← hbytes, hnil, List.length_nil] at hlength
  omega

/-- A reader finds the call in its record, if the record is not too long. -/
theorem Call.reads_bytes (profile : Profile) {c : Call} (h : c.isIpv4 = true)
    (hc : c.payload.length ≤ 65493) :
    Reader.Reads PcapReader.readRecord (c.bytes profile) c.stamped := by
  obtain ⟨l, hl, hudp, hip, hframe⟩ := lengths_eq profile hc
  obtain ⟨src4, dst4, hsrc, hdst, hbytes⟩ := Call.bytes_eq h hl
  rw [hbytes, Call.stamped, hsrc, hdst]
  exact PcapReader.reads_record c.ts.age src4 dst4 c.src.port c.dst.port hudp hip hframe

/-- A record that is too long, of a datagram that can be received, is not read. -/
theorem Call.run_bytes_none {profile : Profile} {c : Call} (h : c.isIpv4 = true) {l : Lengths}
    (hl : lengths profile c.payload.length = .ok l) (hlt : 65493 < c.payload.length)
    (hle : c.payload.length ≤ 65507) (rest : List UInt8) :
    PcapReader.readRecord.run (c.bytes profile ++ rest) = none := by
  obtain ⟨src4, dst4, -, -, hbytes⟩ := Call.bytes_eq h hl
  have hframe := lengths_frame hl
  rw [hbytes]
  exact PcapReader.readRecord_short c.ts.age (by omega) src4 c.src.port dst4 c.dst.port c.payload
    rest

/-- A file with the record of one call is read back as the call exactly when the record is not too
long. -/
theorem Call.readFile_bytes_iff {profile : Profile} {c : Call} (h : c.isIpv4 = true) {l : Lengths}
    (hl : lengths profile c.payload.length = .ok l) :
    PcapReader.readFile (fileHeader ++ c.bytes profile) = some [c.stamped] ↔
      c.payload.length ≤ 65493 := by
  constructor
  · intro hread
    rw [PcapReader.readFile, PcapReader.reads_header] at hread
    change Reader.readAll PcapReader.readRecord (c.bytes profile) = some [c.stamped] at hread
    obtain ⟨b, bs, hcons⟩ := List.exists_cons_of_ne_nil (Call.bytes_ne_nil h hl)
    rw [Reader.readAll, hcons, List.length_cons, Reader.readLoop, ← hcons] at hread
    obtain ⟨⟨p, left⟩, hrecord, hrest⟩ := Option.bind_eq_some_iff.mp hread
    obtain ⟨ps, -, hps⟩ := Option.bind_eq_some_iff.mp hrest
    obtain ⟨rfl, -⟩ := List.cons_eq_cons.mp (Option.some.inj hps)
    -- The payload that is read is as long as the frame says.
    obtain ⟨src4, dst4, -, -, hbytes⟩ := Call.bytes_eq h hl
    rw [hbytes, ← List.append_nil (record _ _ _ _ _ _ _)] at hrecord
    have hlength := PcapReader.readRecord_payload hrecord
    have hframe := lengths_frame hl
    have hpayload : c.stamped.payload = c.payload := rfl
    rw [hpayload] at hlength
    omega
  · intro hle
    have hreads : ∀ c' ∈ [c], c'.bytes profile ≠ [] ∧
        Reader.Reads PcapReader.readRecord (c'.bytes profile) c'.stamped := by
      intro c' hc'
      rw [List.mem_singleton.mp hc']
      exact ⟨Call.bytes_ne_nil h hl, Call.reads_bytes profile h hle⟩
    have hfile := PcapReader.readFile_append hreads
    rwa [List.flatMap_singleton, List.map_singleton] at hfile

/-- The writer after a sequence of calls that are all in range: its file has the records of the
IPv4 calls, and its count is their number. -/
theorem run_new (profile : Profile) {cs : List Call} (h : ∀ c ∈ cs, c.InRange) :
    new.run profile cs =
      ⟨fileHeader ++ (cs.filter Call.isIpv4).flatMap (Call.bytes profile),
        (cs.filter Call.isIpv4).length, false⟩ := by
  revert h
  refine @Machine.run_history _ _ (fun w c => (w.append profile c).1)
    (fun cs w => (∀ c ∈ cs, c.InRange) →
      w = ⟨fileHeader ++ (cs.filter Call.isIpv4).flatMap (Call.bytes profile),
        (cs.filter Call.isIpv4).length, false⟩) ?_ new (fun _ => rfl) cs
  · intro cs w c ih hall
    have hw := ih fun c' hc' => hall c' (List.mem_append_left _ hc')
    have hc := hall c (List.mem_append_right _ List.mem_cons_self)
    rw [List.filter_append, List.flatMap_append, List.length_append]
    cases h4 : c.isIpv4 with
    | false =>
      rw [append_of_not_isIpv4 profile w h4, List.filter_cons_of_neg (by simp [h4])]
      simpa using hw
    | true =>
      obtain ⟨l, hl, -⟩ := lengths_eq profile hc.length_le
      rw [append_of_isIpv4 (by rw [hw]) h4 hl, List.filter_cons_of_pos h4, hw]
      simp

/-- The file round-trips: it is read back as the calls with IPv4 endpoints, in order and with
nothing left over; a call with an IPv6 endpoint returns `None` and changes nothing; and the `k`-th
other one returns `k`. -/
theorem new_run_readFile (profile : Profile) {cs : List Call} (h : ∀ c ∈ cs, c.InRange) :
    PcapReader.readFile (new.run profile cs).file =
      some ((cs.filter Call.isIpv4).map Call.packet) ∧
    ∀ before c after, cs = before ++ c :: after →
      let w := new.run profile before
      (c.isIpv4 = false → w.append profile c = (w, .ok none)) ∧
      (c.isIpv4 = true →
        (w.append profile c).2 = .ok (some ((before.filter Call.isIpv4).length + 1))) := by
  constructor
  · rw [run_new profile h]
    apply PcapReader.readFile_append
    intro c hc
    obtain ⟨hmem, h4⟩ := List.mem_filter.mp hc
    obtain ⟨l, hl, -⟩ := lengths_eq profile (h c hmem).length_le
    rw [← Call.stamped_eq (h c hmem)]
    exact ⟨Call.bytes_ne_nil h4 hl, Call.reads_bytes profile h4 (h c hmem).length_le⟩
  · rintro before c after rfl w
    have hw : w = _ := run_new profile fun c' hc' => h c' (List.mem_append_left _ hc')
    refine ⟨append_of_not_isIpv4 profile w, fun h4 => ?_⟩
    obtain ⟨l, hl, -⟩ :=
      lengths_eq profile (h c (List.mem_append_right _ List.mem_cons_self)).length_le
    rw [append_of_isIpv4 (by rw [hw]) h4 hl, hw]

/-- One datagram between IPv4 addresses and one from an IPv6 address: the file has the first. -/
theorem new_run_readFile_two :
    let mixed : List Call :=
      [⟨⟨1_700_000_000_250_000_000⟩, ⟨.v4 ⟨192, 168, 1, 9⟩, 1900⟩, ⟨.v4 ⟨127, 0, 0, 1⟩, 1024⟩,
          [0x68, 0x69]⟩,
        ⟨⟨0⟩, ⟨.v6 Ipv6Addr.unspecified, 1⟩, ⟨.v4 ⟨127, 0, 0, 1⟩, 2⟩, [0x78]⟩]
    PcapReader.readFile (new.run .release mixed).file =
      some [⟨1_700_000_000_250_000, ⟨.v4 ⟨192, 168, 1, 9⟩, 1900⟩, ⟨.v4 ⟨127, 0, 0, 1⟩, 1024⟩,
        [0x68, 0x69]⟩] := by
  intro mixed
  have hrange : ∀ c ∈ mixed, c.InRange := by
    intro c hc
    rcases List.mem_pair.mp hc with rfl | rfl
    · exact ⟨by decide, by decide, by decide⟩
    · exact ⟨by decide, by decide, by decide⟩
  exact (new_run_readFile .release hrange).1

/-- A file has at least 58 bytes for each record, so that the count cannot overflow before the file
is longer than any file can be. -/
theorem count_le {profile : Profile} {w : PcapWriter} (h : 58 * w.count ≤ w.file.length)
    (io : WriteAll) (c : Call) :
    let w' := (w.appendUdp profile io c.ts c.src c.dst c.payload).1
    58 * w'.count ≤ w'.file.length := by
  obtain ⟨ts, ⟨srcIp, srcPort⟩, ⟨dstIp, dstPort⟩, payload⟩ := c
  unfold appendUdp
  dsimp only
  split
  · rename_i src4 dst4
    split_ifs
    · exact h
    · split
      · exact h
      · rename_i e _
        exact e.elim
      · rename_i l _
        -- A record has at least 58 bytes, and a write that fails is not counted.
        have hlength := record_length ts.age l src4 srcPort dst4 dstPort payload
        cases io with
        | ok =>
          simp only [List.length_append]
          omega
        | err written =>
          simp only [List.length_append]
          omega
  · exact h

end PcapWriter

end Uscan
