import Uscan.Lib.Buffer
import Uscan.Net.Addr
import Uscan.Protocols.Common

/-!
# ARP frames

`arp/frame.rs`: the frames that ask for the hardware address of an IPv4 address and that answer such
a question, in an Ethernet frame of 42 bytes. A built frame reads back as what it was built from
(`parse_buildRequest`, `parse_buildReply`), and a frame is read exactly if it is long enough and of
the type of ARP (`parse_cases`); nothing else of it is checked.
-/

namespace Uscan

namespace Arp

/-- A hardware address. -/
abbrev Mac := Buffer UInt8 6

/-- `ETH_ARP`. -/
def ethArp : UInt16 := 0x0806

/-- `ARP_OP_REQUEST`. -/
def opRequest : UInt16 := 1

/-- `ARP_OP_REPLY`. -/
def opReply : UInt16 := 2

/-- `FRAME_LEN`. -/
def frameLen : ℕ := 14 + 28

/-- `ArpFrame`. -/
structure ArpFrame where
  /-- The operation. -/
  op : UInt16
  /-- The hardware address of the sender. -/
  srcMac : Mac
  /-- The address of the sender. -/
  senderIp : Ipv4Addr
  /-- The hardware address of the target. -/
  targetMac : Mac
  /-- The address of the target. -/
  targetIp : Ipv4Addr

/-- `build`. -/
def build (op : UInt16) (srcMac : Mac) (senderIp : Ipv4Addr) (targetMac : Mac)
    (targetIp : Ipv4Addr) : Res Empty (Buffer UInt8 frameLen) := do
  let f := Buffer.filled frameLen 0
  let f ← f.copyFromSlice 6 12 srcMac.elems
  let f ← f.setAt 12 0x08
  let f ← f.setAt 13 0x06
  -- The hardware is Ethernet, and the protocol is IPv4.
  let f ← f.copyFromSlice 14 16 (toBe16 1)
  let f ← f.copyFromSlice 16 18 (toBe16 0x0800)
  let f ← f.setAt 18 6
  let f ← f.setAt 19 4
  let f ← f.copyFromSlice 20 22 (toBe16 op)
  let f ← f.copyFromSlice 22 28 srcMac.elems
  let f ← f.copyFromSlice 28 32 senderIp.octets
  let f ← f.copyFromSlice 32 38 targetMac.elems
  f.copyFromSlice 38 42 targetIp.octets

/-- `build_request`, to all hosts. -/
def buildRequest (srcMac : Mac) (senderIp targetIp : Ipv4Addr) :
    Res Empty (Buffer UInt8 frameLen) := do
  let f ← build opRequest srcMac senderIp (Buffer.filled 6 0) targetIp
  f.copyFromSlice 0 6 (List.replicate 6 0xFF)

/-- `build_reply`, to the host that has asked. -/
def buildReply (srcMac : Mac) (senderIp : Ipv4Addr) (targetMac : Mac) (targetIp : Ipv4Addr) :
    Res Empty (Buffer UInt8 frameLen) := do
  let f ← build opReply srcMac senderIp targetMac targetIp
  f.copyFromSlice 0 6 targetMac.elems

/-- The hardware address of six bytes. -/
def macOfBytes (b0 b1 b2 b3 b4 b5 : UInt8) : Mac := ⟨[b0, b1, b2, b3, b4, b5], rfl⟩

/-- The hardware address at offset `i`. -/
def macBytesAt (data : List UInt8) (i : ℕ) : Res Empty Mac := do
  let b0 ← index data i
  let b1 ← index data (i + 1)
  let b2 ← index data (i + 2)
  let b3 ← index data (i + 3)
  let b4 ← index data (i + 4)
  let b5 ← index data (i + 5)
  return macOfBytes b0 b1 b2 b3 b4 b5

/-- `parse`. -/
def parse (frame : List UInt8) : Res Empty (Option ArpFrame) :=
  if frame.length < frameLen then .ok none
  else do
    let ethertype ← be16At frame 12
    if ethertype ≠ ethArp then return none
    else
      let p ← subslice frame 14 frame.length
      let op ← be16At p 6
      let srcMac ← macBytesAt p 8
      let senderIp ← ipv4At p 14
      let targetMac ← macBytesAt p 18
      let targetIp ← ipv4At p 24
      return some { op, srcMac, senderIp, targetMac, targetIp }

/-- `is_garp`. -/
def isGarp (f : ArpFrame) : Bool := f.op == opRequest && f.senderIp == f.targetIp

/-! ## Reading -/

/-- The fields of a frame by their offsets. -/
def ArpFrame.fields (p : ArpFrame) : List (ℕ × List UInt8) :=
  [(12, toBe16 ethArp), (20, toBe16 p.op), (22, p.srcMac.elems), (28, p.senderIp.octets),
    (32, p.targetMac.elems), (38, p.targetIp.octets)]

/-- A frame carries what is read from it: it is long enough, and the fields stand in it. -/
structure Carries (frame : List UInt8) (p : ArpFrame) : Prop where
  /-- The frame is long enough. -/
  le : frameLen ≤ frame.length
  /-- The fields stand in it. -/
  stands : ∀ f ∈ p.fields, Stands frame f.1 f.2

/-- A hardware address is read where its bytes stand. -/
theorem macBytesAt_stands {data : List UInt8} {i : ℕ} {mac : Mac} (h : Stands data i mac.elems) :
    macBytesAt data i = .ok mac := by
  obtain ⟨elems, hlen⟩ := mac
  match elems, hlen with
  | [a, b, c, d, e, f], _ =>
    have hget (k : ℕ) (hk : k < 6) : data[i + k]? = some [a, b, c, d, e, f][k] := h.getElem? hk
    simp only [macBytesAt, index_of_getElem? h.head?, index_of_getElem? (hget 1 (by omega)),
      index_of_getElem? (hget 2 (by omega)), index_of_getElem? (hget 3 (by omega)),
      index_of_getElem? (hget 4 (by omega)), index_of_getElem? (hget 5 (by omega)), Res.ok_bind]
    rfl

/-- What a frame carries is read from it. -/
theorem Carries.parse_eq {frame : List UInt8} {p : ArpFrame} (h : Carries frame p) :
    parse frame = .ok (some p) := by
  obtain ⟨hle, hstands⟩ := h
  simp only [ArpFrame.fields, List.forall_mem_cons] at hstands
  obtain ⟨htype, hop, hsrc, hsender, hdst, htarget, -⟩ := hstands
  have hpart {i : ℕ} {x : List UInt8} (h : Stands frame (14 + i) x) :
      Stands (frame.drop 14) i x := by
    rwa [Stands, List.drop_drop]
  rw [parse, if_neg (not_lt.mpr hle), be16At_stands htype, Res.ok_bind, if_neg (not_not.mpr rfl),
    subslice_eq (Nat.le_trans (by decide) hle) le_rfl, Res.ok_bind, List.take_length,
    be16At_stands (hpart hop), Res.ok_bind, macBytesAt_stands (hpart hsrc), Res.ok_bind,
    ipv4At_stands (hpart hsender), Res.ok_bind, macBytesAt_stands (hpart hdst), Res.ok_bind,
    ipv4At_stands (hpart htarget)]
  rfl

/-- A number of bytes inside a frame stand there. -/
theorem exists_stands {frame : List UInt8} {i n : ℕ} (h : i + n ≤ frame.length) :
    ∃ x, x.length = n ∧ Stands frame i x := by
  obtain ⟨x, y, hdrop, hlen⟩ := exists_append_of_le h
  exact ⟨x, hlen, ⟨y, hdrop.symm⟩⟩

/-- Four bytes are the octets of an address. -/
theorem exists_octets {x : List UInt8} (h : x.length = 4) : ∃ ip : Ipv4Addr, x = ip.octets := by
  match x, h with
  | [a, b, c, d], _ => exact ⟨⟨a, b, c, d⟩, rfl⟩

/-- A long enough frame of the type of ARP carries something. -/
theorem exists_carries {frame : List UInt8} (hle : frameLen ≤ frame.length)
    (htype : Stands frame 12 (toBe16 ethArp)) : ∃ p, Carries frame p := by
  have hlen {n : ℕ} (hn : n ≤ 42) : n ≤ frame.length := hn.trans hle
  obtain ⟨op, -, hop⟩ := be16At_eq (i := 20) (hlen (by decide))
  obtain ⟨src, hsrcLen, hsrc⟩ :=
    exists_stands (i := 22) (n := 6) (hlen (by decide))
  obtain ⟨sender, hsenderLen, hsender⟩ :=
    exists_stands (i := 28) (n := 4) (hlen (by decide))
  obtain ⟨dst, hdstLen, hdst⟩ :=
    exists_stands (i := 32) (n := 6) (hlen (by decide))
  obtain ⟨target, htargetLen, htarget⟩ :=
    exists_stands (i := 38) (n := 4) (hlen (by decide))
  obtain ⟨senderIp, rfl⟩ := exists_octets hsenderLen
  obtain ⟨targetIp, rfl⟩ := exists_octets htargetLen
  refine ⟨⟨op, ⟨src, hsrcLen⟩, senderIp, ⟨dst, hdstLen⟩, targetIp⟩, hle, ?_⟩
  simp [ArpFrame.fields, *]

/-- A frame is read if and only if it is long enough and of the type of ARP, and what is read is
what it carries. Reading returns for every frame. -/
theorem parse_cases (frame : List UInt8) :
    (∃ p, parse frame = .ok (some p) ∧ Carries frame p) ∨
      parse frame = .ok none ∧ ∀ p, ¬ Carries frame p := by
  by_cases hle : frameLen ≤ frame.length
  · obtain ⟨ethertype, hread, hstands⟩ := be16At_eq (i := 12)
      (Nat.le_trans (by decide) hle : 12 + 2 ≤ frame.length)
    by_cases htype : ethertype = ethArp
    · obtain ⟨p, hp⟩ := exists_carries hle (htype ▸ hstands)
      exact .inl ⟨p, hp.parse_eq, hp⟩
    · have hnone : parse frame = .ok none := by
        rw [parse, if_neg (not_lt.mpr hle), hread, Res.ok_bind, if_pos htype]
        rfl
      refine .inr ⟨hnone, fun p hp => ?_⟩
      rw [hp.parse_eq] at hnone
      cases hnone
  · exact .inr ⟨if_pos (not_le.mp hle), fun p hp => hle hp.le⟩

/-- What is read from a frame is what it carries. -/
theorem parse_eq_some_iff {frame : List UInt8} {p : ArpFrame} :
    parse frame = .ok (some p) ↔ Carries frame p := by
  constructor
  · intro h
    rcases parse_cases frame with ⟨p', hp', hcarries⟩ | ⟨hnone, -⟩
    · rw [hp'] at h
      cases h
      exact hcarries
    · rw [hnone] at h
      cases h
  · exact Carries.parse_eq

/-! ## Building -/

section Build

variable (op : UInt16) (srcMac targetMac : Mac) (senderIp targetIp : Ipv4Addr)

/-- The writes of `build`. -/
def writes : List (ℕ × List UInt8) :=
  [(6, srcMac.elems), (12, [0x08]), (13, [0x06]), (14, toBe16 1), (16, toBe16 0x0800), (18, [6]),
    (19, [4]), (20, toBe16 op), (22, srcMac.elems), (28, senderIp.octets), (32, targetMac.elems),
    (38, targetIp.octets)]

/-- A frame is a zeroed buffer with the fields written into it. -/
theorem build_eq : build op srcMac senderIp targetMac targetIp =
    .ok ((Buffer.filled frameLen 0).writeAll (writes op srcMac targetMac senderIp targetIp)) := by
  have hsrc := srcMac.length_eq
  have htarget := targetMac.length_eq
  rw [build, Buffer.copyFromSlice_eq _ hsrc (by decide) (by decide), Res.ok_bind,
    Buffer.setAt_eq _ (by decide), Res.ok_bind, Buffer.setAt_eq _ (by decide), Res.ok_bind,
    Buffer.copyFromSlice_eq _ rfl (by decide) (by decide), Res.ok_bind,
    Buffer.copyFromSlice_eq _ rfl (by decide) (by decide), Res.ok_bind,
    Buffer.setAt_eq _ (by decide), Res.ok_bind, Buffer.setAt_eq _ (by decide), Res.ok_bind,
    Buffer.copyFromSlice_eq _ rfl (by decide) (by decide), Res.ok_bind,
    Buffer.copyFromSlice_eq _ hsrc (by decide) (by decide), Res.ok_bind,
    Buffer.copyFromSlice_eq _ rfl (by decide) (by decide), Res.ok_bind,
    Buffer.copyFromSlice_eq _ htarget (by decide) (by decide), Res.ok_bind,
    Buffer.copyFromSlice_eq _ rfl (by decide) (by decide)]
  rfl

variable {op srcMac targetMac senderIp targetIp}

/-- What a frame carries does not depend on its destination. -/
theorem carries_write {b : Buffer UInt8 frameLen} {dst : List UInt8} (hdst : dst.length = 6)
    (h : ∀ f ∈ writes op srcMac targetMac senderIp targetIp, Stands b.elems f.1 f.2) :
    Carries (b.write 0 dst).elems ⟨op, srcMac, senderIp, targetMac, targetIp⟩ := by
  have hstands {i : ℕ} {x : List UInt8} (hx : Stands b.elems i x) (hi : 6 ≤ i) :
      Stands (b.write 0 dst).elems i x := hx.overwrite (.inr (by omega))
  simp only [writes, List.forall_mem_cons] at h
  obtain ⟨-, htype, htype', -, -, -, -, hop, hsrc, hsender, htarget, htarget', -⟩ := h
  refine ⟨(Buffer.length_eq _).ge, ?_⟩
  simp only [ArpFrame.fields, List.forall_mem_cons]
  refine ⟨?_, hstands hop (by decide), hstands hsrc (by decide), hstands hsender (by decide),
    hstands htarget (by decide), hstands htarget' (by decide), by simp⟩
  -- The two bytes of the type are written one by one.
  exact hstands (stands_append.mpr ⟨htype, htype'⟩) (by decide)

/-- Each field of a built frame stands in it. -/
theorem stands_writes {f : ℕ × List UInt8}
    (hf : f ∈ writes op srcMac targetMac senderIp targetIp) :
    Stands ((Buffer.filled frameLen 0).writeAll
      (writes op srcMac targetMac senderIp targetIp)).elems f.1 f.2 := by
  have hsrc := srcMac.length_eq
  have htarget := targetMac.length_eq
  have hfields : List.Forall₂ InRange (writes op srcMac targetMac senderIp targetIp)
      [(6, 6), (12, 1), (13, 1), (14, 2), (16, 2), (18, 1), (19, 1), (20, 2), (22, 6), (28, 4),
        (32, 6), (38, 4)] := by
    simp [writes, InRange, Ipv4Addr.octets, *]
  refine Buffer.stands_writeAll hfields ?_ (by decide) hf
  unfold Ascending
  decide

/-- A built frame with a destination: it starts with the destination, and reads back as what it was
built from. -/
theorem exists_frame (op : UInt16) (srcMac targetMac : Mac) (senderIp targetIp : Ipv4Addr)
    {dst : List UInt8} (hdst : dst.length = 6) :
    ∃ f, (do let f ← build op srcMac senderIp targetMac targetIp; f.copyFromSlice 0 6 dst) = .ok f ∧
      Stands f.elems 0 dst ∧
      parse f.elems = .ok (some ⟨op, srcMac, senderIp, targetMac, targetIp⟩) := by
  obtain ⟨b, hb, hwrites⟩ : ∃ b, build op srcMac senderIp targetMac targetIp = .ok b ∧
      ∀ f ∈ writes op srcMac targetMac senderIp targetIp, Stands b.elems f.1 f.2 :=
    ⟨_, build_eq op srcMac targetMac senderIp targetIp, fun f hf => stands_writes hf⟩
  refine ⟨b.write 0 dst, ?_, stands_overwrite ?_, (carries_write hdst hwrites).parse_eq⟩
  · rw [hb, Res.ok_bind, Buffer.copyFromSlice_eq _ hdst (by decide) (by decide)]
  · rw [Buffer.length_eq, hdst]
    decide

end Build

/-- A request is sent to all hosts, and reads back as what it was built from, without a target. -/
theorem parse_buildRequest (srcMac : Mac) (senderIp targetIp : Ipv4Addr) :
    ∃ f, buildRequest srcMac senderIp targetIp = .ok f ∧ Stands f.elems 0 (List.replicate 6 0xFF) ∧
      parse f.elems = .ok (some ⟨opRequest, srcMac, senderIp, Buffer.filled 6 0, targetIp⟩) :=
  exists_frame opRequest srcMac (Buffer.filled 6 0) senderIp targetIp List.length_replicate

/-- A reply is sent to its target, and reads back as what it was built from. -/
theorem parse_buildReply (srcMac : Mac) (senderIp : Ipv4Addr) (targetMac : Mac)
    (targetIp : Ipv4Addr) :
    ∃ f, buildReply srcMac senderIp targetMac targetIp = .ok f ∧
      Stands f.elems 0 targetMac.elems ∧
      parse f.elems = .ok (some ⟨opReply, srcMac, senderIp, targetMac, targetIp⟩) :=
  exists_frame opReply srcMac targetMac senderIp targetIp targetMac.length_eq

/-- Every frame is read, and exactly what it carries: the other bytes do not count, and neither does
what follows the first 42 bytes. A request and a reply are built for all addresses, go to all hosts
and to the target, and read back as what they were built from; a request announces its own address
if and only if it asks about the sender, and a reply never does. -/
theorem frames_read_back (frame rest : List UInt8) (p : ArpFrame) :
    parse frame ≠ .panicked ∧ (parse frame = .ok (some p) ↔ Carries frame p) ∧
      (parse frame = .ok (some p) → parse (frame ++ rest) = .ok (some p)) ∧
      (∃ f, buildRequest p.srcMac p.senderIp p.targetIp = .ok f ∧
        Stands f.elems 0 (List.replicate 6 0xFF) ∧
        ∃ q, parse f.elems = .ok (some q) ∧ q.srcMac = p.srcMac ∧ q.senderIp = p.senderIp ∧
          q.targetIp = p.targetIp ∧ (isGarp q = true ↔ p.senderIp = p.targetIp)) ∧
      ∃ f, buildReply p.srcMac p.senderIp p.targetMac p.targetIp = .ok f ∧
        Stands f.elems 0 p.targetMac.elems ∧
        parse f.elems = .ok (some { p with op := opReply }) ∧
        isGarp { p with op := opReply } = false := by
  obtain ⟨request, hrequest, hbroadcast, hreadRequest⟩ :=
    parse_buildRequest p.srcMac p.senderIp p.targetIp
  obtain ⟨reply, hreply, hdst, hreadReply⟩ :=
    parse_buildReply p.srcMac p.senderIp p.targetMac p.targetIp
  refine ⟨?_, parse_eq_some_iff, fun h => ?_, ⟨request, hrequest, hbroadcast, _, hreadRequest, rfl,
    rfl, rfl, by simp [isGarp]⟩, reply, hreply, hdst, hreadReply, rfl⟩
  · rcases parse_cases frame with ⟨q, hq, -⟩ | ⟨hnone, -⟩
    · rw [hq]
      exact nofun
    · rw [hnone]
      exact nofun
  · obtain ⟨hle, hstands⟩ := parse_eq_some_iff.mp h
    refine Carries.parse_eq ⟨?_, fun f hf => (hstands f hf).longer rest⟩
    rw [List.length_append]
    exact hle.trans (Nat.le_add_right _ _)

end Arp

end Uscan
