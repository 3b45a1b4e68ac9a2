import Uscan.Lib.Buffer
import Uscan.Net.AddrText
import Uscan.Net.Iface
import Uscan.Protocols.Common
import Uscan.Protocols.Fixed
import Uscan.Protocols.Requests

/-!
# Answers that are C structures

The engines whose answers are read as a structure in memory: GigEVision, Hanwha, NiceVision,
Advantech, TVT and VStarcam. A text in a structure has a fixed width, and ends at its first NUL or
with the structure. An answer is written here as any background with the fields of a structure
written over it, so that the results say which bytes count (`GigEVision.parse_acknowledgement`,
`Hanwha.parse_structure`, `Tvt.parse_reply`, `parse_with_rest`).
-/

namespace Uscan

/-- A parser reports a datagram as one device if it has the property, and else not at all. -/
def ReportsOnce (parse : SocketAddr → List UInt8 → Res Empty (List Device))
    (p : List UInt8 → Prop) : Prop :=
  ∀ src data, (p data → ∃ d, parse src data = .ok [d]) ∧ (¬ p data → parse src data = .ok [])

/-! ## Texts of a fixed width -/

/-- A text that fits a field of `n` bytes. -/
structure FixedText (n : ℕ) where
  /-- The text. -/
  text : List Char
  /-- It has at most `n` bytes. -/
  byteLen_le : byteLen text ≤ n
  /-- It has no NUL. -/
  noNul : '\x00' ∉ text

namespace FixedText

variable {n : ℕ}

/-- The zeros after a text fill the field. -/
theorem length_bytes (f : FixedText n) :
    (utf8 f.text ++ List.replicate (n - byteLen f.text) 0).length = n := by
  have hle : (utf8 f.text).length ≤ n := f.byteLen_le
  rw [List.length_append, List.length_replicate, byteLen]
  omega

/-- The bytes of a field: the text, and zeros after it. -/
def bytes (f : FixedText n) : Buffer UInt8 n :=
  ⟨utf8 f.text ++ List.replicate (n - byteLen f.text) 0, f.length_bytes⟩

/-- The text before the first NUL is the text. -/
theorem cstring_bytes (f : FixedText n) : cstring f.bytes.elems = f.text := by
  have hnul : (0 : UInt8) ∉ utf8 f.text := by
    intro hmem
    obtain ⟨c, hc, hb⟩ := List.mem_flatMap.mp hmem
    have hne : c ≠ '\x00' := fun heq => f.noNul (heq ▸ hc)
    exact ne_of_mem_utf8EncodeChar (q := '\x00') (by decide) hne hb rfl
  have htake (k : ℕ) :
      (utf8 f.text ++ List.replicate k 0).takeWhile (· != 0) = utf8 f.text := by
    cases k with
    | zero => rw [List.replicate_zero, List.append_nil, (takeWhile_ne_of_notMem hnul).1]
    | succ k => rw [List.replicate_succ, (takeWhile_ne_append hnul _).1]
  rw [cstring, bytes, htake, fromUtf8Lossy_utf8]

end FixedText

/-- The text of a field that stands in a datagram is read. -/
theorem subslice_fixedText {n : ℕ} {data : List UInt8} {p : ℕ} {f : FixedText n} (hn : 0 < n)
    (h : Stands data p f.bytes.elems) :
    (subslice data p (p + n) : Res Empty (List UInt8)) = .ok f.bytes.elems := by
  have hne : f.bytes.elems ≠ [] := List.ne_nil_of_length_pos (by rw [f.bytes.length_eq]; exact hn)
  have hslice := h.subslice_eq (ε := Empty) hne
  rwa [f.bytes.length_eq] at hslice

/-- The octets of an address in reverse are its integer with the low byte first. -/
theorem Ipv4Addr.reverse_octets (ip : Ipv4Addr) : ip.octets.reverse = toLe32 ip.toU32 := by
  rw [toLe32, toU32, toBe32_be32]
  rfl

/-! ## GigEVision -/

namespace GigEVision

/-- `ACKN_SIZE`. -/
def acknSize : ℕ := 0x100

/-- `GigEVision::parse`. -/
def parse (src : SocketAddr) (data : List UInt8) : Res Empty (List Device) :=
  if data.length ≠ acknSize then .ok []
  else do
    let payloadLen ← be16At data 4
    if payloadLen ≠ UInt16.ofNat (data.length - 8) then return []
    else
      let _version ← be32At data 8
      let ipRaw ← le32At data 0x2C
      let mac ← macAt data 0x12
      let serial ← subslice data 0xE0 0xF0
      let vendor ← subslice data 0x50 0x70
      let model ← subslice data 0x70 0x90
      let model ←
        if cstring model = [] then cstring <$> subslice data 0xF0 0x100 else .ok (cstring model)
      return [{
        protocol := if cstring vendor = [] then "GigEVision".toList else cstring vendor
        version := 0
        -- The integer was read with the low byte first, and is written with the high byte first.
        ip := if ipRaw ≠ 0 then .v4 (.ofU32 ipRaw) else src.ip
        mac := mac
        deviceType := model
        serial := if cstring serial = [] then mac else cstring serial }]

/-- The fields of an answer that count. -/
structure Answer where
  /-- The hardware address. -/
  mac : Buffer UInt8 6
  /-- The address, or zeros. -/
  ip : Ipv4Addr
  /-- The manufacturer. -/
  manufacturer : FixedText 32
  /-- The model. -/
  model : FixedText 32
  /-- The serial number. -/
  serialNumber : FixedText 16
  /-- The name that a user has given. -/
  username : FixedText 16

/-- The bytes of an answer by their offsets. The address has its octets in reverse. -/
def Answer.fields (a : Answer) : List (ℕ × List UInt8) :=
  [(4, toBe16 0xF8), (0x12, a.mac.elems), (0x2C, a.ip.octets.reverse),
    (0x50, a.manufacturer.bytes.elems), (0x70, a.model.bytes.elems),
    (0xE0, a.serialNumber.bytes.elems), (0xF0, a.username.bytes.elems)]

/-- The device of an answer: without an address it is the sender, without a manufacturer it is one
of GigEVision, without a model it has the name for its type, and without a serial number its
hardware address for one. -/
def Answer.device (a : Answer) (src : SocketAddr) : Device where
  protocol := if a.manufacturer.text = [] then "GigEVision".toList else a.manufacturer.text
  version := 0
  ip := if a.ip = .unspecified then src.ip else .v4 a.ip
  mac := macText [':'] a.mac.elems
  deviceType := if a.model.text = [] then a.username.text else a.model.text
  serial := if a.serialNumber.text = [] then macText [':'] a.mac.elems else a.serialNumber.text

/-- The fields of an answer are apart and inside it. -/
theorem Answer.fields_inRange (a : Answer) :
    List.Forall₂ InRange a.fields
      [(4, 2), (0x12, 6), (0x2C, 4), (0x50, 32), (0x70, 32), (0xE0, 16), (0xF0, 16)] := by
  have hmac := a.mac.length_eq
  have hmanufacturer := a.manufacturer.bytes.length_eq
  have hmodel := a.model.bytes.length_eq
  have hserial := a.serialNumber.bytes.length_eq
  have husername := a.username.bytes.length_eq
  simp [fields, InRange, Ipv4Addr.octets, *]

/-- A field of an answer stands in it, on any background. -/
theorem Answer.stands (a : Answer) (background : Buffer UInt8 256) {f : ℕ × List UInt8}
    (hf : f ∈ a.fields) : Stands (background.writeAll a.fields).elems f.1 f.2 := by
  refine Buffer.stands_writeAll a.fields_inRange ?_ ?_ hf
  · unfold Ascending
    decide
  · decide

/-- A datagram with the fields of an answer in it is reported as the device of the answer. -/
theorem parse_of_fields {src : SocketAddr} {data : List UInt8} {a : Answer}
    (hlen : data.length = acknSize) (h : ∀ f ∈ a.fields, Stands data f.1 f.2) :
    parse src data = .ok [a.device src] := by
  simp only [Answer.fields, List.forall_mem_cons] at h
  obtain ⟨hpayload, hmac, hip, hvendor, hmodel, hserial, huser, -⟩ := h
  rw [Ipv4Addr.reverse_octets] at hip
  obtain ⟨version, hversion⟩ := be32At_eq_ok (i := 8)
    (show 8 + 3 < data.length by rw [hlen]; decide)
  have hzero : a.ip.toU32 = 0 ↔ a.ip = .unspecified := by
    rw [← UInt32.toNat_inj, ← Ipv4Addr.number_inj]
    rfl
  rw [parse, if_neg (by rw [hlen]; decide), be16At_stands hpayload, Res.ok_bind, hlen,
    if_neg (by decide), hversion, Res.ok_bind, le32At_stands hip, Res.ok_bind,
    macAt_stands a.mac.length_eq hmac, Res.ok_bind, subslice_fixedText (by decide) hserial,
    Res.ok_bind, subslice_fixedText (by decide) hvendor, Res.ok_bind,
    subslice_fixedText (by decide) hmodel, Res.ok_bind, subslice_fixedText (by decide) huser]
  have haddress : (if a.ip.toU32 ≠ 0 then .v4 (.ofU32 a.ip.toU32) else src.ip) =
      if a.ip = .unspecified then src.ip else IpAddr.v4 a.ip := by
    rw [Ipv4Addr.ofU32_toU32, ite_not, if_congr hzero rfl rfl]
  simp only [FixedText.cstring_bytes, Res.map_ok, Res.ok_bind, haddress, Answer.device]
  split_ifs <;> rfl

/-- A datagram of another length, or with another length in it, is not reported. -/
theorem parse_of_not {src : SocketAddr} {data : List UInt8}
    (h : ¬ (data.length = acknSize ∧ Stands data 4 (toBe16 0xF8))) : parse src data = .ok [] := by
  by_cases hlen : data.length = acknSize
  · obtain ⟨payloadLen, hpayload, hstands⟩ := be16At_eq (i := 4)
      (show 4 + 1 < data.length by rw [hlen]; decide)
    have hne : payloadLen ≠ UInt16.ofNat (data.length - 8) := by
      rintro rfl
      rw [hlen] at hstands
      exact h ⟨hlen, hstands⟩
    rw [parse, if_neg (not_not.mpr hlen), hpayload, Res.ok_bind, if_pos hne]
    rfl
  · exact if_pos hlen

/-- Every other datagram is reported. -/
theorem exists_parse {data : List UInt8} (hlen : data.length = acknSize)
    (h : Stands data 4 (toBe16 0xF8)) (src : SocketAddr) : ∃ d, parse src data = .ok [d] := by
  have hle {n : ℕ} (hn : n ≤ 256) : n ≤ data.length := hn.trans_eq hlen.symm
  obtain ⟨version, hversion⟩ := be32At_eq_ok (i := 8) (hle (by decide))
  obtain ⟨ipRaw, hip⟩ := le32At_eq_ok (i := 0x2C) (hle (by decide))
  rw [parse, if_neg (by rw [hlen]; decide), be16At_stands h, Res.ok_bind, hlen, if_neg (by decide),
    hversion, Res.ok_bind, hip, Res.ok_bind, macAt_eq (hle (by decide)), Res.ok_bind,
    subslice_eq (by decide) (hle (by decide)), Res.ok_bind,
    subslice_eq (by decide) (hle (by decide)), Res.ok_bind,
    subslice_eq (by decide) (hle (by decide)), Res.ok_bind,
    subslice_eq (by decide) (hle (by decide)), Res.map_ok]
  split_ifs <;> exact ⟨_, rfl⟩

/-- GigEVision reports a datagram if and only if it has 256 bytes and says that 248 follow its
header, and it then reports one device: the device of the fields that stand in it, whatever the
other bytes are. -/
theorem parse_acknowledgement (src : SocketAddr) (data : List UInt8) :
    (parse src data ≠ .ok [] ↔ data.length = acknSize ∧ Stands data 4 (toBe16 0xF8)) ∧
      (parse src data ≠ .ok [] → ∃ d, parse src data = .ok [d]) ∧
      ∀ (background : Buffer UInt8 acknSize) (a : Answer),
        parse src (background.writeAll a.fields).elems = .ok [a.device src] := by
  have hexists (h : data.length = acknSize ∧ Stands data 4 (toBe16 0xF8)) :
      ∃ d, parse src data = .ok [d] := exists_parse h.1 h.2 src
  have hiff : parse src data ≠ .ok [] ↔ data.length = acknSize ∧ Stands data 4 (toBe16 0xF8) := by
    constructor
    · exact fun hne => by_contra fun h => hne (parse_of_not h)
    · intro h
      obtain ⟨d, hd⟩ := hexists h
      rw [hd]
      simp
  exact ⟨hiff, fun hne => hexists (hiff.mp hne), fun background a =>
    parse_of_fields (Buffer.length_eq _) fun f hf => a.stands background hf⟩

end GigEVision

/-! ## Hanwha -/

/-- The first `n` elements of a list, and zeros where it has no more. -/
def zeroExtend (n : ℕ) (data : List UInt8) : List UInt8 :=
  data.take n ++ List.replicate (n - data.length) 0

/-- A part of a list that is filled up with zeros. -/
theorem zeroExtend_slice {n off len : ℕ} (data : List UInt8) (h : off + len ≤ n) :
    ((zeroExtend n data).drop off).take len =
      (data.drop off).take len ++ List.replicate (len - (data.length - off)) 0 := by
  apply List.ext_getElem?
  intro k
  rw [zeroExtend]
  grind

namespace Hanwha

/-- `MAC_OFF`. -/
def macOff : ℕ := 0x13

/-- `IP_OFF`. -/
def ipOff : ℕ := 0x25

/-- `TYPE_OFF`. -/
def typeOff : ℕ := 0x6D

/-- `struct_field`: what is missing of a field is zero. -/
def structField (data : List UInt8) (off len : ℕ) : Res Empty (List UInt8) :=
  let out := Buffer.filled len 0
  if off < data.length then do
    let last := min (off + len) data.length
    let part ← subslice data off last
    let out ← out.copyFromSlice 0 (last - off) part
    return out.elems
  else return out.elems

/-- `Hanwha::parse`. There is no check of anything. -/
def parse (src : SocketAddr) (data : List UInt8) : Res Empty (List Device) := do
  let serial ← cstring <$> structField data macOff 18
  let ipStr ← cstring <$> structField data ipOff 16
  let deviceType ← cstring <$> structField data typeOff 10
  return [{
    protocol := "Hanwha".toList
    version := 1
    ip := (parseIpAddr ipStr).getD src.ip
    mac := serial
    deviceType := deviceType
    serial := serial }]

/-- A field of a datagram is the field of the structure that the datagram is the start of. -/
theorem structField_eq (data : List UInt8) {off len : ℕ} (h : off + len ≤ headerSize) :
    structField data off len = .ok (((zeroExtend headerSize data).drop off).take len) := by
  rw [zeroExtend_slice data h]
  simp only [structField]
  split_ifs with hoff
  · have hlast : off ≤ min (off + len) data.length := le_min (Nat.le_add_right off len) hoff.le
    have hpart : (data.take (min (off + len) data.length)).drop off = (data.drop off).take len := by
      rw [List.drop_take, List.take_eq_take_iff, List.length_drop]
      omega
    have hlen : ((data.drop off).take len).length = min len (data.length - off) := by
      rw [List.length_take, List.length_drop]
    have hwrite : ((Buffer.filled len 0).write 0 ((data.drop off).take len)).elems =
        (data.drop off).take len ++ List.replicate (len - (data.length - off)) 0 := by
      change overwrite (Buffer.filled len 0).elems 0 ((data.drop off).take len) = _
      rw [overwrite_start (by rw [hlen, Buffer.length_eq]; omega), Buffer.filled,
        List.drop_replicate, hlen]
      congr 2
      omega
    rw [subslice_eq hlast (min_le_right _ _), Res.ok_bind, hpart,
      Buffer.copyFromSlice_eq _ (by omega) (Nat.zero_le _) (by omega), Res.ok_bind, Res.pure_eq,
      hwrite]
  · rw [List.drop_eq_nil_of_le (not_lt.mp hoff), Nat.sub_eq_zero_of_le (not_lt.mp hoff),
      List.take_nil]
    rfl

/-- The fields of an answer that count. -/
structure Answer where
  /-- The hardware address, which is also the serial number. -/
  macAddress : FixedText 18
  /-- The text of the address. -/
  ipAddress : FixedText 16
  /-- The type. -/
  deviceType : FixedText 10

/-- The bytes of an answer by their offsets. -/
def Answer.fields (a : Answer) : List (ℕ × List UInt8) :=
  [(macOff, a.macAddress.bytes.elems), (ipOff, a.ipAddress.bytes.elems),
    (typeOff, a.deviceType.bytes.elems)]

/-- The device of an answer: where the text is no address, the device is the sender. -/
def Answer.device (a : Answer) (src : SocketAddr) : Device where
  protocol := "Hanwha".toList
  version := 1
  ip := (parseIpAddr a.ipAddress.text).getD src.ip
  mac := a.macAddress.text
  deviceType := a.deviceType.text
  serial := a.macAddress.text

/-- A datagram is reported from the structure that it is the start of. -/
theorem parse_eq (src : SocketAddr) (data : List UInt8) :
    parse src data = .ok [{
      protocol := "Hanwha".toList
      version := 1
      ip := (parseIpAddr (cstring (((zeroExtend headerSize data).drop ipOff).take 16))).getD src.ip
      mac := cstring (((zeroExtend headerSize data).drop macOff).take 18)
      deviceType := cstring (((zeroExtend headerSize data).drop typeOff).take 10)
      serial := cstring (((zeroExtend headerSize data).drop macOff).take 18) }] := by
  simp only [parse]
  rw [structField_eq data (by decide), structField_eq data (by decide),
    structField_eq data (by decide)]
  rfl

/-- A field of an answer is read from any background. -/
theorem Answer.slice_eq (a : Answer) (background : Buffer UInt8 headerSize) {off n : ℕ}
    {f : FixedText n} (hf : (off, f.bytes.elems) ∈ a.fields) :
    cstring (((background.writeAll a.fields).elems.drop off).take n) = f.text := by
  have hstands : Stands (background.writeAll a.fields).elems off f.bytes.elems := by
    have hranges : Ascending [(macOff, 18), (ipOff, 16), (typeOff, 10)] := by
      unfold Ascending
      decide
    refine Buffer.stands_writeAll ?_ hranges (by decide) hf
    have hmac := a.macAddress.bytes.length_eq
    have hip := a.ipAddress.bytes.length_eq
    have htype := a.deviceType.bytes.length_eq
    simp [fields, InRange, *]
  have htake := List.prefix_iff_eq_take.mp hstands
  rw [f.bytes.length_eq] at htake
  rw [← htake, f.cstring_bytes]

/-- Hanwha reports every datagram, as one device, and a datagram stands for the structure that it is
the start of: what is missing of it is zero, and what follows it does not count. If it is the start
of an answer, on any background, its device is the device of the answer; an IPv4 address that is
written in the answer is read. -/
theorem parse_structure (src : SocketAddr) (data : List UInt8) :
    (∃ d, parse src data = .ok [d]) ∧
      (∀ data', zeroExtend headerSize data' = zeroExtend headerSize data →
        parse src data' = parse src data) ∧
      ∀ (background : Buffer UInt8 headerSize) (a : Answer),
        zeroExtend headerSize data = (background.writeAll a.fields).elems →
          parse src data = .ok [a.device src] ∧
            ∀ ip : Ipv4Addr, a.ipAddress.text = ip.text → (a.device src).ip = .v4 ip := by
  refine ⟨⟨_, parse_eq src data⟩, fun data' h => ?_, fun background a h => ⟨?_, fun ip hip => ?_⟩⟩
  · rw [parse_eq, parse_eq, h]
  · rw [parse_eq, h, a.slice_eq background (f := a.ipAddress) (by simp [Answer.fields]),
      a.slice_eq background (f := a.macAddress) (by simp [Answer.fields]),
      a.slice_eq background (f := a.deviceType) (by simp [Answer.fields])]
    rfl
  · change (parseIpAddr a.ipAddress.text).getD src.ip = _
    rw [hip, parseIpAddr_text, Option.getD_some]

end Hanwha

/-! ## NiceVision -/

namespace NiceVision

/-- `ANSWER_SIZE`. -/
def answerSize : ℕ := 0x5A

/-- `NiceVision::parse`. -/
def parse (_src : SocketAddr) (data : List UInt8) : Res Empty (List Device) :=
  if data.length < answerSize then .ok []
  else do
    let serial ← macAt data 0x0A
    let ipRaw ← le32At data 0x10
    let deviceType ← subslice data 0x4A 0x5A
    return [{
      protocol := "NiceVision".toList
      version := 1
      ip := .v4 (.ofU32 ipRaw)
      mac := serial
      deviceType := cstring deviceType
      serial := serial }]

/-- The fields of an answer that count. -/
structure Answer where
  /-- The hardware address, which is also the serial number. -/
  mac : Buffer UInt8 6
  /-- The address. -/
  ip : Ipv4Addr
  /-- The name. -/
  name : FixedText 16

/-- The bytes of an answer by their offsets. The address has its octets in reverse. -/
def Answer.fields (a : Answer) : List (ℕ × List UInt8) :=
  [(0x0A, a.mac.elems), (0x10, a.ip.octets.reverse), (0x4A, a.name.bytes.elems)]

/-- The device of an answer. -/
def Answer.device (a : Answer) : Device where
  protocol := "NiceVision".toList
  version := 1
  ip := .v4 a.ip
  mac := macText [':'] a.mac.elems
  deviceType := a.name.text
  serial := macText [':'] a.mac.elems

/-- A datagram with the fields of an answer in it is reported as the device of the answer. -/
theorem parse_of_fields (src : SocketAddr) {data : List UInt8} {a : Answer}
    (hlen : answerSize ≤ data.length) (h : ∀ f ∈ a.fields, Stands data f.1 f.2) :
    parse src data = .ok [a.device] := by
  simp only [Answer.fields, List.forall_mem_cons] at h
  obtain ⟨hmac, hip, hname, -⟩ := h
  rw [Ipv4Addr.reverse_octets] at hip
  rw [parse, if_neg (not_lt.mpr hlen), macAt_stands a.mac.length_eq hmac, Res.ok_bind,
    le32At_stands hip, Res.ok_bind, subslice_fixedText (by decide) hname, Res.ok_bind,
    a.name.cstring_bytes, Ipv4Addr.ofU32_toU32]
  rfl

/-- A datagram is reported if it is long enough. -/
theorem reportsOnce : ReportsOnce parse fun data => answerSize ≤ data.length := by
  refine fun src data => ⟨fun hlen => ?_, fun hlen => if_pos (not_le.mp hlen)⟩
  have hle {n : ℕ} (hn : n ≤ 0x5A) : n ≤ data.length := hn.trans hlen
  obtain ⟨ipRaw, hip⟩ := le32At_eq_ok (i := 0x10) (hle (by decide))
  rw [parse, if_neg (not_lt.mpr hlen), macAt_eq (hle (by decide)), Res.ok_bind, hip, Res.ok_bind,
    subslice_eq (by decide) (hle (by decide))]
  exact ⟨_, rfl⟩

/-- An answer is reported as its device, on any background and with anything after it. -/
theorem parse_written (src : SocketAddr) (background : Buffer UInt8 answerSize) (a : Answer)
    (rest : List UInt8) :
    parse src ((background.writeAll a.fields).elems ++ rest) = .ok [a.device] := by
  have hmac := a.mac.length_eq
  have hname := a.name.bytes.length_eq
  have hfields : List.Forall₂ InRange a.fields [(0x0A, 6), (0x10, 4), (0x4A, 16)] := by
    simp [Answer.fields, InRange, Ipv4Addr.octets, *]
  have hranges : Ascending [(0x0A, 6), (0x10, 4), (0x4A, 16)] := by
    unfold Ascending
    decide
  refine parse_of_fields src ?_ fun f hf =>
    (Buffer.stands_writeAll hfields hranges (by decide) hf).longer rest
  rw [List.length_append, Buffer.length_eq]
  exact Nat.le_add_right _ _

end NiceVision

/-! ## Advantech -/

namespace Advantech

/-- `HEADER_SIZE`. -/
def headerSize : ℕ := 0x38

/-- `MIN_LEN`. -/
def minLen : ℕ := headerSize + 0x32

/-- `MSG_PRODUCT_TYPE`. -/
def msgProductType : UInt8 := 0x20

/-- `Advantech::parse`. -/
def parse (src : SocketAddr) (data : List UInt8) : Res Empty (List Device) :=
  if data.length < minLen then .ok []
  else do
    let serial ← macAt data 0x0D
    let messageType ← index data 0x35
    let model :=
      if messageType = msgProductType then fromUtf8Lossy (data.drop minLen)
      else "Unknown".toList
    return [{
      protocol := "Advantech".toList
      version := 1
      ip := src.ip
      mac := serial
      deviceType := model
      serial := serial }]

/-- A datagram is reported if it is long enough. -/
theorem reportsOnce : ReportsOnce parse fun data => minLen ≤ data.length := by
  refine fun src data => ⟨fun hlen => ?_, fun hlen => if_pos (not_le.mp hlen)⟩
  have hle {n : ℕ} (hn : n ≤ 0x6A) : n ≤ data.length := hn.trans hlen
  have htype : 0x35 < data.length := hle (by decide)
  rw [parse, if_neg (not_lt.mpr hlen), macAt_eq (hle (by decide)), Res.ok_bind, index_eq htype]
  exact ⟨_, rfl⟩

/-- The fields of an answer that count. -/
structure Answer where
  /-- The hardware address, which is also the serial number. -/
  mac : Buffer UInt8 6
  /-- What the message is about. -/
  messageType : UInt8

/-- The bytes of an answer by their offsets. -/
def Answer.fields (a : Answer) : List (ℕ × List UInt8) :=
  [(0x0D, a.mac.elems), (0x35, [a.messageType])]

/-- The device of an answer, which is the sender: its type is what comes after the answer, read as a
text, if the message is about that. -/
def Answer.device (a : Answer) (src : SocketAddr) (rest : List UInt8) : Device where
  protocol := "Advantech".toList
  version := 1
  ip := src.ip
  mac := macText [':'] a.mac.elems
  deviceType := if a.messageType = msgProductType then fromUtf8Lossy rest else "Unknown".toList
  serial := macText [':'] a.mac.elems

/-- An answer is reported as its device, on any background. -/
theorem parse_written (src : SocketAddr) (background : Buffer UInt8 minLen) (a : Answer)
    (rest : List UInt8) :
    parse src ((background.writeAll a.fields).elems ++ rest) = .ok [a.device src rest] := by
  have hfields : List.Forall₂ InRange a.fields [(0x0D, 6), (0x35, 1)] := by
    simp [Answer.fields, InRange, a.mac.length_eq]
  have hranges : Ascending [(0x0D, 6), (0x35, 1)] := by
    unfold Ascending
    decide
  have hstands (f) (hf : f ∈ a.fields) :=
    (Buffer.stands_writeAll (b := background) hfields hranges (by decide) hf).longer rest
  have hmac := hstands (0x0D, a.mac.elems) (by simp [Answer.fields])
  have htype := hstands (0x35, [a.messageType]) (by simp [Answer.fields])
  have htake := (background.writeAll a.fields).length_eq
  rw [parse, if_neg (by rw [List.length_append, htake]; omega),
    macAt_stands a.mac.length_eq hmac, Res.ok_bind, index_of_getElem? htype.head?, Res.ok_bind,
    List.drop_left' htake]
  rfl

/-- A text after an answer about the type is the type. -/
theorem Answer.deviceType_utf8 {a : Answer} (h : a.messageType = msgProductType)
    (src : SocketAddr) (text : List Char) : (a.device src (utf8 text)).deviceType = text :=
  (if_pos h).trans (fromUtf8Lossy_utf8 text)

end Advantech

/-! ## TVT -/

namespace Tvt

/-- What an answer starts with: the magic, the version, and the type of the message. -/
def header : List (ℕ × List UInt8) := [(0, magic), (4, [0x08]), (8, [0x02, 0, 0, 0])]

/-- The fields of an answer that count. -/
structure Answer where
  /-- The type. -/
  deviceType : FixedText 8
  /-- The hardware address. -/
  mac : Buffer UInt8 6
  /-- The address, or zeros. -/
  ip : Ipv4Addr
  /-- The serial number. -/
  serialNumber : FixedText 12

/-- The bytes of an answer by their offsets. -/
def Answer.fields (a : Answer) : List (ℕ × List UInt8) :=
  header ++ [(0x0C, a.deviceType.bytes.elems), (offMac, a.mac.elems), (offIp, a.ip.octets),
    (0x8C, a.serialNumber.bytes.elems)]

/-- The type at the second place, in what comes after the fields, if that is long enough. -/
def secondType (rest : List UInt8) : List Char :=
  if 52 ≤ rest.length then cstring ((rest.drop 44).take 8) else []

/-- The device of an answer: without an address it is the sender, without a type it has that at the
second place, and without a serial number its hardware address for one. -/
def Answer.device (a : Answer) (src : SocketAddr) (rest : List UInt8) : Device where
  protocol := "TVT".toList
  version := 1
  ip := if a.ip = .unspecified then src.ip else .v4 a.ip
  mac := macText [':'] a.mac.elems
  deviceType := if a.deviceType.text = [] then secondType rest else a.deviceType.text
  serial := if a.serialNumber.text = [] then macText [':'] a.mac.elems else a.serialNumber.text

/-- A datagram of the length of an answer is another one just when it starts with something else. -/
theorem isOther_eq {data : List UInt8} (hlen : answerMinLen ≤ data.length) :
    ∃ other, isOther data = .ok other ∧
      (other = false ↔ ∀ f ∈ header, Stands data f.1 f.2) := by
  have hle {n : ℕ} (hn : n ≤ 152) : n ≤ data.length := le_trans hn hlen
  have hlt : 4 < data.length := hle (by decide)
  have hslice (p n : ℕ) (x : List UInt8) (hx : x.length = n) :
      (data.take (p + n)).drop p = x ↔ Stands data p x := by
    rw [List.drop_take, Nat.add_sub_cancel_left, Stands, List.prefix_iff_eq_take, hx]
    exact eq_comm
  have hversion : Stands data 4 [0x08] ↔ data[4] = 0x08 := by
    rw [Stands, List.drop_eq_getElem_cons hlt, List.cons_prefix_cons, eq_comm]
    exact and_iff_left List.nil_prefix
  refine ⟨(data.take 4).drop 0 != magic || data[4] != 0x08 ||
    (data.take 12).drop 8 != [0x02, 0, 0, 0], ?_, ?_⟩
  · rw [isOther, subslice_eq (by decide) (hle (by decide)), Res.ok_bind, index_eq hlt, Res.ok_bind,
      subslice_eq (by decide) (hle (by decide))]
    rfl
  · have hmagic := hslice 0 4 magic rfl
    have htype := hslice 8 4 [0x02, 0, 0, 0] rfl
    simp only [header, List.forall_mem_cons, ← hmagic, hversion, ← htype, Nat.zero_add,
      Nat.reduceAdd, Bool.or_eq_false_iff, bne_eq_false_iff_eq, and_assoc, List.not_mem_nil,
      false_implies, implies_true, and_true]

/-- A shorter datagram, or one that starts with something else, is not reported. -/
theorem parse_of_not {src : SocketAddr} {data : List UInt8}
    (h : ¬ (answerMinLen ≤ data.length ∧ ∀ f ∈ header, Stands data f.1 f.2)) :
    parse src data = .ok [] := by
  rw [parse]
  split_ifs with hlen
  · rfl
  · obtain ⟨other, hother, hiff⟩ := isOther_eq (not_lt.mp hlen)
    cases other with
    | true =>
      rw [hother]
      rfl
    | false => exact absurd ⟨not_lt.mp hlen, hiff.mp rfl⟩ h

/-- The bytes of a field. -/
def slice (data : List UInt8) (p n : ℕ) : List UInt8 := (data.drop p).take n

/-- What is read of a datagram that starts like an answer. -/
theorem parse_eq (src : SocketAddr) {front rest : List UInt8} {ip : Ipv4Addr}
    (hlen : front.length = answerMinLen) (hheader : ∀ f ∈ header, Stands (front ++ rest) f.1 f.2)
    (hip : Stands (front ++ rest) offIp ip.octets) :
    let data := front ++ rest
    let mac := macText [':'] (slice data offMac 6)
    let deviceType := cstring (slice data 0x0C 8)
    let serial := cstring (slice data 0x8C 12)
    parse src data = .ok [{
      protocol := "TVT".toList
      version := 1
      ip := if ip = .unspecified then src.ip else .v4 ip
      mac := mac
      deviceType := if deviceType = [] then secondType rest else deviceType
      serial := if serial = [] then mac else serial }] := by
  have htotal : (front ++ rest).length = 152 + rest.length := by
    rw [List.length_append, hlen]
    rfl
  have hsub (p n : ℕ) (h : p + n ≤ (front ++ rest).length) :
      (subslice (front ++ rest) p (p + n) : Res Empty (List UInt8)) =
        .ok (slice (front ++ rest) p n) := by
    rw [subslice_eq (Nat.le_add_right p n) h, List.drop_take, Nat.add_sub_cancel_left, slice]
  have hle : answerMinLen ≤ (front ++ rest).length := by
    rw [htotal]
    exact Nat.le_add_right _ _
  -- The datagram is taken for an answer, and every field that is read lies in its front.
  obtain ⟨other, hother, hiff⟩ := isOther_eq hle
  rw [hiff.mpr hheader] at hother
  have hipAt : ipv4At (front ++ rest) 0x28 = .ok ip := ipv4At_stands hip
  have hmac : macAt (front ++ rest) 0x20 = .ok (macText [':'] (slice (front ++ rest) offMac 6)) :=
    macAt_eq (by omega)
  have hserial := hsub 0x8C 12 (by omega)
  dsimp only
  rw [parse, if_neg (not_lt.mpr hle), hother, Res.ok_bind, if_neg Bool.false_ne_true, hipAt,
    Res.ok_bind, hsub 0x0C 8 (by omega), Res.ok_bind]
  by_cases htype : cstring (slice (front ++ rest) 0x0C 8) = []
  · by_cases hlong : 52 ≤ rest.length
    · -- The second place is behind what every answer has.
      have hsecond : slice (front ++ rest) 0xC4 8 = (rest.drop 44).take 8 := by
        rw [slice, List.drop_append, List.drop_eq_nil_of_le (by rw [hlen]; decide), List.nil_append,
          hlen]
        rfl
      rw [if_pos ⟨by omega, htype⟩, hsub 0xC4 8 (by omega), hsecond, hmac, hserial, htype,
        if_pos rfl, secondType, if_pos hlong]
      rfl
    · rw [if_neg fun h => hlong (by omega), hmac, hserial, htype, if_pos rfl, secondType,
        if_neg hlong]
      rfl
  · rw [if_neg fun h => htype h.2, hmac, hserial, if_neg htype]
    rfl

/-- A datagram with the fields of an answer in it is reported as the device of the answer. -/
theorem parse_of_fields {src : SocketAddr} {front rest : List UInt8} {a : Answer}
    (hlen : front.length = answerMinLen) (h : ∀ f ∈ a.fields, Stands (front ++ rest) f.1 f.2) :
    parse src (front ++ rest) = .ok [a.device src rest] := by
  obtain ⟨hheader, h⟩ := List.forall_mem_append.mp h
  simp only [List.forall_mem_cons] at h
  obtain ⟨htype, hmac, hip, hserial, -⟩ := h
  have hslice {p n : ℕ} {x : Buffer UInt8 n} (hx : Stands (front ++ rest) p x.elems) :
      slice (front ++ rest) p n = x.elems := by
    have htake := List.prefix_iff_eq_take.mp hx
    rw [x.length_eq] at htake
    exact htake.symm
  have heq := parse_eq src hlen hheader hip
  simp only [hslice htype, hslice hmac, hslice hserial, FixedText.cstring_bytes] at heq
  exact heq

/-- Every datagram that starts like an answer is reported. -/
theorem exists_parse {data : List UInt8} (hlen : answerMinLen ≤ data.length)
    (h : ∀ f ∈ header, Stands data f.1 f.2) (src : SocketAddr) :
    ∃ d, parse src data = .ok [d] := by
  have hle : offIp + 4 ≤ data.length := le_trans (by decide) hlen
  obtain ⟨x, y, hdrop, hx⟩ := exists_append_of_le hle
  obtain ⟨a, b, c, d, rfl⟩ := List.length_eq_four.mp hx
  have hip : Stands data offIp (Ipv4Addr.octets ⟨a, b, c, d⟩) := ⟨y, hdrop.symm⟩
  rw [← List.take_append_drop answerMinLen data] at h hip ⊢
  exact ⟨_, parse_eq src (List.length_take_of_le hlen) h hip⟩

/-- A field of an answer stands in it, on any background and with anything after it. -/
theorem Answer.stands (a : Answer) (background : Buffer UInt8 answerMinLen) (rest : List UInt8)
    {f : ℕ × List UInt8} (hf : f ∈ a.fields) :
    Stands ((background.writeAll a.fields).elems ++ rest) f.1 f.2 := by
  have htype := a.deviceType.bytes.length_eq
  have hmac := a.mac.length_eq
  have hserial := a.serialNumber.bytes.length_eq
  have hfields : List.Forall₂ InRange a.fields
      [(0, 4), (4, 1), (8, 4), (0x0C, 8), (offMac, 6), (offIp, 4), (0x8C, 12)] := by
    simp [fields, header, magic, InRange, Ipv4Addr.octets, *]
  have hranges : Ascending
      [(0, 4), (4, 1), (8, 4), (0x0C, 8), (offMac, 6), (offIp, 4), (0x8C, 12)] := by
    unfold Ascending
    decide
  exact (Buffer.stands_writeAll hfields hranges (by decide) hf).longer rest

/-- TVT reports a datagram if and only if it has 152 bytes or more and starts with the magic, the
version and the type of an answer, and it then reports one device: the device of the fields that
stand in it, whatever the other bytes are, up to the type at the second place. -/
theorem parse_reply (src : SocketAddr) (data : List UInt8) :
    (parse src data ≠ .ok [] ↔
        answerMinLen ≤ data.length ∧ ∀ f ∈ header, Stands data f.1 f.2) ∧
      (parse src data ≠ .ok [] → ∃ d, parse src data = .ok [d]) ∧
      ∀ (background : Buffer UInt8 answerMinLen) (a : Answer) (rest : List UInt8),
        parse src ((background.writeAll a.fields).elems ++ rest) = .ok [a.device src rest] := by
  have hiff : parse src data ≠ .ok [] ↔
      answerMinLen ≤ data.length ∧ ∀ f ∈ header, Stands data f.1 f.2 := by
    constructor
    · exact fun hne => by_contra fun h => hne (parse_of_not h)
    · rintro ⟨hlen, hheader⟩
      obtain ⟨d, hd⟩ := exists_parse hlen hheader src
      rw [hd]
      simp
  refine ⟨hiff, fun hne => ?_, fun background a rest => ?_⟩
  · obtain ⟨hlen, hheader⟩ := hiff.mp hne
    exact exists_parse hlen hheader src
  · exact parse_of_fields (Buffer.length_eq _) fun f hf => a.stands background rest hf

end Tvt

/-! ## VStarcam -/

namespace Vstarcam

/-- The fields of an answer that count. -/
structure Answer where
  /-- The text of the address. -/
  ipAddress : FixedText 16
  /-- The hardware address. -/
  mac : Buffer UInt8 6
  /-- The serial number. -/
  serialNumber : FixedText 32
  /-- The model. -/
  model : FixedText 32

/-- The bytes of an answer by their offsets. -/
def Answer.fields (a : Answer) : List (ℕ × List UInt8) :=
  [(0, toBe32 answerMagic), (0x04, a.ipAddress.bytes.elems), (0x54, a.mac.elems),
    (0x5C, a.serialNumber.bytes.elems), (0x7C, a.model.bytes.elems)]

/-- The device of an answer: where the text is no address, the device is the sender. -/
def Answer.device (a : Answer) (src : SocketAddr) : Device where
  protocol := "VStarcam".toList
  version := 1
  ip := (parseIpAddr a.ipAddress.text).getD src.ip
  mac := macText [':'] a.mac.elems
  deviceType := a.model.text
  serial := a.serialNumber.text

/-- A datagram is reported if it is long enough and starts with the magic of an answer. -/
theorem reportsOnce : ReportsOnce parse fun data =>
    headerSize ≤ data.length ∧ Stands data 0 (toBe32 answerMagic) := by
  refine fun src data => ⟨fun ⟨hlen, hmagic⟩ => ?_, fun h => ?_⟩
  · have hle {n : ℕ} (hn : n ≤ 256) : n ≤ data.length := hn.trans hlen
    rw [parse, if_neg (not_lt.mpr hlen), be32At_stands hmagic, Res.ok_bind, if_neg (by simp),
      subslice_eq (by decide) (hle (by decide)), Res.ok_bind,
      subslice_eq (by decide) (hle (by decide)), Res.ok_bind,
      subslice_eq (by decide) (hle (by decide)), Res.ok_bind, macAt_eq (hle (by decide))]
    exact ⟨_, rfl⟩
  · by_cases hlen : headerSize ≤ data.length
    · obtain ⟨magic, hread, hstands⟩ := be32At_eq (i := 0)
        (Nat.lt_of_lt_of_le (by decide) hlen : 0 + 3 < data.length)
      have hne : magic ≠ answerMagic := by
        rintro rfl
        exact h ⟨hlen, hstands⟩
      rw [parse, if_neg (not_lt.mpr hlen), hread, Res.ok_bind, if_pos hne]
      rfl
    · exact if_pos (not_le.mp hlen)

/-- An answer is reported as its device, on any background and with anything after it. -/
theorem parse_written (src : SocketAddr) (background : Buffer UInt8 headerSize) (a : Answer)
    (rest : List UInt8) :
    parse src ((background.writeAll a.fields).elems ++ rest) = .ok [a.device src] := by
  have hip := a.ipAddress.bytes.length_eq
  have hmac := a.mac.length_eq
  have hserial := a.serialNumber.bytes.length_eq
  have hmodel := a.model.bytes.length_eq
  have hfields : List.Forall₂ InRange a.fields
      [(0, 4), (0x04, 16), (0x54, 6), (0x5C, 32), (0x7C, 32)] := by
    simp [Answer.fields, InRange, *]
  have hranges : Ascending [(0, 4), (0x04, 16), (0x54, 6), (0x5C, 32), (0x7C, 32)] := by
    unfold Ascending
    decide
  have hstands (f) (hf : f ∈ a.fields) :=
    (Buffer.stands_writeAll (b := background) hfields hranges (by decide) hf).longer rest
  simp only [Answer.fields, List.forall_mem_cons] at hstands
  obtain ⟨hmagic, hip, hmac, hserial, hmodel, -⟩ := hstands
  have hlen : headerSize ≤ ((background.writeAll a.fields).elems ++ rest).length := by
    rw [List.length_append, Buffer.length_eq]
    exact Nat.le_add_right _ _
  rw [parse, if_neg (not_lt.mpr hlen)]
  simp only [Answer.fields, be32At_stands hmagic, Res.ok_bind, ne_eq, not_true_eq_false, if_false,
    subslice_fixedText (by decide) hmodel, subslice_fixedText (by decide) hserial,
    subslice_fixedText (by decide) hip, macAt_stands a.mac.length_eq hmac,
    FixedText.cstring_bytes]
  rfl

end Vstarcam

/-! ## Answers with anything after them -/

/-- NiceVision and Advantech report every datagram that is long enough, and VStarcam if it also
starts with the magic of an answer; each as one device. An answer is reported as its device,
whatever the bytes between its fields are and whatever comes after it: only Advantech reads that, if
the message is about the type, and a text there is the type. -/
theorem parse_with_rest :
    (ReportsOnce NiceVision.parse (fun data => NiceVision.answerSize ≤ data.length) ∧
      ReportsOnce Advantech.parse (fun data => Advantech.minLen ≤ data.length) ∧
      ReportsOnce Vstarcam.parse fun data => Vstarcam.headerSize ≤ data.length ∧
        Stands data 0 (toBe32 Vstarcam.answerMagic)) ∧
    ∀ (src : SocketAddr) (rest : List UInt8),
      (∀ (background : Buffer UInt8 NiceVision.answerSize) (a : NiceVision.Answer),
        NiceVision.parse src ((background.writeAll a.fields).elems ++ rest) = .ok [a.device]) ∧
      (∀ (background : Buffer UInt8 Advantech.minLen) (a : Advantech.Answer),
        Advantech.parse src ((background.writeAll a.fields).elems ++ rest) =
            .ok [a.device src rest] ∧
          (a.messageType = Advantech.msgProductType → ∀ text, rest = utf8 text →
            (a.device src rest).deviceType = text)) ∧
      ∀ (background : Buffer UInt8 Vstarcam.headerSize) (a : Vstarcam.Answer),
        Vstarcam.parse src ((background.writeAll a.fields).elems ++ rest) =
          .ok [a.device src] := by
  refine ⟨⟨NiceVision.reportsOnce, Advantech.reportsOnce, Vstarcam.reportsOnce⟩, fun src rest =>
    ⟨fun background a => NiceVision.parse_written src background a rest, fun background a =>
      ⟨Advantech.parse_written src background a rest, ?_⟩,
      fun background a => Vstarcam.parse_written src background a rest⟩⟩
  rintro htype text rfl
  exact Advantech.Answer.deviceType_utf8 htype src text

end Uscan
