import Uscan.Errors
import Uscan.Lib.Base64
import Uscan.Lib.Buffer
import Uscan.Oui.File
import Uscan.Protocols.Fixed

/-!
# Provisioning of TVT cameras

`tvt_provision.rs`: the packet that gives a camera a new address, and the parser of the hardware
address that it is for. The packet is a zeroed buffer of 140 bytes with nine fields written into it,
at fixed offsets; the password is written as base64, so that its field has a variable length.

The fields are apart from each other as long as the password has at most 21 bytes, which is what the
builder checks. So every one of them stands at its offset, and the rest of the packet is zero
(`buildSetIpRequest_carries`). Two fields are also read by the parser of the answers, at the same
offsets (`parse_sameFields`).
-/

namespace Uscan

/-- A hardware address, `[u8; 6]`. -/
abbrev Mac := Buffer UInt8 6

namespace TvtProvision

/-- `PACKET_SIZE`. -/
def packetSize : ℕ := 140

/-- `[u8; PACKET_SIZE]`. -/
abbrev Packet := Buffer UInt8 packetSize

/-- `DEFAULT_PROTOCOL_VERSION`. -/
def defaultProtocolVersion : UInt32 := 0x00010008

/-- `MAX_PLAINTEXT_PASSWORD`. -/
def maxPlaintextPassword : ℕ := 21

/-- `TYPE_SET_IP`. -/
def typeSetIp : UInt8 := 0x03

/-- `PASSWORD_CAPACITY`. -/
def passwordCapacity : ℕ := 28

/-- `OFF_VERSION`. -/
def offVersion : ℕ := 0x04

/-- `OFF_MSG_TYPE`. -/
def offMsgType : ℕ := 8

/-- `OFF_PASSWORD`. -/
def offPassword : ℕ := 0x54

/-- `OFF_DHCP`. -/
def offDhcp : ℕ := 0x8a

/-- `SetIpRequest`. -/
structure SetIpRequest where
  /-- The hardware address of the camera. -/
  mac : Mac
  /-- The password of its administrator. -/
  password : List Char
  /-- The address that it is given. -/
  newIp : Ipv4Addr
  /-- The mask of its subnet. -/
  subnetMask : Ipv4Addr
  /-- Its gateway. -/
  gateway : Ipv4Addr
  /-- It takes its address from a server instead. -/
  dhcp : Bool
  /-- The version of the protocol; zero stands for the default. -/
  protocolVersion : UInt32
  deriving DecidableEq

/-- The version that is sent. -/
def SetIpRequest.version (req : SetIpRequest) : UInt32 :=
  if req.protocolVersion = 0 then defaultProtocolVersion else req.protocolVersion

/-- The error for a password that is too long. -/
def passwordTooLong : Error :=
  .config "admin password too long for TVT L2 provisioning (max 21 bytes)"

/-- `build_set_ip_request`. -/
def buildSetIpRequest (base64 : Base64) (req : SetIpRequest) : Res Error Packet :=
  let encoded := base64.encode (utf8 req.password)
  if encoded.length > passwordCapacity then .err passwordTooLong
  else do
    let p : Packet := .filled packetSize 0
    let p ← p.copyFromSlice 0 4 Tvt.magic
    let p ← p.copyFromSlice offVersion (offVersion + 4) (toLe32 req.version)
    let p ← p.setAt offMsgType typeSetIp
    let p ← p.copyFromSlice Tvt.offMac (Tvt.offMac + 6) req.mac.elems
    let p ← p.copyFromSlice Tvt.offIp (Tvt.offIp + 4) req.newIp.octets
    let p ← p.copyFromSlice Tvt.offMask (Tvt.offMask + 4) req.subnetMask.octets
    let p ← p.copyFromSlice Tvt.offGateway (Tvt.offGateway + 4) req.gateway.octets
    let p ← p.copyFromSlice offPassword (offPassword + encoded.length) encoded
    p.setAt offDhcp (if req.dhcp then 1 else 0)

/-- The error for a text that is no hardware address. -/
def invalidMac (text : List Char) : Error :=
  .config ("invalid MAC address: " ++ String.ofList text)

/-- The loop of `parse_mac`, at part `i`. -/
def parseMacLoop (text : List Char) : List (List Char) → ℕ → Mac → Res Error Mac
  | [], _, out => .ok out
  | part :: parts, i, out =>
    if byteLen part ≠ 2 ∨ (utf8 part).all isHexByte = false then .err (invalidMac text)
    else
      match u8FromHex part with
      | none => .err (invalidMac text)
      | some b => do
        let out ← out.setAt i b
        parseMacLoop text parts (i + 1) out

/-- `parse_mac`. -/
def parseMac (text : List Char) : Res Error Mac :=
  let parts := text.splitOn ':'
  if parts.length ≠ 6 then .err (invalidMac text)
  else parseMacLoop text parts 0 (.filled 6 0)

/-! ## The fields of a packet -/

section Fields

variable (base64 : Base64) (req : SetIpRequest)

/-- The fields before the password, in the order in which they are written. -/
def headFields : List (ℕ × List UInt8) :=
  [(0, Tvt.magic), (offVersion, toLe32 req.version), (offMsgType, [typeSetIp]),
    (Tvt.offMac, req.mac.elems), (Tvt.offIp, req.newIp.octets),
    (Tvt.offMask, req.subnetMask.octets), (Tvt.offGateway, req.gateway.octets)]

/-- The field of the password. -/
def passwordField : ℕ × List UInt8 := (offPassword, base64.encode (utf8 req.password))

/-- The field of the flag. -/
def dhcpField : ℕ × List UInt8 := (offDhcp, [if req.dhcp then 1 else 0])

/-- All fields of a packet. -/
def fields : List (ℕ × List UInt8) :=
  headFields req ++ [passwordField base64 req, dhcpField req]

/-- The ranges of the fields, as offsets and lengths. That of the password is as long as its text
can be. -/
def fieldRanges : List (ℕ × ℕ) :=
  [(0, 4), (offVersion, 4), (offMsgType, 1), (Tvt.offMac, 6), (Tvt.offIp, 4), (Tvt.offMask, 4),
    (Tvt.offGateway, 4), (offPassword, passwordCapacity), (offDhcp, 1)]

/-- Each range ends before the next one, and the last one in the packet. -/
theorem fieldRanges_disjoint :
    Ascending fieldRanges ∧ ∀ r ∈ fieldRanges, r.1 + r.2 ≤ packetSize := by
  unfold Ascending
  decide

variable {req}

/-- The text of a password fits exactly when the password has at most 21 bytes. -/
theorem length_encode_le_capacity {b : List UInt8} :
    (base64.encode b).length ≤ passwordCapacity ↔ b.length ≤ maxPlaintextPassword :=
  base64.length_encode_le_iff (n := 7)

/-- The fields before the password end before it. -/
theorem headFields_le : ∀ f ∈ headFields req, f.1 + f.2.length ≤ offPassword := by
  have hmac : Tvt.offMac + req.mac.elems.length ≤ offPassword := by
    rw [req.mac.length_eq]
    decide
  simp only [headFields, List.forall_mem_cons]
  exact ⟨show 0 + 4 ≤ 84 by decide, show 4 + 4 ≤ 84 by decide, show 8 + 1 ≤ 84 by decide, hmac,
    show 40 + 4 ≤ 84 by decide, show 44 + 4 ≤ 84 by decide, show 48 + 4 ≤ 84 by decide,
    fun f hf => absurd hf List.not_mem_nil⟩

/-- Each field is in its range. -/
theorem fields_inRanges (h : (utf8 req.password).length ≤ maxPlaintextPassword) :
    List.Forall₂ InRange (fields base64 req) fieldRanges := by
  have hencoded := (length_encode_le_capacity base64).mpr h
  have hmac : req.mac.elems.length ≤ 6 := req.mac.length_eq.le
  simp only [fields, headFields, passwordField, dhcpField, fieldRanges, List.cons_append,
    List.nil_append]
  exact .cons ⟨rfl, le_rfl⟩ <| .cons ⟨rfl, le_rfl⟩ <| .cons ⟨rfl, le_rfl⟩ <| .cons ⟨rfl, hmac⟩ <|
    .cons ⟨rfl, le_rfl⟩ <| .cons ⟨rfl, le_rfl⟩ <| .cons ⟨rfl, le_rfl⟩ <| .cons ⟨rfl, hencoded⟩ <|
    .cons ⟨rfl, le_rfl⟩ .nil

/-- The fields are apart, and in the packet. -/
theorem fields_apart (h : (utf8 req.password).length ≤ maxPlaintextPassword) :
    (fields base64 req).Pairwise Apart ∧
      ∀ f ∈ fields base64 req, f.1 + f.2.length ≤ packetSize := by
  have hranges := fields_inRanges base64 h
  refine ⟨fieldRanges_disjoint.1.apart hranges, fun f hf => ?_⟩
  obtain ⟨r, hr, hstart, hlength⟩ := exists_inRange hranges hf
  have := fieldRanges_disjoint.2 r hr
  omega

end Fields

/-! ## The builder -/

section Builder

variable {base64 : Base64} {req : SetIpRequest}

/-- A packet is the zeroed buffer with the fields written into it. -/
theorem buildSetIpRequest_eq_ok (h : (utf8 req.password).length ≤ maxPlaintextPassword) :
    buildSetIpRequest base64 req =
      .ok ((Buffer.filled packetSize 0).writeAll (fields base64 req)) := by
  have hencoded := (length_encode_le_capacity base64).mpr h
  have hend : offPassword + (base64.encode (utf8 req.password)).length ≤ packetSize :=
    (Nat.add_le_add_left hencoded offPassword).trans (by decide)
  simp only [buildSetIpRequest]
  rw [if_neg (not_lt.mpr hencoded),
    Buffer.copyFromSlice_eq _ rfl (by decide) (by decide), Res.ok_bind,
    Buffer.copyFromSlice_eq _ rfl (by decide) (by decide), Res.ok_bind,
    Buffer.setAt_eq _ (by decide), Res.ok_bind,
    Buffer.copyFromSlice_eq _ req.mac.length_eq (by decide) (by decide), Res.ok_bind,
    Buffer.copyFromSlice_eq _ rfl (by decide) (by decide), Res.ok_bind,
    Buffer.copyFromSlice_eq _ rfl (by decide) (by decide), Res.ok_bind,
    Buffer.copyFromSlice_eq _ rfl (by decide) (by decide), Res.ok_bind,
    Buffer.copyFromSlice_eq _ (Nat.add_sub_cancel_left _ _).symm (Nat.le_add_right _ _) hend,
    Res.ok_bind, Buffer.setAt_eq _ (by decide)]
  rfl

/-- A password of more than 21 bytes is an error. -/
theorem buildSetIpRequest_eq_err (h : maxPlaintextPassword < (utf8 req.password).length) :
    buildSetIpRequest base64 req = .err passwordTooLong := by
  have hencoded := mt (length_encode_le_capacity base64).mp (not_le.mpr h)
  exact if_pos (not_le.mp hencoded)

/-- The request in a packet. The text of the password ends at the first zero byte, or with its
range. -/
def readSetIp (base64 : Base64) (p : Packet) : Res Empty (Option SetIpRequest) := do
  let version ← le32At p.elems offVersion
  let newIp ← ipv4At p.elems Tvt.offIp
  let subnetMask ← ipv4At p.elems Tvt.offMask
  let gateway ← ipv4At p.elems Tvt.offGateway
  let dhcp ← index p.elems offDhcp
  let text := ((p.elems.drop offPassword).take passwordCapacity).takeWhile (· != 0)
  return ((base64.decode text).bind fromUtf8).map fun password =>
    { mac := p.slice Tvt.offMac 6 (by decide), password, newIp, subnetMask, gateway,
      dhcp := dhcp != 0, protocolVersion := version }

/-- A packet carries a request and nothing else. -/
structure Carries (base64 : Base64) (req : SetIpRequest) (p : Packet) : Prop where
  /-- It starts with the magic. -/
  magic : Stands p.elems 0 Tvt.magic
  /-- It is a packet of type 3. -/
  msgType : p.elems[offMsgType]? = some 3
  /-- The flag is one or zero. -/
  dhcp : p.elems[offDhcp]? = some (if req.dhcp then 1 else 0)
  /-- It reads back as the request, with the default for a version of zero. -/
  reads : readSetIp base64 p = .ok (some { req with protocolVersion := req.version })
  /-- The hardware address is read as its text. -/
  mac : macAt p.elems Tvt.offMac = .ok (macText [':'] req.mac.elems)
  /-- Each field is in its range. -/
  inRanges : List.Forall₂ InRange (fields base64 req) fieldRanges
  /-- Every byte outside the fields is zero. -/
  zero : ∀ k < packetSize, (∀ f ∈ fields base64 req, k < f.1 ∨ f.1 + f.2.length ≤ k) →
    p.elems[k]? = some 0

/-- The packet of a request. -/
def packet (base64 : Base64) (req : SetIpRequest) : Packet :=
  (Buffer.filled packetSize 0).writeAll (fields base64 req)

/-- Each field stands in the packet. -/
theorem stands_packet (base64 : Base64) (h : (utf8 req.password).length ≤ maxPlaintextPassword)
    {f : ℕ × List UInt8} (hf : f ∈ fields base64 req) :
    Stands (packet base64 req).elems f.1 f.2 := by
  obtain ⟨hapart, hle⟩ := fields_apart base64 h
  rw [packet, Buffer.elems_writeAll]
  exact stands_writeAll hapart (fun g hg => (hle g hg).trans_eq List.length_replicate.symm) hf

/-- Outside the fields, the packet is zero. -/
theorem getElem?_packet {k : ℕ} (hk : k < packetSize)
    (h : ∀ f ∈ fields base64 req, k < f.1 ∨ f.1 + f.2.length ≤ k) :
    (packet base64 req).elems[k]? = some 0 := by
  rw [packet, Buffer.elems_writeAll, getElem?_writeAll h]
  exact List.getElem?_replicate_of_lt hk

/-- After the text of the password, its range is zero. -/
theorem getElem?_afterPassword {k : ℕ}
    (hstart : offPassword + (base64.encode (utf8 req.password)).length ≤ k)
    (hend : k < offPassword + passwordCapacity) : (packet base64 req).elems[k]? = some 0 := by
  have hpassword : offPassword = 84 ∧ passwordCapacity = 28 := ⟨rfl, rfl⟩
  refine getElem?_packet (show k < 140 by omega) fun f hf => ?_
  rcases List.mem_append.mp hf with hhead | htail
  · have := headFields_le f hhead
    exact .inr (by omega)
  · rcases List.mem_pair.mp htail with rfl | rfl
    · exact .inr hstart
    · exact .inl (show k < 138 by omega)

/-- The range of the password has its text, and zeros after it. -/
theorem passwordRange (h : (utf8 req.password).length ≤ maxPlaintextPassword) :
    ((packet base64 req).elems.drop offPassword).take passwordCapacity =
      base64.encode (utf8 req.password) ++
        List.replicate (passwordCapacity - (base64.encode (utf8 req.password)).length) 0 := by
  have hencoded := (length_encode_le_capacity base64).mpr h
  have htext : Stands (packet base64 req).elems offPassword (base64.encode (utf8 req.password)) :=
    stands_packet base64 h (f := passwordField base64 req) (by simp [fields])
  have hzeros : Stands (packet base64 req).elems
      (offPassword + (base64.encode (utf8 req.password)).length)
      (List.replicate (passwordCapacity - (base64.encode (utf8 req.password)).length) 0) := by
    apply List.prefix_iff_getElem?.mpr
    intro k hk
    rw [List.length_replicate] at hk
    rw [List.getElem?_drop, getElem?_afterPassword (by omega) (by omega), List.getElem_replicate]
  have hboth := stands_append.mpr ⟨htext, hzeros⟩
  rw [Stands, List.prefix_iff_eq_take, List.length_append, List.length_replicate,
    Nat.add_sub_cancel' hencoded] at hboth
  exact hboth.symm

/-- The text of the password ends at the first zero byte of its range. -/
theorem takeWhile_passwordRange (h : (utf8 req.password).length ≤ maxPlaintextPassword) :
    (((packet base64 req).elems.drop offPassword).take passwordCapacity).takeWhile (· != 0) =
      base64.encode (utf8 req.password) := by
  have hne : ∀ c ∈ base64.encode (utf8 req.password), (c != 0) = true :=
    fun c hc => bne_iff_ne.mpr (base64.ne_zero_of_mem_encode hc)
  rw [passwordRange h, List.takeWhile_append_of_pos hne, List.takeWhile_replicate,
    if_neg (by decide), List.append_nil]

/-- The packet of a request carries it. -/
theorem carries_packet (base64 : Base64) (h : (utf8 req.password).length ≤ maxPlaintextPassword) :
    Carries base64 req (packet base64 req) := by
  have hstands := fun f hf => stands_packet base64 h (f := f) hf
  simp only [fields, headFields, passwordField, dhcpField, List.cons_append, List.nil_append,
    List.forall_mem_cons] at hstands
  obtain ⟨hmagic, hversion, htype, hmac, hip, hmask, hgateway, -, hdhcp, -⟩ := hstands
  refine ⟨hmagic, htype.head?, hdhcp.head?, ?_, macAt_stands req.mac.length_eq hmac,
    fields_inRanges base64 h, fun k hk hoff => getElem?_packet hk hoff⟩
  have hflag : ((if req.dhcp then 1 else 0 : UInt8) != 0) = req.dhcp := by
    cases req.dhcp <;> rfl
  simp only [readSetIp, le32At_stands hversion, ipv4At_stands hip, ipv4At_stands hmask,
    ipv4At_stands hgateway, index_of_getElem? hdhcp.head?, Res.ok_bind, takeWhile_passwordRange h,
    base64.decode_encode, Option.bind_some, fromUtf8_utf8, Option.map_some, hflag,
    Buffer.slice_eq hmac]
  rfl

end Builder

/-! ## The parser of an address -/

/-- A part of the text of an address: two hexadecimal digits of a byte. -/
def IsPair (part : List Char) (b : UInt8) : Prop := ∃ c d, part = [c, d] ∧ Oui.HexPair c d b

/-- The text of an address: two hexadecimal digits for each byte, separated by colons. -/
def IsMacText (text : List Char) (mac : Mac) : Prop :=
  ∃ parts, text = [':'].intercalate parts ∧ List.Forall₂ IsPair parts mac.elems

/-- The test of a part accepts the digits of a byte. -/
theorem isPair_iff (part : List Char) :
    (∃ b, IsPair part b) ↔ byteLen part = 2 ∧ (utf8 part).all isHexByte = true := by
  rw [all_utf8 Oui.asciiOnly_isHexByte, List.all_eq_true]
  constructor
  · rintro ⟨b, c, d, rfl, hpair⟩
    refine ⟨hpair.byteLen, fun x hx => ?_⟩
    rw [Oui.asciiClass_isHexByte]
    rcases List.mem_pair.mp hx with rfl | rfl
    · rw [hpair.1, Option.isSome_some]
    · rw [hpair.2, Option.isSome_some]
  · rintro ⟨hlen, hall⟩
    have hdigits (c : Char) (hc : c ∈ part) : (AddrParser.toDigit 16 c).isSome := by
      rw [← Oui.asciiClass_isHexByte]
      exact hall c hc
    rw [Oui.byteLen_digits hdigits] at hlen
    match part, hlen with
    | [c, d], _ =>
      obtain ⟨b, hb⟩ := Oui.exists_hexPair (hdigits c List.mem_cons_self)
        (hdigits d (List.mem_cons_of_mem c List.mem_cons_self))
      exact ⟨b, c, d, rfl, hb⟩

/-- The loop writes the byte of a part of two digits. -/
theorem parseMacLoop_pair {part : List Char} {b : UInt8} (h : IsPair part b)
    (text : List Char) (parts : List (List Char)) {i : ℕ} (hi : i < 6) (out : Mac) :
    parseMacLoop text (part :: parts) i out =
      parseMacLoop text parts (i + 1) (out.write i [b]) := by
  obtain ⟨hlen, hall⟩ := (isPair_iff part).mp ⟨b, h⟩
  obtain ⟨c, d, rfl, hdigits⟩ := h
  have htest : ¬ (byteLen [c, d] ≠ 2 ∨ (utf8 [c, d]).all isHexByte = false) := by
    rw [hlen, hall]
    decide
  rw [parseMacLoop, if_neg htest, Oui.u8FromHex_pair hdigits]
  simp only
  rw [Buffer.setAt_eq out hi, Res.ok_bind]

/-- The loop writes the bytes of its parts. -/
theorem parseMacLoop_eq_ok {parts : List (List Char)} {bytes : List UInt8}
    (h : List.Forall₂ IsPair parts bytes) (text : List Char) {i : ℕ} (hi : i + parts.length ≤ 6)
    (out : Mac) : parseMacLoop text parts i out = .ok (out.write i bytes) := by
  induction h generalizing i out with
  | nil => rw [parseMacLoop, Buffer.write_nil]
  | @cons part b parts bytes hpair _ ih =>
    rw [List.length_cons] at hi
    rw [parseMacLoop_pair hpair text parts (by omega), ih (by omega), Buffer.write_write]

/-- The loop returns an error if one of its parts is not two digits. -/
theorem parseMacLoop_eq_err {parts : List (List Char)} (text : List Char) {i : ℕ}
    (hi : i + parts.length ≤ 6) (h : ∃ part ∈ parts, ¬ ∃ b, IsPair part b) (out : Mac) :
    parseMacLoop text parts i out = .err (invalidMac text) := by
  induction parts generalizing i out with
  | nil =>
    obtain ⟨part, hpart, -⟩ := h
    exact absurd hpart List.not_mem_nil
  | cons first parts ih =>
    rw [List.length_cons] at hi
    by_cases hfirst : ∃ b, IsPair first b
    · have hrest : ∃ part ∈ parts, ¬ ∃ b, IsPair part b := by
        obtain ⟨part, hpart, hbad⟩ := h
        rcases List.mem_cons.mp hpart with rfl | hpart
        · exact absurd hfirst hbad
        · exact ⟨part, hpart, hbad⟩
      obtain ⟨b, hb⟩ := hfirst
      rw [parseMacLoop_pair hb text parts (by omega), ih (by omega) hrest]
    · rw [isPair_iff, not_and_or, Bool.not_eq_true] at hfirst
      rw [parseMacLoop, if_pos hfirst]

/-- Parts that are two digits each have bytes. -/
theorem exists_bytes {parts : List (List Char)} (h : ∀ part ∈ parts, ∃ b, IsPair part b) :
    ∃ bytes, List.Forall₂ IsPair parts bytes := by
  induction parts with
  | nil => exact ⟨[], .nil⟩
  | cons part parts ih =>
    obtain ⟨hpart, hparts⟩ := List.forall_mem_cons.mp h
    obtain ⟨b, hb⟩ := hpart
    obtain ⟨bytes, hbytes⟩ := ih hparts
    exact ⟨b :: bytes, .cons hb hbytes⟩

/-- No part has a colon. -/
theorem IsPair.notMem {part : List Char} {b : UInt8} (h : IsPair part b) : ':' ∉ part := by
  obtain ⟨c, d, rfl, hc, hd⟩ := h
  have hcolon : AddrParser.toDigit 16 ':' = none := by decide
  intro hmem
  rcases List.mem_pair.mp hmem with rfl | rfl
  · rw [hcolon] at hc
    cases hc
  · rw [hcolon] at hd
    cases hd

/-- Six parts of two digits are read as their bytes. -/
theorem parseMac_of_parts {text : List Char} {bytes : List UInt8}
    (h : List.Forall₂ IsPair (text.splitOn ':') bytes) (hlen : bytes.length = 6) :
    parseMac text = .ok ⟨bytes, hlen⟩ := by
  have hparts : (text.splitOn ':').length = 6 := h.length_eq.trans hlen
  simp only [parseMac]
  rw [if_neg (not_not.mpr hparts), parseMacLoop_eq_ok h text (by omega)]
  exact congrArg Res.ok (Buffer.write_all _ ⟨bytes, hlen⟩)

/-- The text of an address is split into its parts. -/
theorem IsMacText.splitOn {text : List Char} {mac : Mac} (h : IsMacText text mac) :
    List.Forall₂ IsPair (text.splitOn ':') mac.elems := by
  obtain ⟨parts, rfl, hparts⟩ := h
  have hne : parts ≠ [] := by
    rintro rfl
    have := hparts.length_eq
    rw [mac.length_eq] at this
    cases this
  have hboth := hparts.imp fun part b hpair => And.intro (IsPair.notMem hpair) hpair
  rwa [List.splitOn_intercalate ':' ((List.forall₂_and_left _ _).mp hboth).1 hne]

/-- `parse_mac` returns the address of a text of one. -/
theorem parseMac_eq_ok {text : List Char} {mac : Mac} (h : IsMacText text mac) :
    parseMac text = .ok mac :=
  parseMac_of_parts h.splitOn mac.length_eq

/-- It returns an error for any other text. -/
theorem parseMac_eq_err {text : List Char} (h : ¬ ∃ mac, IsMacText text mac) :
    parseMac text = .err (invalidMac text) := by
  simp only [parseMac]
  split_ifs with hlen
  · rfl
  · rw [not_not] at hlen
    refine parseMacLoop_eq_err text (by omega) ?_ _
    by_contra hnone
    -- Six parts of two digits each are the text of an address.
    have hall : ∀ part ∈ text.splitOn ':', ∃ b, IsPair part b := fun part hpart =>
      by_contra fun hbad => hnone ⟨part, hpart, hbad⟩
    obtain ⟨bytes, hbytes⟩ := exists_bytes hall
    exact h ⟨⟨bytes, hbytes.length_eq.symm.trans hlen⟩, _, (List.intercalate_splitOn ':').symm,
      hbytes⟩

/-- `parse_mac` accepts the texts of addresses, and nothing else. -/
theorem parseMac_eq_ok_iff {text : List Char} {mac : Mac} :
    parseMac text = .ok mac ↔ IsMacText text mac := by
  refine ⟨fun h => ?_, parseMac_eq_ok⟩
  by_contra hnot
  by_cases hmac : ∃ mac, IsMacText text mac
  · obtain ⟨mac', hmac'⟩ := hmac
    cases h.symm.trans (parseMac_eq_ok hmac')
    exact hnot hmac'
  · cases h.symm.trans (parseMac_eq_err hmac)

/-- Two digits in upper case are those of their byte. -/
theorem IsPair.map_toAsciiUppercase {part : List Char} {b : UInt8} (h : IsPair part b) :
    part.map toAsciiUppercase = hexByte b := by
  obtain ⟨c, d, rfl, hc, hd⟩ := h
  have hdigit : ∀ {c : Char} {n : ℕ}, AddrParser.toDigit 16 c = some n →
      toAsciiUppercase c = n.digitChar.toUpper := by
    intro c n hc
    have hall : ∀ m < 128, ∀ n ∈ AddrParser.toDigit 16 (Char.ofNat m),
        toAsciiUppercase (Char.ofNat m) = n.digitChar.toUpper := by decide +kernel
    have := hall c.toNat (Oui.of_toDigit hc).2
    rw [Char.ofNat_toNat] at this
    exact this n hc
  rw [hexByte, List.map_cons, List.map_cons, List.map_nil, hdigit hc, hdigit hd]

/-- The text of an address in upper case is the one that is read from a packet. -/
theorem IsMacText.map_toAsciiUppercase {text : List Char} {mac : Mac} (h : IsMacText text mac) :
    text.map toAsciiUppercase = macText [':'] mac.elems := by
  obtain ⟨parts, rfl, hparts⟩ := h
  have hbytes : parts.map (List.map toAsciiUppercase) = mac.elems.map hexByte := by
    rw [← List.forall₂_eq_eq_eq, List.forall₂_map_left_iff, List.forall₂_map_right_iff]
    exact hparts.imp fun part b hpair => hpair.map_toAsciiUppercase
  rw [map_intercalate, hbytes]
  rfl

/-! ## The parser of answers -/

/-- The parser of answers reads the hardware address and the address at the offsets of the builder:
from a datagram with the same bytes there as a packet, it reports those of the request. -/
theorem parse_sameFields {p : Packet} {mac : List Char} {ip : Ipv4Addr}
    (hmac : macAt p.elems Tvt.offMac = .ok mac) (hip : ipv4At p.elems Tvt.offIp = .ok ip)
    {src : SocketAddr} {data : List UInt8} {devices : List Device}
    (hsame : ∀ k, Tvt.offMac ≤ k → k < Tvt.offGateway + 4 → data[k]? = p.elems[k]?)
    (h : Tvt.parse src data = .ok devices) :
    ∀ d ∈ devices, d.mac = mac ∧ d.ip = if ip = .unspecified then src.ip else .v4 ip := by
  -- The parser reads the datagram at the indices of the two fields only.
  have hindex : ∀ k, Tvt.offMac ≤ k → k < Tvt.offGateway + 4 →
      (index data k : Res Empty UInt8) = index p.elems k := by
    intro k hstart hend
    rw [index, index, hsame k hstart hend]
  have hmac' : macAt data 0x20 = .ok mac := by
    rw [← hmac]
    simp only [macAt, Tvt.offMac, hindex 0x20 (by decide) (by decide),
      hindex (0x20 + 1) (by decide) (by decide), hindex (0x20 + 2) (by decide) (by decide),
      hindex (0x20 + 3) (by decide) (by decide), hindex (0x20 + 4) (by decide) (by decide),
      hindex (0x20 + 5) (by decide) (by decide)]
  have hip' : ipv4At data 0x28 = .ok ip := by
    rw [← hip]
    simp only [ipv4At, Tvt.offIp, hindex 0x28 (by decide) (by decide),
      hindex (0x28 + 1) (by decide) (by decide), hindex (0x28 + 2) (by decide) (by decide),
      hindex (0x28 + 3) (by decide) (by decide)]
  -- Each answer that the parser accepts has one device, with what stands at the two offsets.
  intro d hd
  simp only [Tvt.parse, hip', hmac', Res.ok_bind] at h
  generalize (if ip = .unspecified then src.ip else .v4 ip : IpAddr) = addr at h ⊢
  split_ifs at h
  · cases h
    exact absurd hd List.not_mem_nil
  · obtain ⟨other, -, h⟩ := Res.bind_eq_ok.mp h
    split_ifs at h
    · cases h
      exact absurd hd List.not_mem_nil
    · obtain ⟨t1, -, h⟩ := Res.bind_eq_ok.mp h
      split_ifs at h
      · obtain ⟨deviceType, -, h⟩ := Res.bind_eq_ok.mp h
        obtain ⟨serial, -, h⟩ := Res.bind_eq_ok.mp h
        cases h
        obtain rfl := List.mem_singleton.mp hd
        exact ⟨rfl, rfl⟩
      · obtain ⟨serial, -, h⟩ := Res.bind_eq_ok.mp h
        cases h
        obtain rfl := List.mem_singleton.mp hd
        exact ⟨rfl, rfl⟩

/-! ## The packet and its readers -/

/-- The builder returns an error for a password of more than 21 bytes, and otherwise a packet that
carries the request, in fields whose ranges are disjoint. The parser of answers reads the same two
fields at the same places. The parser of hardware addresses accepts six groups of two digits with
colons between them, and the text that it accepted is read from the packet. -/
theorem buildSetIpRequest_carries (base64 : Base64) :
    (∀ req : SetIpRequest,
      ((∃ e, buildSetIpRequest base64 req = .err e) ↔ 21 < (utf8 req.password).length) ∧
      ((utf8 req.password).length ≤ 21 → ∃ p, buildSetIpRequest base64 req = .ok p ∧
        Carries base64 req p ∧
        ∀ src data devices,
          (∀ k, Tvt.offMac ≤ k → k < Tvt.offGateway + 4 → data[k]? = p.elems[k]?) →
          Tvt.parse src data = .ok devices → ∀ d ∈ devices, d.mac = macText [':'] req.mac.elems ∧
            d.ip = if req.newIp = .unspecified then src.ip else .v4 req.newIp)) ∧
    (Ascending fieldRanges ∧ ∀ r ∈ fieldRanges, r.1 + r.2 ≤ packetSize) ∧
    (∀ text mac, parseMac text = .ok mac ↔ IsMacText text mac) ∧
    ∀ text req p, parseMac text = .ok req.mac → buildSetIpRequest base64 req = .ok p →
      macAt p.elems Tvt.offMac = .ok (text.map toAsciiUppercase) := by
  refine ⟨fun req => ⟨⟨?_, fun h => ⟨_, buildSetIpRequest_eq_err h⟩⟩, fun h => ?_⟩,
    fieldRanges_disjoint, fun text mac => parseMac_eq_ok_iff, ?_⟩
  · rintro ⟨e, he⟩
    by_contra h
    cases (buildSetIpRequest_eq_ok (not_lt.mp h)).symm.trans he
  · have hcarries := carries_packet base64 h
    have hip := stands_packet base64 h
      (f := (Tvt.offIp, req.newIp.octets)) (by simp [fields, headFields])
    exact ⟨packet base64 req, buildSetIpRequest_eq_ok h, hcarries, fun src data devices hsame =>
      parse_sameFields hcarries.mac (ipv4At_stands hip) hsame⟩
  · intro text req p htext hp
    by_cases h : (utf8 req.password).length ≤ maxPlaintextPassword
    · obtain rfl : packet base64 req = p :=
        Res.ok.inj ((buildSetIpRequest_eq_ok h).symm.trans hp)
      rw [(parseMac_eq_ok_iff.mp htext).map_toAsciiUppercase]
      exact (carries_packet base64 h).mac
    · cases (buildSetIpRequest_eq_err (not_le.mp h)).symm.trans hp

/-- A request with the password `admin`. -/
def exampleRequest : SetIpRequest where
  mac := ⟨[0x00, 0x11, 0x22, 0x33, 0x44, 0x55], rfl⟩
  password := "admin".toList
  newIp := ⟨192, 168, 0, 90⟩
  subnetMask := ⟨255, 255, 255, 0⟩
  gateway := ⟨192, 168, 0, 1⟩
  dhcp := false
  protocolVersion := 0

/-- With the standard codec, its packet reads back with the default version. -/
theorem buildSetIpRequest_carries_example :
    ∃ p, buildSetIpRequest .standard exampleRequest = .ok p ∧
      readSetIp .standard p = .ok (some { exampleRequest with protocolVersion := 65544 }) := by
  obtain ⟨hbuild, -, -, -⟩ := buildSetIpRequest_carries .standard
  obtain ⟨p, hp, hcarries, -⟩ := (hbuild exampleRequest).2 (by decide)
  have hversion : exampleRequest.version = 65544 := by decide
  have hreads := hcarries.reads
  rw [hversion] at hreads
  exact ⟨p, hp, hreads⟩

end TvtProvision

end Uscan
