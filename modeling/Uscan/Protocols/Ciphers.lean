import Uscan.Lib.Cursor
import Uscan.Protocols.Fixed
import Uscan.Protocols.Stream

/-!
# Enciphered answers

The two engines whose answers are enciphered. CyberPower applies one byte to everything after the
first five fields, and its fields have lengths of their own; `CyberPower.parse_answer` says that the
parser reads an answer back for every key, and no start of one. Foscam applies a key of eight bytes
that stands in the same answer, from the end of its header on; `Foscam.parse_encipher` says that
the parser makes no difference between an answer and its enciphered form.
-/

namespace Uscan

/-- Applying a key twice undoes it. -/
theorem xor_xor_self (b key : UInt8) : b ^^^ key ^^^ key = b := by
  rw [UInt8.xor_assoc, UInt8.xor_self, UInt8.xor_zero]

/-! ## CyberPower -/

namespace CyberPower

/-- A text with its length in a byte before it. -/
structure ShortText where
  /-- The text. -/
  text : List Char
  /-- Its length fits in a byte. -/
  length_le : (utf8 text).length ≤ 255

/-- The bytes of a text with its length before it. -/
def ShortText.bytes (s : ShortText) : List UInt8 :=
  UInt8.ofNat (utf8 s.text).length :: utf8 s.text

/-- The fields of an answer. -/
structure Answer where
  /-- The first byte. -/
  magic : UInt8
  /-- The key. -/
  key : UInt8
  hash : ShortText
  uint32 : UInt32
  uptime : UInt32
  byte1 : UInt8
  /-- The hardware address. -/
  mac : List UInt8
  mac_length : mac.length = 6
  byte2 : UInt8
  /-- The address. -/
  ip : Ipv4Addr
  mask : UInt32
  gateway : UInt32
  version : UInt32
  /-- The name of the device. -/
  deviceName : ShortText
  location : ShortText
  username : ShortText
  byte3 : UInt8
  uptime2 : UInt32

namespace Answer

/-- The fields that are sent in clear. -/
def clear (a : Answer) : List UInt8 :=
  [a.magic] ++ ([a.key] ++ (a.hash.bytes ++ (toBe32 a.uint32 ++ (toBe32 a.uptime ++ []))))

/-- The fields that are enciphered. -/
def secret (a : Answer) : List UInt8 :=
  [a.byte1] ++ (a.mac ++ ([a.byte2] ++ (a.ip.octets ++ (toBe32 a.mask ++ (toBe32 a.gateway ++
    (toBe32 a.version ++ (a.deviceName.bytes ++ (a.location.bytes ++ (a.username.bytes ++
      ([a.byte3] ++ (toBe32 a.uptime2 ++ [])))))))))))

/-- The answer as it is sent. -/
def bytes (a : Answer) : List UInt8 := a.clear ++ a.secret.map (· ^^^ a.key)

/-- The device that is reported for it. -/
def device (a : Answer) : Device where
  protocol := "CyberPower".toList
  version := 1
  ip := .v4 a.ip
  mac := macText [':'] a.mac
  deviceType := a.deviceName.text
  serial := macText [] a.mac

end Answer

/-! ### Fields -/

/-- A byte is read. -/
theorem decodes_readU8 (b : UInt8) : Decodes readU8 [b] fun q => (b, q) := decodes_getElem b

/-- As many bytes as asked for are read. -/
theorem decodes_readBytes (x : List UInt8) :
    Decodes (fun b p => readBytes b p x.length) x fun q => (x, q) := by
  intro b p hp
  simp only [readBytes]
  constructor
  · intro h
    have hle := h.length_le
    rw [List.length_drop] at hle
    rw [if_neg (by omega), h.slice_eq]
  · intro h
    exact if_pos h.lt

/-- A hardware address is read. -/
theorem decodes_readMac {mac : List UInt8} (h : mac.length = 6) :
    Decodes readMac mac fun q => (mac, q) := by
  have hread := decodes_readBytes mac
  rwa [h] at hread

/-- A text is read. -/
theorem decodes_readString (s : ShortText) :
    Decodes readString s.bytes fun q => (s.text, q) := by
  have hlen : (UInt8.ofNat (utf8 s.text).length).toNat = (utf8 s.text).length :=
    toNat_ofNat_of_lt (Nat.lt_succ_of_le s.length_le)
  have hbytes := (decodes_readBytes (utf8 s.text)).bind
    (k := fun _ s => some (fromUtf8Lossy s.1, s.2))
    (decodes_pure fun q => (fromUtf8Lossy (utf8 s.text), q))
  rw [List.append_nil, fromUtf8Lossy_utf8, ← hlen] at hbytes
  exact (decodes_readU8 _).bind hbytes

/-- A 32-bit integer is read. -/
theorem decodes_readU32Be (x : UInt32) : Decodes readU32Be (toBe32 x) fun q => (x, q) := by
  intro b p _
  constructor
  · intro h
    have hget (i : ℕ) (hi : i < 4) : b[p + i]? = some (toBe32 x)[i] := h.getElem? hi
    have h0 := hget 0 (by decide)
    rw [Nat.add_zero] at h0
    simp only [readU32Be, h0, hget 1 (by decide), hget 2 (by decide), hget 3 (by decide),
      Option.bind_eq_bind, Option.bind_some]
    exact congrArg (fun y => some (y, p + 4)) (be32_toBe32 x)
  · intro h
    have hlast : b[p + 3]? = none := List.getElem?_eq_none (Nat.lt_succ_iff.mp h.lt)
    simp [readU32Be, hlast]

/-- The integer of an address. -/
def ipInt (ip : Ipv4Addr) : UInt32 := be32 ip.a ip.b ip.c ip.d

/-- An address is read as its integer. -/
theorem decodes_ipInt (ip : Ipv4Addr) :
    Decodes readU32Be ip.octets fun q => (ipInt ip, q) := by
  have hread := decodes_readU32Be (ipInt ip)
  rwa [ipInt, toBe32_be32] at hread

/-- The bytes of the integer of an address are those of the address. -/
theorem octets_ipInt (ip : Ipv4Addr) :
    (⟨UInt8.ofNat ((ipInt ip).toNat / 2 ^ 24), UInt8.ofNat ((ipInt ip).toNat / 2 ^ 16 % 256),
      UInt8.ofNat ((ipInt ip).toNat / 2 ^ 8 % 256), UInt8.ofNat ((ipInt ip).toNat % 256)⟩ :
      Ipv4Addr) = ip :=
  ip.ofU32_toU32

/-! ### The packet -/

/-- The first fields are read in clear. -/
theorem decodes_readClear (a : Answer) :
    Decodes (fun b p => do
      let (_magic, pos) ← readU8 b p
      let (key, pos) ← readU8 b pos
      let (_hash, pos) ← readString b pos
      let (_uint32, pos) ← readU32Be b pos
      let (_uptime, pos) ← readU32Be b pos
      return (key, pos)) a.clear fun q => (a.key, q) := by
  refine (decodes_readU8 _).bind ?_
  refine (decodes_readU8 _).bind ?_
  refine (decodes_readString _).bind ?_
  refine (decodes_readU32Be _).bind ?_
  refine (decodes_readU32Be _).bind ?_
  exact decodes_pure _

/-- The other fields are read in the deciphered buffer. -/
theorem decodes_readDeciphered (a : Answer) :
    Decodes readDeciphered a.secret fun _ => a.device := by
  unfold readDeciphered Answer.secret
  refine (decodes_readU8 _).bind ?_
  refine (decodes_readMac a.mac_length).bind ?_
  refine (decodes_readU8 _).bind ?_
  refine (decodes_ipInt a.ip).bind ?_
  refine (decodes_readU32Be _).bind ?_
  refine (decodes_readU32Be _).bind ?_
  refine (decodes_readU32Be _).bind ?_
  refine (decodes_readString _).bind ?_
  refine (decodes_readString _).bind ?_
  refine (decodes_readString _).bind ?_
  refine (decodes_readU8 _).bind ?_
  refine (decodes_readU32Be _).bind ?_
  simp only [octets_ipInt]
  exact decodes_pure _

/-- A 32-bit integer that is read ends in the data. -/
theorem readU32Be_le {data : List UInt8} {p q : ℕ} {x : UInt32}
    (h : readU32Be data p = some (x, q)) : q ≤ data.length := by
  obtain ⟨b0, -, h⟩ := Option.bind_eq_some_iff.mp h
  obtain ⟨b1, -, h⟩ := Option.bind_eq_some_iff.mp h
  obtain ⟨b2, -, h⟩ := Option.bind_eq_some_iff.mp h
  obtain ⟨b3, hb3, h⟩ := Option.bind_eq_some_iff.mp h
  obtain ⟨hlt, -⟩ := List.getElem?_eq_some_iff.mp hb3
  obtain ⟨-, rfl⟩ := Prod.mk.inj (Option.some.inj h)
  exact hlt

/-- The fields in clear end in the data. -/
theorem readClear_le {data : List UInt8} {key : UInt8} {pos : ℕ}
    (h : readClear data = some (key, pos)) : pos ≤ data.length := by
  obtain ⟨⟨magic, p1⟩, -, h⟩ := Option.bind_eq_some_iff.mp h
  obtain ⟨⟨key', p2⟩, -, h⟩ := Option.bind_eq_some_iff.mp h
  obtain ⟨⟨hash, p3⟩, -, h⟩ := Option.bind_eq_some_iff.mp h
  obtain ⟨⟨uint32, p4⟩, -, h⟩ := Option.bind_eq_some_iff.mp h
  obtain ⟨⟨uptime, p5⟩, hlast, h⟩ := Option.bind_eq_some_iff.mp h
  obtain ⟨-, rfl⟩ := Prod.mk.inj (Option.some.inj h)
  exact readU32Be_le hlast

/-- The data with everything from `pos` on deciphered. -/
def deciphered (key : UInt8) (pos : ℕ) (data : List UInt8) : List UInt8 :=
  data.take pos ++ (data.drop pos).map (· ^^^ key)

/-- The parser deciphers what follows the fields in clear. The slice that it takes is in range. -/
theorem parse_of_readClear {data : List UInt8} {key : UInt8} {pos : ℕ}
    (h : readClear data = some (key, pos)) (src : SocketAddr) :
    parse src data = .ok (readDeciphered (deciphered key pos data) pos).toList := by
  have hle := readClear_le h
  simp only [parse, parseStream, h, subslice_eq hle le_rfl, List.take_length, Res.ok_bind,
    Res.pure_eq]
  rfl

/-- Without the fields in clear there is no device. -/
theorem parse_of_readClear_none {data : List UInt8} (h : readClear data = none)
    (src : SocketAddr) : parse src data = .ok [] := by
  simp only [parse, parseStream, h, Res.ok_bind, Res.pure_eq, Option.toList_none]

/-- Deciphering changes the data from `pos` on. -/
theorem drop_deciphered {data : List UInt8} {key : UInt8} {pos : ℕ} (h : pos ≤ data.length) :
    (deciphered key pos data).drop pos = (data.drop pos).map (· ^^^ key) :=
  List.drop_left' (List.length_take_of_le h)

/-- Deciphering keeps the length. -/
theorem length_deciphered {data : List UInt8} {key : UInt8} {pos : ℕ} (h : pos ≤ data.length) :
    (deciphered key pos data).length = data.length := by
  rw [deciphered, List.length_append, List.length_map, List.length_take_of_le h, List.length_drop]
  omega

/-- Deciphering undoes the cipher. -/
theorem map_xor_map_xor (key : UInt8) (x : List UInt8) :
    (x.map (· ^^^ key)).map (· ^^^ key) = x := by
  rw [List.map_map]
  exact List.map_id'' (fun b => xor_xor_self b key) x

/-- What stands enciphered in the data stands in the deciphered buffer. -/
theorem stands_deciphered {data x : List UInt8} {key : UInt8} {pos : ℕ} (hpos : pos ≤ data.length)
    (h : Stands data pos (x.map (· ^^^ key))) : Stands (deciphered key pos data) pos x := by
  rw [Stands, drop_deciphered hpos]
  have hmap := h.map (· ^^^ key)
  rwa [map_xor_map_xor] at hmap

/-- What is cut in the data is cut in the deciphered buffer. -/
theorem cut_deciphered {data x : List UInt8} {key : UInt8} {pos : ℕ}
    (h : Cut data pos (x.map (· ^^^ key))) : Cut (deciphered key pos data) pos x := by
  have hlen := @length_deciphered data key pos h.le
  refine ⟨hlen ▸ h.le, ?_, ?_⟩
  · rw [drop_deciphered h.le]
    have hmap := h.start.map (· ^^^ key)
    rwa [map_xor_map_xor] at hmap
  · have hlt := h.lt
    rw [List.length_map] at hlt
    rwa [hlen]

/-- The parser reads an answer back, whatever the key is and whatever follows. It finds no device in
a part of an answer that stops short of its end, and it returns on all data. -/
theorem parse_answer (src : SocketAddr) (a : Answer) :
    (∀ tail, parse src (a.bytes ++ tail) = .ok [a.device]) ∧
      (∀ n < a.bytes.length, parse src (a.bytes.take n) = .ok []) ∧
      ∀ data, ∃ devices, parse src data = .ok devices := by
  refine ⟨?_, ?_, ?_⟩
  · intro tail
    have hstands : Stands (a.bytes ++ tail) 0 a.bytes := stands_zero tail
    obtain ⟨hclear, hsecret⟩ := stands_append.mp hstands
    have hkey : readClear (a.bytes ++ tail) = some (a.key, 0 + a.clear.length) :=
      (decodes_readClear a _ 0 (Nat.zero_le _)).1 hclear
    have hpos := readClear_le hkey
    rw [parse_of_readClear hkey,
      (decodes_readDeciphered a _ _ (length_deciphered hpos ▸ hpos)).1
        (stands_deciphered hpos hsecret)]
    rfl
  · intro n hn
    have hall : Cut (a.bytes.take n) 0 a.bytes := cut_take hn
    -- The fields in clear are there, or they are not.
    rcases cut_append.mp hall with hclear | ⟨hclear, hsecret⟩
    · exact parse_of_readClear_none ((decodes_readClear a _ 0 (Nat.zero_le _)).2 hclear) src
    · have hkey : readClear (a.bytes.take n) = some (a.key, 0 + a.clear.length) :=
        (decodes_readClear a _ 0 (Nat.zero_le _)).1 hclear
      have hcut := cut_deciphered hsecret
      rw [parse_of_readClear hkey, (decodes_readDeciphered a _ _ hcut.le).2 hcut]
      rfl
  · intro data
    cases hread : readClear data with
    | none => exact ⟨_, parse_of_readClear_none hread src⟩
    | some r => exact ⟨_, parse_of_readClear hread src⟩

end CyberPower

/-! ## Foscam -/

namespace Foscam

/-- A plain answer in its enciphered form: with a flag, with the key in the header, and with the key
applied cyclically from the end of the header on. -/
def encipher (flag : UInt8) (key data : List UInt8) : List UInt8 :=
  data.take 0x06 ++ (flag :: (key ++ (data.take headerSize).drop 0x0F)) ++
    (data.drop headerSize).mapIdx fun i b => b ^^^ key.getD (i % 8) 0

/-- The fields that `parse` reads in the buffer. -/
def fields (buf : List UInt8) : Res Empty (List Device) := do
  let serial ← subslice buf 0x17 0x24
  let ip ← ipv4At buf 0x39
  let deviceType ← index buf 0x49
  return [{
    protocol := "Foscam".toList
    version := 1
    ip := .v4 ip
    mac := []
    deviceType := "Type ".toList ++ Nat.toDigits 10 deviceType.toNat
    serial := cstring serial }]

/-- An answer that is long enough and has the magic is read from its deciphered buffer. -/
theorem parse_of_magic {data : List UInt8} (hlen : answerSize ≤ data.length)
    (hmagic : Stands data 0 (toBe32 magic)) (src : SocketAddr) :
    parse src data = decipher data >>= fields := by
  rw [parse, if_neg (Nat.not_lt.mpr hlen), be32At_stands hmagic, Res.ok_bind,
    if_neg (not_not.mpr rfl)]
  rfl

/-- The fields are after the header. -/
theorem fields_congr {buf buf' : List UInt8} (hlen : buf.length = buf'.length)
    (hdrop : buf.drop headerSize = buf'.drop headerSize) : fields buf = fields buf' := by
  have hat (i : ℕ) (hi : headerSize ≤ i) : buf.drop i = buf'.drop i := by
    obtain ⟨k, rfl⟩ := Nat.exists_eq_add_of_le hi
    rw [← List.drop_drop, hdrop, List.drop_drop]
  have hindex (i : ℕ) (hi : headerSize ≤ i) : (index buf i : Res Empty UInt8) = index buf' i := by
    have hget : buf[i]? = buf'[i]? := by
      rw [← List.head?_drop, hat i hi, List.head?_drop]
    rw [index, index, hget]
  have hslice : (subslice buf 0x17 0x24 : Res Empty (List UInt8)) = subslice buf' 0x17 0x24 := by
    rw [subslice, subslice, hlen, List.drop_take, List.drop_take, hat 0x17 le_rfl]
  simp only [fields, hslice, ipv4At, hindex 0x39 (by decide), hindex (0x39 + 1) (by decide),
    hindex (0x39 + 2) (by decide), hindex (0x39 + 3) (by decide), hindex 0x49 (by decide)]

/-- Applying the key a second time undoes it. -/
theorem xorKey_mapIdx (key : List UInt8) (k : ℕ) (x : List UInt8) :
    xorKey key k (x.mapIdx fun i b => b ^^^ key.getD ((k + i) % 8) 0) = x := by
  induction x generalizing k with
  | nil => rfl
  | cons b x ih =>
    have hshift : (fun i (b : UInt8) => b ^^^ key.getD ((k + (i + 1)) % 8) 0) =
        fun i b => b ^^^ key.getD ((k + 1 + i) % 8) 0 := by
      funext i b
      rw [Nat.add_comm i, Nat.add_assoc]
    rw [List.mapIdx_cons, xorKey, Nat.add_zero, xor_xor_self, hshift, ih]

/-- The header of an enciphered answer. -/
def encipheredHeader (flag : UInt8) (key data : List UInt8) : List UInt8 :=
  data.take 0x06 ++ (flag :: (key ++ (data.take headerSize).drop 0x0F))

/-- The header keeps its size. -/
theorem length_encipheredHeader {data key : List UInt8} (flag : UInt8)
    (hlen : answerSize ≤ data.length) (hkey : key.length = 8) :
    (encipheredHeader flag key data).length = headerSize := by
  rw [answerSize] at hlen
  simp only [encipheredHeader, headerSize, List.length_append, List.length_cons, List.length_drop,
    List.length_take, hkey]
  omega

/-- An enciphered answer is deciphered: what follows its header is that of the plain one. -/
theorem decipher_encipher {data key : List UInt8} {flag : UInt8} (hlen : answerSize ≤ data.length)
    (hkey : key.length = 8) (hflag : flag ≠ 0) :
    decipher (encipher flag key data) =
      .ok (encipheredHeader flag key data ++ data.drop headerSize) := by
  have hheader := length_encipheredHeader flag hlen hkey
  have htake : (data.take 0x06).length = 0x06 := by
    rw [answerSize] at hlen
    exact List.length_take_of_le (by omega)
  have hall : Stands (encipher flag key data) 0 (encipher flag key data) := List.prefix_rfl
  obtain ⟨hfront, -⟩ := stands_append.mp hall
  obtain ⟨-, hrest⟩ := stands_append.mp hfront
  rw [htake, Nat.zero_add] at hrest
  obtain ⟨hflagAt, hkeyAt⟩ := stands_append (x := [flag]).mp hrest
  obtain ⟨hkeyAt, -⟩ := stands_append.mp hkeyAt
  have hslice := hkeyAt.subslice_eq (ε := Empty) (List.ne_nil_of_length_pos (by omega))
  rw [hkey] at hslice
  -- The key is the one that was applied.
  have hmask := xorKey_mapIdx key 0 (data.drop headerSize)
  simp only [Nat.zero_add] at hmask
  have htakeHeader : (encipher flag key data).take headerSize = encipheredHeader flag key data :=
    List.take_left' hheader
  have hdropHeader : xorKey key 0 ((encipher flag key data).drop headerSize) =
      data.drop headerSize := by
    rw [encipher, ← encipheredHeader, List.drop_left' hheader, hmask]
  rw [decipher, index_of_getElem? hflagAt.head?, Res.ok_bind, if_pos hflag]
  change ((subslice (encipher flag key data) 0x07 0x0F : Res Empty _)) = _ at hslice
  rw [hslice, Res.ok_bind, htakeHeader, hdropHeader]
  rfl

/-- A plain answer is left as it is. -/
theorem decipher_plain {data : List UInt8} (h : data[0x06]? = some 0) :
    decipher data = .ok data := by
  rw [decipher, index_of_getElem? h]
  rfl

/-- An enciphered answer and the plain one report the same devices. -/
theorem parse_encipher (src : SocketAddr) (data key : List UInt8) (flag : UInt8)
    (hlen : 0x57 ≤ data.length) (hmagic : Stands data 0 (toBe32 magic))
    (hplain : data[0x06]? = some 0) (hkey : key.length = 8) (hflag : flag ≠ 0) :
    parse src (encipher flag key data) = parse src data := by
  have hheader := length_encipheredHeader flag hlen hkey
  have hsum : headerSize + (data.drop headerSize).length = data.length := by
    rw [List.length_drop, headerSize]
    omega
  have hlen' : answerSize ≤ (encipher flag key data).length := by
    rw [encipher, ← encipheredHeader, List.length_append, hheader, List.length_mapIdx, hsum]
    exact hlen
  have hmagic' : Stands (encipher flag key data) 0 (toBe32 magic) := by
    have hpre : toBe32 magic <+: data.take 0x06 :=
      List.prefix_take_iff.mpr ⟨hmagic, by decide⟩
    rw [Stands, List.drop_zero, encipher, List.append_assoc]
    exact hpre.trans (List.prefix_append _ _)
  rw [parse_of_magic hlen' hmagic', parse_of_magic hlen hmagic, decipher_encipher hlen hkey hflag,
    decipher_plain hplain, Res.ok_bind, Res.ok_bind]
  apply fields_congr
  · rw [List.length_append, hheader, hsum]
  · exact List.drop_left' hheader

/-- An answer of the least length, enciphered. -/
theorem parse_encipher_zeros :
    parse ⟨.v4 ⟨10, 0, 0, 1⟩, 10000⟩ (encipher 1 [1, 2, 3, 4, 5, 6, 7, 8]
      (toBe32 magic ++ List.replicate 0x53 0)) =
    .ok [⟨"Foscam".toList, 1, .v4 ⟨0, 0, 0, 0⟩, [], "Type 0".toList, []⟩] :=
  (parse_encipher _ _ _ 1 (by decide) (stands_zero _) (by decide) (by decide) (by decide)).trans
    (by decide +kernel)

end Foscam

end Uscan
