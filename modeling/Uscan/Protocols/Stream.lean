import Uscan.Protocols.Common

/-!
# Answers that are read as a stream

The engines whose answers are read field by field with a moving cursor: Ubiquiti, whose answer is a
list of type-length-value fields, and CyberPower, whose answer has length-prefixed texts and is
enciphered after its first five fields. A field that runs past the end drops the whole answer.
-/

namespace Uscan

/-! ## Ubiquiti -/

namespace Ubiquiti

/-- `build_probe`: the request version, the low byte first. -/
def buildProbe : List UInt8 := toLe32 1

/-- `HEADER_SIZE`. -/
def headerSize : ℕ := 4

/-- What the fields read so far have set. -/
structure Found where
  /-- The hardware address. -/
  mac : Option (List UInt8)
  /-- The address. -/
  ip : Option Ipv4Addr
  /-- The model. -/
  model : Option (List Char)
  deriving DecidableEq, Repr

/-- The match of `parse` on the type of a field: the first value of each kind counts. -/
def Found.read (f : Found) (vtype : UInt16) (value : List UInt8) : Res Empty Found :=
  if (vtype = 0x0001 ∨ vtype = 0x0013) ∧ value.length = 6 ∧ f.mac.isNone then
    .ok { f with mac := some value }
  else if vtype = 0x0002 ∧ value.length = 10 then do
    let ip ← ipv4At value 6
    return { f with mac := f.mac <|> some (value.take 6), ip := f.ip <|> some ip }
  else if (vtype = 0x000C ∨ vtype = 0x0015) ∧ f.model.isNone ∧ value ≠ [] then
    .ok { f with model := some (fromUtf8Lossy value) }
  else .ok f

/-- The loop of `parse` over the fields, from `pos` on: `none` where it drops the answer. -/
def readFields (data : List UInt8) (pos : ℕ) (f : Found) : Res Empty (Option Found) :=
  if pos < data.length then
    if pos + 3 ≥ data.length then .ok none
    else do
      let t0 ← index data pos
      let t1 ← index data (pos + 1)
      let size ← index data (pos + 2)
      if pos + 3 + size.toNat > data.length then return none
      else
        let value ← subslice data (pos + 3) (pos + 3 + size.toNat)
        -- The type zero drops the answer, though the value was there to be read.
        if le16 t0 t1 = 0 then return none
        else
          let f ← f.read (le16 t0 t1) value
          readFields data (pos + 3 + size.toNat) f
  else .ok (some f)
termination_by data.length - pos

/-- `Ubiquiti::parse`. -/
def parse (src : SocketAddr) (data : List UInt8) : Res Empty (List Device) :=
  if data.length < headerSize then .ok []
  else do
    let s0 ← index data 2
    let s1 ← index data 3
    if (be16 s0 s1).toNat ≠ data.length - headerSize then return []
    else
      let found ← readFields data headerSize ⟨none, none, none⟩
      match found with
      | none => return []
      | some f =>
        match f.mac with
        | none => return []
        | some mac =>
          return [{
            protocol := "Ubiquiti".toList
            version := 1
            ip := f.ip.elim src.ip .v4
            mac := macText [':'] mac
            deviceType := f.model.getD "unknown".toList
            serial := macText [':'] mac }]

/-- A request that comes back is no answer: it has no fields, and so no hardware address. -/
theorem parse_buildProbe (src : SocketAddr) : parse src buildProbe = .ok [] := by
  have hfields : readFields buildProbe headerSize ⟨none, none, none⟩ =
      .ok (some ⟨none, none, none⟩) := by
    decide +kernel
  rw [parse, hfields]
  rfl

end Ubiquiti

/-! ## CyberPower -/

namespace CyberPower

/-- `PROBE`. -/
def probe : List UInt8 := [0x11, 0x00, 0x00]

/-- `read_u8`. -/
def readU8 (data : List UInt8) (pos : ℕ) : Option (UInt8 × ℕ) :=
  data[pos]?.map fun b => (b, pos + 1)

/-- `read_u32_be`. -/
def readU32Be (data : List UInt8) (pos : ℕ) : Option (UInt32 × ℕ) := do
  let b0 ← data[pos]?
  let b1 ← data[pos + 1]?
  let b2 ← data[pos + 2]?
  let b3 ← data[pos + 3]?
  return (be32 b0 b1 b2 b3, pos + 4)

/-- The `n` bytes at `pos`, if there are so many. -/
def readBytes (data : List UInt8) (pos n : ℕ) : Option (List UInt8 × ℕ) :=
  if pos + n > data.length then none else some ((data.take (pos + n)).drop pos, pos + n)

/-- `read_mac`. -/
def readMac (data : List UInt8) (pos : ℕ) : Option (List UInt8 × ℕ) := readBytes data pos 6

/-- `read_string`. -/
def readString (data : List UInt8) (pos : ℕ) : Option (List Char × ℕ) := do
  let (len, pos) ← readU8 data pos
  let (bytes, pos) ← readBytes data pos len.toNat
  return (fromUtf8Lossy bytes, pos)

/-- The fields of `parse_stream` that are in clear: the key, and where they end. The magic byte is
not checked. -/
def readClear (data : List UInt8) : Option (UInt8 × ℕ) := do
  let (_magic, pos) ← readU8 data 0
  let (key, pos) ← readU8 data pos
  let (_hash, pos) ← readString data pos
  let (_uint32, pos) ← readU32Be data pos
  let (_uptime, pos) ← readU32Be data pos
  return (key, pos)

/-- The fields of `parse_stream` after those, in the deciphered buffer. -/
def readDeciphered (buf : List UInt8) (pos : ℕ) : Option Device := do
  let (_byte, pos) ← readU8 buf pos
  let (mac, pos) ← readMac buf pos
  let (_byte, pos) ← readU8 buf pos
  let (ip, pos) ← readU32Be buf pos
  let (_mask, pos) ← readU32Be buf pos
  let (_gateway, pos) ← readU32Be buf pos
  let (_version, pos) ← readU32Be buf pos
  let (deviceName, pos) ← readString buf pos
  let (_location, pos) ← readString buf pos
  let (_username, pos) ← readString buf pos
  let (_byte, pos) ← readU8 buf pos
  let (_uptime, _) ← readU32Be buf pos
  return {
    protocol := "CyberPower".toList
    version := 1
    ip := .v4 ⟨UInt8.ofNat (ip.toNat / 2 ^ 24), UInt8.ofNat (ip.toNat / 2 ^ 16 % 256),
      UInt8.ofNat (ip.toNat / 2 ^ 8 % 256), UInt8.ofNat (ip.toNat % 256)⟩
    mac := macText [':'] mac
    deviceType := deviceName
    serial := macText [] mac }

/-- `parse_stream`. -/
def parseStream (data : List UInt8) : Res Empty (Option Device) :=
  match readClear data with
  | none => .ok none
  | some (key, pos) => do
    -- What follows is enciphered with the key.
    let rest ← subslice data pos data.length
    return readDeciphered (data.take pos ++ rest.map (· ^^^ key)) pos

/-- `CyberPower::parse`. -/
def parse (_src : SocketAddr) (data : List UInt8) : Res Empty (List Device) := do
  let device ← parseStream data
  return device.toList

/-- A request that comes back is no answer: it ends before the fields do. -/
theorem parse_probe (src : SocketAddr) : parse src probe = .ok [] := by
  have hstream : parseStream probe = .ok none := by decide +kernel
  rw [parse, hstream]
  rfl

end CyberPower

end Uscan
