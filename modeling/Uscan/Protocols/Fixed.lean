import Uscan.Protocols.Common

/-!
# Answers of a fixed layout

The engines whose answers are structures with fields at fixed offsets: VStarcam, Foscam, Lantronix,
and TVT. Each has the probe that its `scan` sends and the parser of an answer. The length is checked
before anything is read.
-/

namespace Uscan

/-! ## VStarcam -/

namespace Vstarcam

/-- `build_probe`. -/
def buildProbe : List UInt8 := [0x44, 0x48, 0x01, 0x01]

/-- `HEADER_SIZE`. -/
def headerSize : ℕ := 0x100

/-- `ANSWER_MAGIC`. -/
def answerMagic : UInt32 := 0x44480108

/-- `Vstarcam::parse`. -/
def parse (src : SocketAddr) (data : List UInt8) : Res Empty (List Device) :=
  if data.length < headerSize then .ok []
  else do
    let magic ← be32At data 0
    if magic ≠ answerMagic then return []
    else
      let model ← subslice data 0x7C (0x7C + 32)
      let serial ← subslice data 0x5C (0x5C + 32)
      let ip ← subslice data 0x04 (0x04 + 16)
      let mac ← macAt data 0x54
      return [{
        protocol := "VStarcam".toList
        version := 1
        ip := (parseIpAddr (cstring ip)).getD src.ip
        mac := mac
        deviceType := cstring model
        serial := cstring serial }]

/-- A request that comes back is shorter than an answer. -/
theorem parse_buildProbe (src : SocketAddr) : parse src buildProbe = .ok [] :=
  if_pos (by decide)

end Vstarcam

/-! ## Foscam -/

namespace Foscam

/-- `PROBE`. -/
def probe : List UInt8 :=
  [0x4D, 0x4F, 0x5F, 0x49, 0x00, 0x00, 0x00, 0x00, 0x00, 0x00, 0x00, 0x00, 0x00, 0x00, 0x00, 0x04,
    0x00, 0x00, 0x00, 0x00, 0x00, 0x00, 0x00, 0x00, 0x00, 0x00, 0x01]

/-- `ANSWER_SIZE`. -/
def answerSize : ℕ := 0x57

/-- `HEADER_SIZE`. -/
def headerSize : ℕ := 0x17

/-- `MAGIC`. -/
def magic : UInt32 := 0x4d4f5f49

/-- The bytes with the key applied cyclically, from its byte `i` on. -/
def xorKey (key : List UInt8) : ℕ → List UInt8 → List UInt8
  | _, [] => []
  | i, b :: t => (b ^^^ key.getD (i % 8) 0) :: xorKey key (i + 1) t

/-- The buffer that the fields are read from: the answer, deciphered after its header if its flag
says so. -/
def decipher (data : List UInt8) : Res Empty (List UInt8) := do
  let flag ← index data 0x06
  if flag ≠ 0 then
    let key ← subslice data 0x07 0x0F
    return data.take headerSize ++ xorKey key 0 (data.drop headerSize)
  else return data

/-- `Foscam::parse`. -/
def parse (_src : SocketAddr) (data : List UInt8) : Res Empty (List Device) :=
  if data.length < answerSize then .ok []
  else do
    let m ← be32At data 0
    if m ≠ magic then return []
    else
      let buf ← decipher data
      let serial ← subslice buf 0x17 0x24
      let ip ← ipv4At buf 0x39
      let deviceType ← index buf 0x49
      return [{
        protocol := "Foscam".toList
        version := 1
        ip := .v4 ip
        mac := []
        deviceType := "Type ".toList ++ Nat.toDigits 10 deviceType.toNat
        serial := cstring serial }]

/-- A request that comes back is shorter than an answer. -/
theorem parse_probe (src : SocketAddr) : parse src probe = .ok [] :=
  if_pos (by decide)

end Foscam

/-! ## Lantronix -/

namespace Lantronix

/-- `PROBE`. -/
def probe : List UInt8 := [0x00, 0x00, 0x00, 0xF6]

/-- `ANSWER_LEN`. -/
def answerLen : ℕ := 0x1E

/-- The device with this hardware address. -/
def device (src : SocketAddr) (protocol deviceType mac : List Char) : Device where
  protocol := protocol
  version := 1
  ip := src.ip
  mac := mac
  deviceType := deviceType
  serial := mac

/-- `Lantronix::parse`. A Vauban answer of another model is reported like any other answer. -/
def parse (src : SocketAddr) (data : List UInt8) : Res Empty (List Device) :=
  if data.length ≠ answerLen then .ok []
  else do
    let messageType ← index data 3
    if messageType ≠ 0xF7 then return []
    else
      let mac ← macAt data 0x18
      let magic ← index data 2
      let major ← index data 0x0C
      let minor ← index data 0x0D
      -- The models of Vauban answer to the probe of Lantronix.
      if magic = 0x15 ∧ major = 2 ∧ minor < 10 then
        let suffix := if minor = 2 then " 2".toList else if minor = 4 then " 4".toList else []
        return [device src "Vauban".toList ("Verso+".toList ++ suffix) mac]
      else if magic = 0x13 then return [device src "Vauban".toList "unknown".toList mac]
      else return [device src "Lantronix".toList "unknown".toList mac]

/-- A request that comes back has not the length of an answer. -/
theorem parse_probe (src : SocketAddr) : parse src probe = .ok [] :=
  if_pos (by decide)

end Lantronix

/-! ## TVT -/

namespace Tvt

/-- `PROBE_LEN`. -/
def probeLen : ℕ := 140

/-- `ANSWER_MIN_LEN`. -/
def answerMinLen : ℕ := 152

/-- `OFF_MAC`. -/
def offMac : ℕ := 0x20

/-- `OFF_IP`. -/
def offIp : ℕ := 0x28

/-- `OFF_MASK`. -/
def offMask : ℕ := 0x2c

/-- `OFF_GATEWAY`. -/
def offGateway : ℕ := 0x30

/-- `MHED`. -/
def magic : List UInt8 := [0x4D, 0x48, 0x45, 0x44]

/-- `build_probe`. -/
def buildProbe : List UInt8 :=
  magic ++ [0x09, 0x00, 0x01, 0x00, 0x01] ++ List.replicate (probeLen - 9) 0

/-- The condition on which `parse` drops a datagram, after its length: the magic, the version, or
the type of the message is another one. -/
def isOther (data : List UInt8) : Res Empty Bool := do
  let m ← subslice data 0 4
  let version ← index data 4
  let messageType ← subslice data 8 12
  return m != magic || version != 0x08 || messageType != [0x02, 0, 0, 0]

/-- `Tvt::parse`. -/
def parse (src : SocketAddr) (data : List UInt8) : Res Empty (List Device) :=
  if data.length < answerMinLen then .ok []
  else do
    let other ← isOther data
    if other then return []
    else
      let ip ← ipv4At data 0x28
      let t1 ← subslice data 0x0C (0x0C + 8)
      -- A longer answer has the type at a second place, for when the first one is empty.
      let deviceType ←
        if data.length ≥ 0xC4 + 8 ∧ cstring t1 = [] then
          cstring <$> subslice data 0xC4 (0xC4 + 8)
        else .ok (cstring t1)
      let mac ← macAt data 0x20
      let serial ← subslice data 0x8C (0x8C + 12)
      return [{
        protocol := "TVT".toList
        version := 1
        ip := if ip = .unspecified then src.ip else .v4 ip
        mac := mac
        deviceType := deviceType
        serial := if cstring serial = [] then mac else cstring serial }]

/-- A request that comes back is shorter than an answer. -/
theorem parse_buildProbe (src : SocketAddr) : parse src buildProbe = .ok [] :=
  if_pos (by decide +kernel)

end Tvt

end Uscan
