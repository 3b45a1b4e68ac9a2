import Uscan.Protocols.Common

/-!
# Dahua

The two Dahua engines. `dahua1.rs` reads a binary answer of three sections; `dahua2.rs` reads a
header and a JSON text, from which it takes texts and sections by hand. Both report a second device
for an IPv6 address in the answer.
-/

namespace Uscan

/-- The devices of a Dahua answer: one for its address, and one for its IPv6 address if that is an
address text. -/
def dahuaDevices (version : UInt32) (ip : IpAddr) (ipv6 : Option (List Char))
    (mac deviceType serial : List Char) : List Device :=
  let device (version : UInt32) (ip : IpAddr) : Device :=
    ⟨"Dahua".toList, version, ip, mac, deviceType, serial⟩
  match ipv6.bind parseIpAddr with
  | some ip6 => [device version ip, device 2 ip6]
  | none => [device version ip]

/-! ## Dahua1 -/

namespace Dahua1

/-- `DISCOVER`. -/
def discover : List UInt8 :=
  [0xa3, 0x01, 0x00, 0x01] ++ List.replicate 12 0 ++ [0x02] ++ List.replicate 15 0

/-- `SECTION1_LEN`. -/
def section1Len : ℕ := 0x78

/-- `MAC_MAX`. -/
def macMax : ℕ := 17

/-- The lines of a text that are not empty. -/
def lines (text : List Char) : List (List Char) :=
  (text.splitOnP fun c => c == '\r' || c == '\n').filter (· ≠ [])

/-- The loop of `parse_section3`: the keys and values of the lines with a colon, the last one
first. -/
def readLines : List (List Char) → List (List Char × List Char) →
    Res Empty (List (List Char × List Char))
  | [], out => .ok out
  | line :: rest, out =>
    match strFind [':'] line with
    | some s => do
      let key ← strSlice line 0 s
      let value ← strFrom line (s + 1)
      readLines rest ((key, value) :: out)
    | none => readLines rest out

/-- `parse_section3`. -/
def parseSection3 (data : List UInt8) : Res Empty (List (List Char × List Char)) :=
  readLines (lines (fromUtf8Lossy data)) []

/-- `HashMap::get`, where later lines have replaced earlier ones. -/
def get (values : List (List Char × List Char)) (key : List Char) : Option (List Char) :=
  (values.find? (·.1 == key)).map (·.2)

/-- The IPv6 address text of an answer: what stands before the first semicolon, and there before the
first slash. -/
def cutIpv6 (v6 : List Char) : Res Empty (List Char) := do
  let s ← splitFirst [';'] v6
  splitFirst ['/'] s

/-- The address of an answer. -/
def answerIp (src : SocketAddr) (data : List UInt8) : Res Empty IpAddr := do
  let raw ← le32At data 0x38
  if raw ≠ 0 then
    let ip ← ipv4At data 0x38
    return .v4 ip
  else return src.ip

/-- The last part of `parse`: section 3, from `start` on, and the devices. -/
def readSection3 (data : List UInt8) (start len : ℕ) (ip : IpAddr) (macRaw model : List Char) :
    Res Empty (List Device) := do
  let values ←
    if len > 0 then do
      let section3 ← subslice data start (start + len)
      parseSection3 section3
    else .ok []
  let ipv6 ←
    match get values "IPv6Addr".toList with
    | some v6 => some <$> cutIpv6 v6
    | none => .ok none
  return dahuaDevices 1 ip ipv6 (normalizeMac macRaw) model
    ((get values "SerialNo".toList).getD macRaw)

/-- `Dahua1::parse`. -/
def parse (src : SocketAddr) (data : List UInt8) : Res Empty (List Device) :=
  if data.length < section1Len then .ok []
  else do
    let magic ← index data 0
    if magic ≠ 0xb3 then return []
    else
      let section2Len ← index data 2
      let l0 ← index data 0x14
      let l1 ← index data 0x15
      if section1Len + section2Len.toNat + (le16 l0 l1).toNat ≠ data.length then return []
      else
        -- Section 2 has the hardware address, and after it a model that replaces that of section 1.
        let ip ← answerIp src data
        let model ← subslice data 0x28 0x38
        let macSize := min macMax section2Len.toNat
        let macRaw ← subslice data section1Len (section1Len + macSize)
        let override ← subslice data (section1Len + macSize) (section1Len + section2Len.toNat)
        readSection3 data (section1Len + section2Len.toNat) (le16 l0 l1).toNat ip
          (fromUtf8Lossy macRaw)
          (if section2Len.toNat > macSize then fromUtf8Lossy override else cstring model)

/-- A request that comes back is shorter than an answer. -/
theorem parse_discover (src : SocketAddr) : parse src discover = .ok [] :=
  if_pos (by decide)

end Dahua1

/-! ## Dahua2 -/

namespace Dahua2

/-- `HEADER_SIZE`. -/
def headerSize : ℕ := 0x20

/-- `BODY`. -/
def body : List Char :=
  "\x7b\"method\":\"DHDiscover.search\",\"params\":\x7b\"mac\":\"\",\"uni\":0\x7d\x7d\n".toList

/-- `header`. -/
def header (bodyLen : UInt32) : List UInt8 :=
  toLe32 0x20 ++ [0x44, 0x48, 0x49, 0x50] ++ List.replicate 8 0 ++ toLe32 bodyLen ++
    List.replicate 4 0 ++ toLe32 bodyLen ++ List.replicate 4 0

/-- `build_probe`. -/
def buildProbe : List UInt8 := header (UInt32.ofNat (byteLen body)) ++ utf8 body

/-- `skip_spaces`. -/
def skipSpaces (s : List Char) (i : ℕ) : ℕ := skipWhile (· == ascii ' ') (utf8 s) i

/-- The value that starts at the byte `j`: up to the next `close` if `start` stands there. A text
comes without its quotes, a section with its braces. -/
def valueAt (json : List Char) (j : ℕ) (start close : Char) (inclusive : Bool) :
    Res Empty (Option (List Char)) :=
  if j < byteLen json ∧ (utf8 json)[j]? = some (ascii start) then do
    let first := if inclusive then j else j + 1
    let rest ← strFrom json first
    match strFind [close] rest with
    | none => return none
    | some stop =>
      let value ← strSlice json first (first + stop + if inclusive then 1 else 0)
      return some value
  else .ok none

/-- The loop of `extract_json_string` and of `extract_json_section`, from the byte `cursor` on: the
first value after a quoted key, a colon, and spaces. -/
def extractJsonLoop (key json : List Char) (start close : Char) (inclusive : Bool) (cursor : ℕ) :
    Res Empty (Option (List Char)) :=
  if _hcursor : cursor ≤ byteLen json then do
    let rest ← strFrom json cursor
    match strFind ('"' :: key ++ ['"']) rest with
    | none => return none
    | some off =>
      let i := skipSpaces json (cursor + off + byteLen ('"' :: key ++ ['"']))
      let value ←
        if i < byteLen json ∧ (utf8 json)[i]? = some (ascii ':') then
          valueAt json (skipSpaces json (i + 1)) start close inclusive
        else .ok none
      match value with
      | some v => return some v
      | none => extractJsonLoop key json start close inclusive (cursor + off + 1)
  else .panicked
termination_by byteLen json + 1 - cursor

/-- `extract_json_string`. -/
def extractJsonString (key json : List Char) : Res Empty (Option (List Char)) :=
  extractJsonLoop key json '"' '"' false 0

/-- `extract_json_section`. -/
def extractJsonSection (key json : List Char) : Res Empty (Option (List Char)) :=
  extractJsonLoop key json '\x7b' '\x7d' true 0

/-- The byte offset of the first slash or backslash. -/
def findSlash : List Char → Option ℕ
  | [] => none
  | c :: s => if c = '/' ∨ c = '\\' then some 0 else (findSlash s).map (byteLen [c] + ·)

/-- The IPv6 address text of an answer. The byte before the first slash goes with the slash. -/
def cutIpv6 (v6 : List Char) : Res Empty (List Char) :=
  match findSlash v6 with
  | some sub => if sub > 0 then strSlice v6 0 (sub - 1) else .ok v6
  | none => .ok v6

/-- The text of a key inside the section of another key. -/
def addressIn (sectionKey body : List Char) : Res Empty (Option (List Char)) := do
  let sec ← extractJsonSection sectionKey body
  match sec with
  | some sec => extractJsonString "IPAddress".toList sec
  | none => return none

/-- The devices of the text of an answer. -/
def readBody (src : SocketAddr) (body : List Char) : Res Empty (List Device) := do
  let method ← extractJsonString "method".toList body
  if method.getD [] ≠ "client.notifyDevInfo".toList then return []
  else
    let deviceType ← extractJsonString "DeviceType".toList body
    let ipv4 ← addressIn "IPv4Address".toList body
    let v6 ← addressIn "IPv6Address".toList body
    let ipv6 ←
      match v6 with
      | some v6 => some <$> cutIpv6 v6
      | none => .ok none
    let mac ← extractJsonString "mac".toList body
    let serial ← extractJsonString "SerialNo".toList body
    -- The source address stands in for one that is missing, is no address, or is unspecified.
    let ip := (parseIpAddr (ipv4.getD src.ip.text)).getD src.ip
    return dahuaDevices 2 (if ip = .v4 .unspecified then src.ip else ip) ipv6
      (mac.elim [] normalizeMac) (deviceType.getD "Dahua".toList)
      ((serial <|> mac).getD "Dahua device".toList)

/-- `Dahua2::parse`. -/
def parse (src : SocketAddr) (data : List UInt8) : Res Empty (List Device) :=
  if data.length < headerSize then .ok []
  else do
    let size ← le32At data 0
    if size ≠ UInt32.ofNat headerSize then return []
    else
      let packetSize ← le32At data 0x10
      if packetSize ≠ UInt32.ofNat (data.length - headerSize) then return []
      else readBody src (fromUtf8Lossy (data.drop headerSize))

/-- A search that comes back is no answer: its method is another one. -/
theorem parse_buildProbe (src : SocketAddr) : parse src buildProbe = .ok [] := by
  -- The header is the one of an answer, so that the parser reads the body.
  have hheader : ¬ buildProbe.length < headerSize ∧
      le32At buildProbe 0 = .ok (UInt32.ofNat headerSize) ∧
      le32At buildProbe 0x10 = .ok (UInt32.ofNat (buildProbe.length - headerSize)) := by
    delta buildProbe body
    rewrite [String.toList_ofList]
    decide +kernel
  obtain ⟨hlen, hsize, hpacket⟩ := hheader
  have hbody : fromUtf8Lossy (buildProbe.drop headerSize) = body := by
    have hdrop : buildProbe.drop headerSize = utf8 body := List.drop_left' rfl
    rw [hdrop, fromUtf8Lossy_utf8]
  have hmethod : extractJsonString "method".toList body =
      .ok (some "DHDiscover.search".toList) := by
    delta body
    repeat rewrite [String.toList_ofList]
    decide +kernel
  have hread : readBody src body = .ok [] := by
    have hne : (some "DHDiscover.search".toList).getD [] ≠ "client.notifyDevInfo".toList := by
      repeat rewrite [String.toList_ofList]
      decide +kernel
    rw [readBody, hmethod, Res.ok_bind]
    exact if_pos hne
  rw [parse, if_neg hlen, hsize, Res.ok_bind, if_neg (not_not.mpr rfl), hpacket,
    Res.ok_bind, if_neg (not_not.mpr rfl), hbody, hread]

end Dahua2

end Uscan
