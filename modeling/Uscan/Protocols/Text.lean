import Uscan.Protocols.Common

/-!
# Answers of plain text

The engines whose answers are texts of their own: SSDP, whose answer has the header lines of HTTP;
Eaton, whose answer has objects with a name; Microchip, whose answer is a list of lines; and MSSQL,
whose answer alternates keys and values.
-/

namespace Uscan

/-! ## SSDP -/

namespace Ssdp

/-- `probe`: the search for the given host. -/
def probe (host : List Char) : List Char :=
  "M-SEARCH * HTTP/1.1\r\nHost: ".toList ++ host ++
    "\r\nST:upnp:rootdevice\r\nMan:\"ssdp:discover\"\r\nMX:2\r\n\r\n".toList

/-- The lines of a message that are not empty. -/
def lines (data : List Char) : List (List Char) :=
  (data.splitOnP fun c => c == '\r' || c == '\n').filter (· ≠ [])

/-- The loop of `extract_http_var`: the value of the first line with the name, in any case. -/
def findVar (name : List Char) : List (List Char) → Res Empty (List Char)
  | [] => .ok []
  | line :: rest =>
    match strFind [':'] line with
    | some s => do
      let a ← strSlice line 0 s
      let b ← strFrom line (s + 1)
      if eqIgnoreAsciiCase (trim a) name then return trim b else findVar name rest
    | none => findVar name rest

/-- `extract_http_var`. The first line is no header. -/
def extractHttpVar (data name : List Char) : Res Empty (List Char) :=
  findVar name ((lines data).drop 1)

/-- A byte that `split_server_details` skips before a token. -/
def isGap (b : UInt8) : Bool :=
  b == ascii ',' || b == ascii '/' || b == ascii ' ' || b == ascii '\t'

/-- A byte that ends the first part of a token. -/
def endsPart (b : UInt8) : Bool := b == ascii ',' || b == ascii '/'

/-- A byte that ends the second part of a token. -/
def endsToken (b : UInt8) : Bool := b == ascii ' ' || b == ascii ','

/-- The end of the second part of the token whose first part ends at `i`, if it has one. -/
def tokenEnd (b : List UInt8) (i : ℕ) : ℕ :=
  if b[i]? = some (ascii '/') then skipWhile (fun c => !endsToken c) b (i + 1) else i

/-- A gap is not inside the first part of a token. -/
theorem isGap_of_endsPart {b : UInt8} (h : endsPart b = true) : isGap b = true := by
  rcases Bool.or_eq_true_iff.mp h with h | h <;> simp [isGap, h]

/-- Where no token starts after a gap, the text is at its end. -/
theorem length_le_of_part_eq {b : List UInt8} {i start : ℕ} (hstart : start = skipWhile isGap b i)
    (h : skipWhile (fun c => !endsPart c) b start = start) : b.length ≤ start := by
  by_contra hlt
  have hlt : start < b.length := by omega
  have hgap : isGap b[start] = false := by
    subst hstart
    exact not_of_skipWhile hlt
  have hends : endsPart b[start] = false := by
    by_contra hends
    rw [isGap_of_endsPart (by simpa using hends)] at hgap
    cases hgap
  have := lt_skipWhile (p := fun c => !endsPart c) hlt (by simp [hends])
  omega

/-- A token does not end before its first part does. -/
theorem le_tokenEnd (b : List UInt8) (i : ℕ) : i ≤ tokenEnd b i := by
  unfold tokenEnd
  split_ifs
  · have := le_skipWhile (fun c => !endsToken c) b (i + 1)
    omega
  · exact le_rfl

/-- The loop of `split_server_details`, at the byte `i`. -/
def splitLoop (b : List UInt8) (i : ℕ) (out : List (List Char)) : Res Empty (List (List Char)) :=
  if _hi : i < b.length then
    -- No token: the text ends after the gap, and the loop with it.
    if _hpart : skipWhile (fun c => !endsPart c) b (skipWhile isGap b i) = skipWhile isGap b i then
      splitLoop b (skipWhile isGap b i) out
    else do
      let part := skipWhile (fun c => !endsPart c) b (skipWhile isGap b i)
      let first ← subslice b (skipWhile isGap b i) part
      let second ← subslice b part (tokenEnd b part)
      let token := trim (fromUtf8Lossy first ++ fromUtf8Lossy second)
      splitLoop b (tokenEnd b part) (if token = [] then out else out ++ [token])
  else .ok out
termination_by b.length - i
decreasing_by
  · have := length_le_of_part_eq rfl _hpart
    omega
  · have := le_skipWhile isGap b i
    have := le_skipWhile (fun c => !endsPart c) b (skipWhile isGap b i)
    have := le_tokenEnd b (skipWhile (fun c => !endsPart c) b (skipWhile isGap b i))
    omega

/-- `split_server_details`. -/
def splitServerDetails (device : List Char) : Res Empty (List (List Char)) :=
  splitLoop (utf8 device) 0 []

/-- `extract_uuid`. -/
def extractUuid (usn : List Char) : Res Empty (List Char) := do
  let s ← splitFirst "::".toList usn
  return stripPrefixOr "uuid:".toList s

/-- `Ssdp::parse`. -/
def parse (src : SocketAddr) (data : List UInt8) : Res Empty (List Device) := do
  let body := fromUtf8Lossy data
  let usn ← extractHttpVar body "USN".toList
  if usn = [] then return []
  else
    let server ← extractHttpVar body "SERVER".toList
    let tokens ← splitServerDetails server
    let serial ← extractUuid usn
    let last := trim (tokens.getLast?.getD [])
    return [{
      protocol := "SSDP".toList
      version := 0
      ip := src.ip
      mac := []
      deviceType := if last = [] then "anonymous".toList else last
      serial := serial }]

/-- A search that comes back is no answer: it has no line with a name of a service. -/
theorem parse_probe (src : SocketAddr) {host : List Char}
    (h : host = "239.255.255.250:1900".toList ∨ host = "255.255.255.255:1900".toList) :
    parse src (utf8 (probe host)) = .ok [] := by
  -- As a list of characters, the kernel reads the text faster than as a literal.
  have husn : extractHttpVar (probe host) "USN".toList = .ok [] := by
    delta probe
    rcases h with rfl | rfl
    · repeat rewrite [String.toList_ofList]
      decide +kernel
    · repeat rewrite [String.toList_ofList]
      decide +kernel
  rw [parse, fromUtf8Lossy_utf8, husn]
  rfl

end Ssdp

/-! ## Eaton -/

namespace Eaton

/-- `PROBE`. -/
def probe : List Char := "<SCAN_REQUEST/>".toList

/-- The byte after the spaces at `i`. -/
def skipSpaces (xml : List Char) (i : ℕ) : ℕ := skipWhile (· == ascii ' ') (utf8 xml) i

/-- `xml[i..].starts_with(pat)`. -/
def startsWithAt (xml : List Char) (i : ℕ) (pat : List Char) : Res Empty Bool := do
  let rest ← strFrom xml i
  return pat.isPrefixOf rest

/-- The end of `match_object`: the text from `i` up to the next tag, which must close the
object. -/
def objectText (xml : List Char) (i : ℕ) : Res Empty (Option (List Char)) := do
  let rest ← strFrom xml i
  let stop := i + (strFind ['<'] rest).getD (byteLen xml - i)
  let closes ← startsWithAt xml stop "</OBJECT>".toList
  if closes then
    let text ← strSlice xml i stop
    return some text
  else return none

/-- The middle of `match_object`, from the equals sign at `i` on: spaces, the quoted name, and the
end of the tag. -/
def matchName (xml : List Char) (i : ℕ) (name : List Char) : Res Empty (Option (List Char)) := do
  let equals ← startsWithAt xml i ['=']
  if !equals then return none
  else
    let i := skipSpaces xml (i + 1)
    let quote ← startsWithAt xml i ['"']
    if !quote then return none
    else
      let nameEnd := i + 1 + byteLen name
      if nameEnd > byteLen xml then return none
      else
        let found ← strSlice xml (i + 1) nameEnd
        if found ≠ name then return none
        else
          let ends ← startsWithAt xml nameEnd ['"', '>']
          if !ends then return none else objectText xml (nameEnd + 2)

/-- `match_object`: the text of the object that starts at `start`, if it has the name. -/
def matchObject (xml : List Char) (start : ℕ) (name : List Char) :
    Res Empty (Option (List Char)) :=
  let ws0 := start + byteLen "<OBJECT".toList
  let i := skipSpaces xml ws0
  if i = ws0 then .ok none
  else do
    let named ← startsWithAt xml i "name".toList
    if !named then return none else matchName xml (skipSpaces xml (i + 4)) name

/-- The loop of `extract_object_entry`, from the byte `cursor` on. -/
def extractObjectLoop (xml name : List Char) (cursor : ℕ) : Res Empty (Option (List Char)) :=
  if _hcursor : cursor ≤ byteLen xml then do
    let rest ← strFrom xml cursor
    match strFind "<OBJECT".toList rest with
    | none => return none
    | some off =>
      let captured ← matchObject xml (cursor + off) name
      match captured with
      | some text => return some text
      | none => extractObjectLoop xml name (cursor + off + 1)
  else .panicked
termination_by byteLen xml + 1 - cursor

/-- `extract_object_entry`. -/
def extractObjectEntry (xml name : List Char) : Res Empty (Option (List Char)) :=
  extractObjectLoop xml name 0

/-- `Eaton::parse`. -/
def parse (src : SocketAddr) (data : List UInt8) : Res Empty (List Device) := do
  let xml := fromUtf8Lossy data
  let description ← extractObjectEntry xml "System.Description".toList
  -- The name of the product stands in for a description that is missing.
  let model ←
    match description with
    | some m => .ok (some m)
    | none => extractObjectEntry xml "UPS.PowerSummary.iProduct".toList
  match model with
  | none => return []
  | some model =>
    let serial ← extractObjectEntry xml "UPS.PowerSummary.iSerialNumber".toList
    return [{
      protocol := "Eaton".toList
      version := 1
      ip := src.ip
      mac := []
      deviceType := model
      serial := serial.getD "Unknown".toList }]

/-- A request that comes back is no answer: it has none of its objects. -/
theorem parse_probe (src : SocketAddr) : parse src (utf8 probe) = .ok [] := by
  have hdescription : extractObjectEntry probe "System.Description".toList = .ok none := by
    decide +kernel
  have hproduct : extractObjectEntry probe "UPS.PowerSummary.iProduct".toList = .ok none := by
    decide +kernel
  rw [parse, fromUtf8Lossy_utf8, hdescription]
  simp only [Res.ok_bind, hproduct]
  rfl

end Eaton

/-! ## Microchip -/

namespace Microchip

/-- `PROBE`. -/
def probe : List Char := "Discover GCE Devices".toList

/-- A device of this engine. -/
def device (src : SocketAddr) (protocol mac deviceType serial : List Char) : Device where
  protocol := protocol
  version := 1
  ip := src.ip
  mac := mac
  deviceType := deviceType
  serial := serial

/-- `Microchip::parse`. -/
def parse (src : SocketAddr) (data : List UInt8) : Res Empty (List Device) :=
  match fromUtf8 data with
  | none => .ok [device src "Microchip".toList [] "Unknown".toList []]
  | some text =>
    if text = probe then .ok []
    else
      -- Four lines or more are an answer of GCE, and two or three one of Microchip.
      match (strReplace ['\r'] ['\n'] (strReplace ['\r', '\n'] ['\n'] text)).splitOn '\n' with
      | _ :: mac :: _ :: product :: _ =>
        .ok [device src "GCE".toList (normalizeMac (trim mac)) (trim product) (trim mac)]
      | hostname :: mac :: _ =>
        .ok [device src "Microchip".toList (normalizeMac (trim mac)) (trim hostname) (trim mac)]
      | _ => .ok []

/-- A request that comes back is left out, by comparison. -/
theorem parse_probe (src : SocketAddr) : parse src (utf8 probe) = .ok [] := by
  rw [parse, fromUtf8_utf8]
  exact if_pos rfl

end Microchip

/-! ## MSSQL -/

namespace Mssql

/-- `PROBE`. -/
def probe : List UInt8 := [0x02]

/-- `RESP`. -/
def resp : UInt8 := 0x05

/-- The loop of `parse` over the keys and values: the server name and the instance name before the
first empty key, the last one of each. -/
def readPairs : List (List Char) → Option (List Char) × Option (List Char) →
    Option (List Char) × Option (List Char)
  | k :: v :: rest, (server, inst) =>
    if k = [] then (server, inst)
    else if k = "ServerName".toList then readPairs rest (some v, inst)
    else if k = "InstanceName".toList then readPairs rest (server, some v)
    else readPairs rest (server, inst)
  | _, found => found

/-- `Mssql::parse`. -/
def parse (src : SocketAddr) (data : List UInt8) : Res Empty (List Device) :=
  if data.length < 3 then .ok []
  else do
    let first ← index data 0
    if first ≠ resp then return []
    else
      let len ← index data 1
      if len.toNat ≠ data.length - 3 then return []
      else
        let (server, inst) :=
          readPairs ((fromUtf8Lossy (data.drop 3)).splitOn ';') (none, none)
        return [{
          protocol := "MSSQL".toList
          version := 1
          ip := src.ip
          mac := []
          deviceType := inst.getD "Unknown".toList
          serial := server.getD "Unknown".toList }]

/-- A request that comes back is shorter than an answer. -/
theorem parse_probe (src : SocketAddr) : parse src probe = .ok [] :=
  if_pos (by decide)

end Mssql

end Uscan
