import Uscan.Protocols.Common
import Uscan.Protocols.Requests

/-!
# Answers with XML elements

Hikvision, Bosch, and Eden, whose parsers take the text of elements with `extract_xml_string`. Each
module holds a copy of it. An answer of Bosch may also be a binary one, which is told by its length.
-/

namespace Uscan

/-! ## Hikvision -/

namespace Hikvision

/-- `PROBE`. -/
def probe : List Char :=
  ("<?xml version=\"1.0\" encoding=\"utf-8\"?><Probe>" ++
    "<Uuid>6a0eaae3-897b-4472-a692-ca0b08e09cd1</Uuid><Types>inquiry</Types></Probe>").toList

/-- `extract_xml_string` of `hikvision.rs`. -/
def extractXmlString (xml tag : List Char) : Res Empty (Option (List Char)) :=
  Uscan.extractXmlString xml tag

/-- `Hikvision::parse`. -/
def parse (src : SocketAddr) (data : List UInt8) : Res Empty (List Device) :=
  let xml := fromUtf8Lossy data
  if !strContains "<ProbeMatch>".toList xml then .ok []
  else do
    let deviceType ← extractXmlString xml "DeviceDescription".toList
    let serial ← extractXmlString xml "DeviceSN".toList
    let ipv4 ← extractXmlString xml "IPv4Address".toList
    let ipv6 ← extractXmlString xml "IPv6Address".toList
    let device (ip : IpAddr) : Device :=
      ⟨"Hikvision".toList, 1, ip, [], deviceType.getD [], serial.getD []⟩
    let first := device ((parseIpAddr (ipv4.getD src.ip.text)).getD src.ip)
    match ipv6.bind parseIpAddr with
    | some ip6 => return [first, device ip6]
    | none => return [first]

/-- A search that comes back is no answer: it is no probe match. -/
theorem parse_probe (src : SocketAddr) : parse src (utf8 probe) = .ok [] := by
  have hmatch : strContains "<ProbeMatch>".toList probe = false := by
    delta probe
    rewrite [String.toList_append]
    repeat rewrite [String.toList_ofList]
    decide +kernel
  rw [parse, fromUtf8Lossy_utf8]
  exact if_pos (by rw [hmatch]; rfl)

end Hikvision

/-! ## Bosch -/

namespace Bosch

/-- `BINARY_ANSWER_SIZE`. -/
def binaryAnswerSize : ℕ := 0x20

/-- `extract_xml_string` of `bosch.rs`. -/
def extractXmlString (xml tag : List Char) : Res Empty (Option (List Char)) :=
  Uscan.extractXmlString xml tag

/-- The binary branch of `parse`. The magic number is read with its bytes swapped, and the address
from the last byte to the first. -/
def parseBinary (data : List UInt8) : Res Empty (List Device) := do
  let magic ← be32At data 0
  if magic ≠ answerMagic then return []
  else
    let ipRaw ← le32At data 0x10
    let serial ← macAt data 0x08
    return [{
      protocol := "Bosch".toList
      version := 1
      ip := .v4 (.ofU32 ipRaw)
      mac := serial
      deviceType := "Bosch".toList
      serial := serial }]

/-- The XML branch of `parse`. -/
def parseXml (src : SocketAddr) (xml : List Char) : Res Empty (List Device) := do
  let model ← extractXmlString xml "friendlyName".toList
  let serialNumber ← extractXmlString xml "serialNumber".toList
  let physAddress ← extractXmlString xml "physAddress".toList
  let ipv4 ← extractXmlString xml "unitIPAddress".toList
  let ipv6 ← extractXmlString xml "unitIPv6Address".toList
  let device (ip : IpAddr) : Device :=
    ⟨"Bosch".toList, 2, ip, (physAddress.map normalizeMac).getD [], model.getD [],
      (serialNumber <|> physAddress).getD []⟩
  let first := device ((parseIpAddr (ipv4.getD [])).getD src.ip)
  match parseIpAddr (ipv6.getD []) with
  | some ip6 => return [first, device ip6]
  | none => return [first]

/-- `Bosch::parse`. -/
def parse (src : SocketAddr) (data : List UInt8) : Res Empty (List Device) :=
  if data.length = binaryAnswerSize then parseBinary data else parseXml src (fromUtf8Lossy data)

end Bosch

/-! ## Eden -/

namespace Eden

/-- `PROBE`. -/
def probe : List Char := "DETECT BOX".toList

/-- `ANSWER_MAGIC`. -/
def answerMagic : List Char := "BOX".toList

/-- `extract_xml_string` of `eden.rs`. -/
def extractXmlString (xml tag : List Char) : Res Empty (Option (List Char)) :=
  Uscan.extractXmlString xml tag

/-- `Eden::parse`. -/
def parse (src : SocketAddr) (data : List UInt8) : Res Empty (List Device) :=
  match (fromUtf8Lossy data).splitOn '|' with
  | magic :: body :: _ =>
    if magic ≠ answerMagic then .ok []
    else do
      let serial ← extractXmlString body "serialNumber".toList
      let ip ← extractXmlString body "adresseIP".toList
      return [{
        protocol := "Eden".toList
        version := 1
        ip := (parseIpAddr (ip.getD [])).getD src.ip
        mac := []
        deviceType := "Optima box".toList
        serial := serial.getD [] }]
  | _ => .ok []

/-- A request that comes back is no answer: it has no second part. -/
theorem parse_probe (src : SocketAddr) : parse src (utf8 probe) = .ok [] := by
  have hsplit : probe.splitOn '|' = [probe] := by decide +kernel
  rw [parse, fromUtf8Lossy_utf8, hsplit]

end Eden

end Uscan
