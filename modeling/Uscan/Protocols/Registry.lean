import Mathlib.Data.UInt
import Mathlib.Tactic.Common

/-!
# The registry of engines

`protocols/mod.rs`: the engines in the order of their identifiers, with what each says of itself:
its name, the ports that it wants to be kept free, and its colour. Every engine is in the registry
once, under an identifier of its own (`registry_complete`, `registry_nodup`); two engines share the
name Dahua, and its colour with it.
-/

namespace Uscan

/-- The engines. -/
inductive Engine where
  | ssdp
  | wsd
  | dahua1
  | dahua2
  | hikvision
  | axis
  | bosch
  | googleCast
  | hanwha
  | vivotek
  | sony
  | ubiquiti
  | vision360
  | niceVision
  | panasonic
  | arecont
  | gigEVision
  | vstarcam
  | eaton
  | foscam
  | lantronix
  | microchip
  | advantech
  | eden
  | cyberPower
  | mssql
  | arp
  | tvt
  deriving DecidableEq, Repr

/-- `registry`: the engines and their identifiers. -/
def registry : List (UInt16 × Engine) :=
  [(1, .ssdp), (2, .wsd), (3, .dahua1), (4, .dahua2), (5, .hikvision), (6, .axis), (7, .bosch),
    (8, .googleCast), (9, .hanwha), (10, .vivotek), (11, .sony), (12, .ubiquiti), (13, .vision360),
    (14, .niceVision), (15, .panasonic), (16, .arecont), (17, .gigEVision), (18, .vstarcam),
    (19, .eaton), (20, .foscam), (23, .lantronix), (24, .microchip), (25, .advantech), (26, .eden),
    (28, .cyberPower), (29, .mssql), (30, .arp), (31, .tvt)]

/-- Every engine is in the registry. -/
theorem registry_complete (e : Engine) : ∃ id, (id, e) ∈ registry := by
  have hmem : e ∈ registry.map (·.2) := by
    cases e <;> decide
  obtain ⟨⟨id, e'⟩, hid, rfl⟩ := List.mem_map.mp hmem
  exact ⟨id, hid⟩

/-- No identifier and no engine is in the registry twice. -/
theorem registry_nodup : (registry.map (·.1)).Nodup ∧ (registry.map (·.2)).Nodup := by
  decide

namespace Engine

/-- `ScanEngine::name`. -/
def name (e : Engine) : List Char :=
  match e with
  | ssdp => "SSDP".toList
  | wsd => "WSDiscovery".toList
  | dahua1 => "Dahua".toList
  | dahua2 => "Dahua".toList
  | hikvision => "Hikvision".toList
  | axis => "Axis".toList
  | bosch => "Bosch".toList
  | googleCast => "Google".toList
  | hanwha => "Hanwha".toList
  | vivotek => "Vivotek".toList
  | sony => "Sony".toList
  | ubiquiti => "Ubiquiti".toList
  | vision360 => "360Vision".toList
  | niceVision => "NiceVision".toList
  | panasonic => "Panasonic".toList
  | arecont => "Arecont".toList
  | gigEVision => "GigEVision".toList
  | vstarcam => "VStarcam".toList
  | eaton => "Eaton".toList
  | foscam => "Foscam".toList
  | lantronix => "Lantronix".toList
  | microchip => "Microchip".toList
  | advantech => "Advantech".toList
  | eden => "Eden".toList
  | cyberPower => "CyberPower".toList
  | mssql => "MSSQL".toList
  | arp => "ARP".toList
  | tvt => "TVT".toList

/-- `ScanEngine::used_ports`. -/
def usedPorts (e : Engine) : List UInt16 :=
  match e with
  | ssdp => [1900]
  | wsd => [3702]
  | dahua1 => [5050]
  | dahua2 => [37810]
  | hikvision => [37020]
  | axis => []
  | bosch => [1758]
  | googleCast => []
  | hanwha => [7711]
  | vivotek => []
  | sony => []
  | ubiquiti => [10001]
  | vision360 => [3600]
  | niceVision => []
  | panasonic => [10670]
  | arecont => []
  | gigEVision => [3956]
  | vstarcam => [8600]
  | eaton => [4679]
  | foscam => [10000]
  | lantronix => [30718]
  | microchip => [30303]
  | advantech => []
  | eden => [8088]
  | cyberPower => [53566]
  | mssql => [1434]
  | arp => []
  | tvt => [23456]

/-- `ScanEngine::color`. -/
def color (e : Engine) : ℕ :=
  match e with
  | ssdp => 0x006400
  | wsd => 0x404040
  | dahua1 => 0x8b0000
  | dahua2 => 0x8b0000
  | hikvision => 0xff0000
  | axis => 0x806000
  | bosch => 0xff0000
  | googleCast => 0x00008B
  | hanwha => 0xff8c00
  | vivotek => 0x008080
  | sony => 0x000000
  | ubiquiti => 0x008080
  | vision360 => 0x800080
  | niceVision => 0x32948E
  | panasonic => 0x000000
  | arecont => 0x00008B
  | gigEVision => 0xff0000
  | vstarcam => 0x00008B
  | eaton => 0x0000ff
  | foscam => 0xff0000
  | lantronix => 0xFFA500
  | microchip => 0xFF0000
  | advantech => 0x008080
  | eden => 0xff0000
  | cyberPower => 0xff8c00
  | mssql => 0x000000
  | arp => 0x0000FF
  | tvt => 0x9932CC

end Engine

end Uscan
