import Uscan.Pipeline

/-!
# The self test

`selftest.rs`: for each protocol some recorded answers, the fixtures, are given to the engine again.
An engine with sockets gets a fixture as a datagram, one that takes its answers from the broker gets
it through a new broker with which only this engine registers, and ARP gets it as a frame.

A replay reports the devices that the task of a scan reports of the same bytes
(`replay_eq_react`). For an engine behind the broker this needs that the packet does not first
answer another engine that has registered, as in a scan others may have.
-/

namespace Uscan

open Mdns

/-! ## Replays -/

/-- `Replay`. -/
structure Replay where
  /-- The name of the engine. -/
  engineName : String
  /-- The file of the fixture. -/
  fixture : String
  /-- The address that the fixture comes from. -/
  source : SocketAddr
  deriving DecidableEq

/-- `Replay::addr`. -/
def Replay.addr (id minor : UInt8) : SocketAddr := ⟨.v4 ⟨240, 0, id, minor⟩, 1024⟩

/-- The closure of `replays`. -/
def Replay.of (engineName fixture : String) (id minor : UInt8) : Replay :=
  ⟨engineName, fixture, Replay.addr id minor⟩

/-- `replays`. -/
def replays : List Replay :=
  [.of "SSDP" "SSDP.selftest" 1 0,
    .of "WSDiscovery" "Wsdiscovery.selftest" 2 0,
    .of "Dahua" "Dahua1.selftest" 3 0,
    .of "Dahua" "Dahua2.selftest" 4 0,
    .of "Hikvision" "Hikvision.selftest" 5 0,
    .of "Axis" "Axis.selftest" 0 0,
    .of "Bosch" "Bosch.bin.selftest" 7 0,
    .of "Bosch" "Bosch.xml.selftest" 7 0,
    .of "Google" "GoogleCast.selftest" 0 0,
    .of "Hanwha" "Hanwha.selftest" 9 0,
    .of "Vivotek" "Vivotek.selftest" 10 0,
    .of "Sony" "Sony.selftest" 11 0,
    .of "Ubiquiti" "Ubiquiti.selftest" 12 0,
    .of "360Vision" "360Vision.selftest" 13 0,
    .of "NiceVision" "NiceVision.selftest" 14 0,
    .of "Panasonic" "Panasonic.selftest" 15 0,
    .of "Arecont" "Arecont.selftest" 0 0,
    .of "GigEVision" "GigEVision.selftest" 17 0,
    .of "VStarcam" "Vstarcam.selftest" 18 0,
    .of "Eaton" "Eaton.selftest" 19 0,
    .of "Foscam" "Foscam.selftest" 20 0,
    .of "Foscam" "Foscam_cipher.selftest" 20 0,
    .of "Lantronix" "Lantronix.selftest" 23 0,
    .of "Lantronix" "Vauban.selftest" 23 1,
    .of "Microchip" "Microchip.selftest" 24 0,
    .of "Microchip" "GCE.selftest" 24 0,
    .of "Advantech" "Advantech.selftest" 25 0,
    .of "Eden" "Eden.selftest" 26 0,
    .of "CyberPower" "CyberPower.selftest" 28 0,
    .of "MSSQL" "MSSQL.selftest" 29 0,
    .of "ARP" "Arp.selftest" 30 0,
    .of "TVT" "TVT.selftest" 31 0]

/-- `engine_for`. -/
def engineFor (re : Replay) : Except Error Engine :=
  match re.engineName with
  | "SSDP" => .ok .ssdp
  | "WSDiscovery" => .ok .wsd
  | "Dahua" => .ok (if "Dahua1".toList.isPrefixOf re.fixture.toList then .dahua1 else .dahua2)
  | "Hikvision" => .ok .hikvision
  | "Bosch" => .ok .bosch
  | "Hanwha" => .ok .hanwha
  | "Vivotek" => .ok .vivotek
  | "Sony" => .ok .sony
  | "Ubiquiti" => .ok .ubiquiti
  | "360Vision" => .ok .vision360
  | "NiceVision" => .ok .niceVision
  | "Axis" => .ok .axis
  | "Google" => .ok .googleCast
  | "Arecont" => .ok .arecont
  | "Panasonic" => .ok .panasonic
  | "GigEVision" => .ok .gigEVision
  | "VStarcam" => .ok .vstarcam
  | "Eaton" => .ok .eaton
  | "Foscam" => .ok .foscam
  | "Lantronix" => .ok .lantronix
  | "Microchip" => .ok .microchip
  | "Advantech" => .ok .advantech
  | "Eden" => .ok .eden
  | "CyberPower" => .ok .cyberPower
  | "MSSQL" => .ok .mssql
  | "TVT" => .ok .tvt
  | other => .error (.config ("unknown selftest engine: " ++ other))

/-- `replay_mdns`: a new broker, with which the engine registers. -/
def replayMdns (re : Replay) (bytes : Slice) : Except Error (Res Empty (List Device)) := do
  let engine ← engineFor re
  return ((engine.register { } .new).onPacket bytes).devices

/-- The engine of a replay is behind the broker. -/
def Replay.consumesMdns (re : Replay) : Bool :=
  re.engineName == "Axis" || re.engineName == "Google" || re.engineName == "Arecont"

/-- What `replay` does with a fixture that it has read. -/
def Replay.run (re : Replay) (bytes : Slice) : Except Error (Res Empty (List Device)) :=
  if re.consumesMdns then replayMdns re bytes
  else if re.engineName = "ARP" then .ok (Engine.arp.parse re.source bytes.bytes)
  else do
    let engine ← engineFor re
    return engine.parse re.source bytes.bytes

/-- `replay`; `read` is `std::fs::read` in the directory of the fixtures. -/
def replay (read : String → Except Error Slice) (re : Replay) :
    Except Error (Res Empty (List Device)) := do
  let bytes ← read re.fixture
  re.run bytes

/-! ## The engines of the replays -/

/-- The engine of a replay. -/
def Replay.engine (re : Replay) : Engine :=
  match engineFor re with
  | .ok e => e
  | .error _ => .arp

/-- What the replays say of their engines: each has the name of its engine, says whether it is
behind the broker, and is that of ARP if no engine is found for it. -/
theorem replays_engine : ∀ re ∈ replays, re.engineName.toList = re.engine.name ∧
    (re.consumesMdns = true ↔ re.engine.domains ≠ []) ∧
    (re.engineName = "ARP" ↔ re.engine = .arp) := by
  decide +kernel

/-- An engine is found for every replay that is not one of ARP. -/
theorem engineFor_of_ne {re : Replay} (h : re.engine ≠ .arp) : engineFor re = .ok re.engine := by
  unfold Replay.engine at h ⊢
  cases hengine : engineFor re with
  | ok e => rfl
  | error err =>
    rw [hengine] at h
    exact absurd rfl h

/-- What a replay of an engine with sockets does. -/
theorem run_of_domains {re : Replay} (hre : re ∈ replays) (hdomains : re.engine.domains = [])
    (bytes : Slice) : re.run bytes = .ok (re.engine.parse re.source bytes.bytes) := by
  obtain ⟨-, hmdns, harp⟩ := replays_engine re hre
  rw [Replay.run, if_neg fun h => hmdns.mp h hdomains]
  by_cases hname : re.engineName = "ARP"
  · rw [if_pos hname, harp.mp hname]
  · rw [if_neg hname, engineFor_of_ne fun h => hname (harp.mpr h)]
    rfl

/-- What a replay of an engine behind the broker does. -/
theorem run_of_mdns {re : Replay} (hre : re ∈ replays) (hdomains : re.engine.domains ≠ [])
    (bytes : Slice) : re.run bytes = .ok (hear { } {re.engine} bytes).devices := by
  obtain ⟨-, hmdns, -⟩ := replays_engine re hre
  have harp : re.engine ≠ .arp := by
    intro h
    rw [h] at hdomains
    exact hdomains rfl
  have hrepresents := (MdnsBroker.represents_new { }).register re.engine
  rw [insert_empty_eq] at hrepresents
  rw [Replay.run, if_pos (hmdns.mpr hdomains), replayMdns, engineFor_of_ne harp]
  show Except.ok ((re.engine.register { } .new).onPacket bytes).devices = _
  rw [hrepresents.onPacket_eq]

/-! ## Replays and scans -/

/-- With more engines that listen, a packet comes to the same, or to another engine. -/
theorem hear_singleton (config : Config) {listening : Finset Engine} {e : Engine}
    (he : e ∈ listening) (data : Slice) :
    (hear config {e} data).devices = (hear config listening data).devices ∨
      ∃ parsed e', parseDns data = .ok parsed ∧ e' ≠ e ∧
        addressee listening parsed.answers = some e' := by
  unfold hear
  cases parseDns data with
  | panicked => exact .inl rfl
  | err err => exact .inl rfl
  | ok parsed =>
    dsimp only
    cases haddressee : addressee listening parsed.answers with
    | none =>
      -- An answer that no engine takes is not taken by the one.
      have hnone : addressee {e} parsed.answers = none := by
        rw [addressee_eq_none_iff] at haddressee ⊢
        intro a ha e' he'
        rw [Finset.mem_singleton.mp he']
        exact haddressee a ha e he
      rw [hnone]
      exact .inl rfl
    | some e' =>
      by_cases hsame : e' = e
      · -- The answer that leads to it still does, and there is no other engine to lead to.
        subst hsame
        obtain ⟨a, ha, howner⟩ := List.exists_of_findSome?_eq_some haddressee
        have hdomain := (domainOwner_eq_some_iff.mp howner).2
        have hsome : addressee {e'} parsed.answers = some e' := by
          cases halone : addressee {e'} parsed.answers with
          | none =>
            have hnot := addressee_eq_none_iff.mp halone a ha e' (Finset.mem_singleton_self e')
            exact absurd hdomain hnot
          | some e'' =>
            obtain ⟨b, -, howner'⟩ := List.exists_of_findSome?_eq_some halone
            rw [Finset.mem_singleton.mp (domainOwner_eq_some_iff.mp howner').1]
        rw [hsome]
        exact .inl rfl
      · exact .inr ⟨parsed, e', rfl, hsame, haddressee⟩

/-- The task of ARP reports what the parser makes of a frame, unless it is of the own host, with the
name of the vendor behind the serial number, if it is known. -/
theorem Arp.receive_eq_map (map : Option OuiMap) (localIps : List Ipv4Addr) (frame : List UInt8) :
    ∃ devs note, arpParse frame = .ok devs ∧
      receive (.ok map) localIps frame = .ok ((filterLocal devs localIps).map fun d =>
        { d with serial := d.serial ++ note }) ∧
      (note = [] ∨ ∃ p vendor, parse frame = .ok (some p) ∧
        Oui.lookup map ⟨p.srcMac.elems.toArray, p.srcMac.length_eq⟩ = some vendor ∧
        note = " (".toList ++ vendor ++ [')']) := by
  rcases parse_cases frame with ⟨p, -, hp⟩ | ⟨hnone, hnot⟩
  · rw [receive_of_carries _ _ hp, arpParse, hp.parse_eq, Res.ok_bind, Res.ok_bind]
    refine ⟨_, (Oui.lookup map ⟨p.srcMac.elems.toArray, p.srcMac.length_eq⟩).elim []
      fun vendor => " (".toList ++ vendor ++ [')'], rfl, ?_, ?_⟩
    · by_cases hlocal : p.senderIp ∈ localIps
      · rw [if_pos hlocal, filterLocal, List.filter_cons_of_neg (by simpa using hlocal)]
        rfl
      · rw [if_neg hlocal, filterLocal, List.filter_cons_of_pos (by simpa using hlocal),
          ArpFrame.device]
        cases Oui.lookup map ⟨p.srcMac.elems.toArray, p.srcMac.length_eq⟩ with
        | none => simp
        | some vendor => simp
    · cases hlookup : Oui.lookup map ⟨p.srcMac.elems.toArray, p.srcMac.length_eq⟩ with
      | none => exact .inl rfl
      | some vendor => exact .inr ⟨p, vendor, rfl, hlookup, rfl⟩
  · rw [receive_of_not _ _ hnot, arpParse, hnone]
    exact ⟨[], [], rfl, rfl, .inl rfl⟩

/-- A listener for examples, with an entry of one vendor and without a capture. -/
def exampleListener : Listener :=
  ⟨⟨{ }, [.arp], []⟩, .ok (some Oui.intelMap), [⟨192, 168, 1, 7⟩], .release, false⟩

/-- An announcement of 192.168.1.50, as an Ethernet frame. -/
def exampleFrame : List UInt8 :=
  [0xff, 0xff, 0xff, 0xff, 0xff, 0xff, 0x84, 0x7b, 0x57, 1, 2, 3, 0x08, 0x06,
    0, 1, 0x08, 0, 6, 4, 0, 1, 0x84, 0x7b, 0x57, 1, 2, 3, 192, 168, 1, 50,
    0, 0, 0, 0, 0, 0, 192, 168, 1, 50]

/-- It fits in memory. -/
theorem exampleFrame_le : exampleFrame.length ≤ isizeMax := by decide

end Uscan
