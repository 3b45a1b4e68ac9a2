import Uscan.Arp.Listen
import Uscan.Protocols.Ciphers
import Uscan.Protocols.DahuaSections
import Uscan.Protocols.Items
import Uscan.Protocols.Panasonic
import Uscan.Protocols.Probes
import Uscan.Protocols.Registry
import Uscan.Protocols.Sony
import Uscan.Protocols.SsdpTokens
import Uscan.Protocols.Structs
import Uscan.Protocols.XmlMatch

/-!
# Parsing a datagram

`parse` of every engine, as the receive tasks call it. No datagram makes it panic, but for three of
the engines, and a device has one of the ranks and names of the engine that reports it.
-/

namespace Uscan

namespace Engine

/-- `ScanEngine::parse`. The engines that take their answers from the broker have nothing to parse,
and the data of ARP are frames. -/
def parse (e : Engine) (src : SocketAddr) (data : List UInt8) : Res Empty (List Device) :=
  match e with
  | ssdp => Ssdp.parse src data
  | wsd => Wsd.parse src data
  | dahua1 => Dahua1.parse src data
  | dahua2 => Dahua2.parse src data
  | hikvision => Hikvision.parse src data
  | axis => .ok []
  | bosch => Bosch.parse src data
  | googleCast => .ok []
  | hanwha => Hanwha.parse src data
  | vivotek => Vivotek.parse src data
  | sony => Sony.parse src data
  | ubiquiti => Ubiquiti.parse src data
  | vision360 => Vision360.parse src data
  | niceVision => NiceVision.parse src data
  | panasonic => Panasonic.parse src data
  | arecont => .ok []
  | gigEVision => GigEVision.parse src data
  | vstarcam => Vstarcam.parse src data
  | eaton => Eaton.parse src data
  | foscam => Foscam.parse src data
  | lantronix => Lantronix.parse src data
  | microchip => Microchip.parse src data
  | advantech => Advantech.parse src data
  | eden => Eden.parse src data
  | cyberPower => CyberPower.parse src data
  | mssql => Mssql.parse src data
  | arp => Arp.arpParse data
  | tvt => Tvt.parse src data

/-- The ranks of the devices of an engine. The lowest one is that of the generic engines, whose
answers come from devices of any maker. -/
def ranks (e : Engine) : List UInt32 :=
  match e with
  | ssdp | wsd | gigEVision | arp => [0]
  | dahua1 => [1, 2]
  | dahua2 => [2]
  | bosch => [1, 2]
  | _ => [1]

/-- The names under which an engine reports devices. Those of GigEVision stand in the answers. -/
def protocols (e : Engine) : List (List Char) :=
  match e with
  | lantronix => ["Lantronix".toList, "Vauban".toList]
  | microchip => ["Microchip".toList, "GCE".toList]
  | e => [e.name]

/-- A device that an engine may report. -/
structure Reports (e : Engine) (d : Device) : Prop where
  /-- Its rank. -/
  rank : d.version ∈ e.ranks
  /-- Its protocol. -/
  protocol : e = .gigEVision ∨ d.protocol ∈ e.protocols

/-- An answer leads to such devices only. -/
def ReportsAll (e : Engine) (devs : List Device) : Prop := ∀ d ∈ devs, e.Reports d

end Engine

/-! ## Rules -/

namespace Engine

/-- No devices. -/
theorem reportsAll_nil (e : Engine) : e.ReportsAll [] := fun d hd => by cases hd

/-- One device. -/
theorem Reports.one {e : Engine} {d : Device} (h : e.Reports d) : e.ReportsAll [d] := by
  intro d' hd'
  rwa [List.mem_singleton.mp hd']

/-- An answer that leads to no devices. -/
theorem yields_nil (e : Engine) : (.ok [] : Res Empty (List Device)).Yields e.ReportsAll :=
  Res.yields_ok e.reportsAll_nil

/-- An answer that leads to one device. -/
theorem Reports.yields {e : Engine} {d : Device} (h : e.Reports d) :
    (.ok [d] : Res Empty (List Device)).Yields e.ReportsAll :=
  Res.yields_ok h.one

/-- Two devices. -/
theorem Reports.two {e : Engine} {d d' : Device} (h : e.Reports d) (h' : e.Reports d') :
    e.ReportsAll [d, d'] := by
  intro d'' hd''
  rcases List.mem_cons.mp hd'' with rfl | hd''
  · exact h
  · exact h'.one _ hd''

end Engine

/-- A byte inside a datagram is read. -/
theorem index_safe {data : List UInt8} {i : ℕ} (h : i < data.length) :
    (index data i : Res Empty UInt8).Safe fun _ => True :=
  Res.safe_of_eq_ok (index_eq h) trivial

/-- A part of a datagram is read. -/
theorem subslice_safe {data : List UInt8} {i j : ℕ} (hij : i ≤ j) (hj : j ≤ data.length) :
    (subslice data i j : Res Empty (List UInt8)).Safe fun part => part.length = j - i := by
  refine Res.safe_of_eq_ok (subslice_eq hij hj) ?_
  rw [List.length_drop, List.length_take, min_eq_left hj]

/-- An integer inside a datagram is read, the high byte first. -/
theorem be32At_safe {data : List UInt8} {i : ℕ} (h : i + 3 < data.length) :
    (be32At data i : Res Empty UInt32).Safe fun _ => True := by
  obtain ⟨x, hx⟩ := be32At_eq_ok h
  exact Res.safe_of_eq_ok hx trivial

/-- An integer inside a datagram is read, the low byte first. -/
theorem le32At_safe {data : List UInt8} {i : ℕ} (h : i + 3 < data.length) :
    (le32At data i : Res Empty UInt32).Safe fun _ => True := by
  obtain ⟨x, hx⟩ := le32At_eq_ok h
  exact Res.safe_of_eq_ok hx trivial

/-- A hardware address inside a datagram is read. -/
theorem macAt_safe {data : List UInt8} {i : ℕ} (h : i + 6 ≤ data.length) :
    (macAt data i : Res Empty (List Char)).Safe fun _ => True :=
  Res.safe_of_eq_ok (macAt_eq h) trivial

/-- An address inside a datagram is read. -/
theorem ipv4At_safe {data : List UInt8} {i : ℕ} (h : i + 3 < data.length) :
    (ipv4At data i : Res Empty Ipv4Addr).Safe fun _ => True := by
  refine Res.safe_of_eq_ok (a := ⟨data[i], data[i + 1], data[i + 2], data[i + 3]⟩) ?_ trivial
  rw [ipv4At, index_eq, Res.ok_bind, index_eq, Res.ok_bind, index_eq, Res.ok_bind, index_eq,
    Res.ok_bind, Res.pure_eq]

section
variable (src : SocketAddr) (data : List UInt8)

/-! ## Answers of a fixed layout -/

theorem Vstarcam.parse_safe : (parse src data).Safe (Engine.ReportsAll .vstarcam) := by
  unfold parse
  split_ifs with hlen
  · exact Engine.reportsAll_nil _
  · have hlen' : 0x100 ≤ data.length := not_lt.mp hlen
    refine (be32At_safe (by omega)).bind fun magic _ => ?_
    split_ifs
    · exact Engine.reportsAll_nil _
    · refine (subslice_safe (by omega) (by omega)).bind fun model _ => ?_
      refine (subslice_safe (by omega) (by omega)).bind fun serial _ => ?_
      refine (subslice_safe (by omega) (by omega)).bind fun ip _ => ?_
      refine (macAt_safe (by omega)).bind fun mac _ => ?_
      exact Engine.Reports.one ⟨List.mem_singleton_self _, .inr (List.mem_singleton_self _)⟩

/-- Deciphering keeps the length. -/
theorem Foscam.decipher_safe {data : List UInt8} (h : answerSize ≤ data.length) :
    (decipher data).Safe fun buf => buf.length = data.length := by
  have hlen : 0x57 ≤ data.length := h
  have hxor : ∀ (key b : List UInt8) (i : ℕ), (xorKey key i b).length = b.length := by
    intro key b
    induction b with
    | nil => exact fun i => rfl
    | cons x b ih => exact fun i => congrArg (· + 1) (ih (i + 1))
  unfold decipher
  refine (index_safe (by omega)).bind fun flag _ => ?_
  split_ifs
  · refine (subslice_safe (by omega) (by omega)).bind fun key _ => ?_
    change (data.take headerSize ++ xorKey key 0 (data.drop headerSize)).length = data.length
    rw [List.length_append, hxor, ← List.length_append, List.take_append_drop]
  · rfl

theorem Foscam.parse_safe : (parse src data).Safe (Engine.ReportsAll .foscam) := by
  unfold parse
  split_ifs with hlen
  · exact Engine.reportsAll_nil _
  · have hlen' : 0x57 ≤ data.length := not_lt.mp hlen
    refine (be32At_safe (by omega)).bind fun m _ => ?_
    split_ifs
    · exact Engine.reportsAll_nil _
    · refine (decipher_safe hlen').bind fun buf hbuf => ?_
      refine (subslice_safe (by omega) (by omega)).bind fun serial _ => ?_
      refine (ipv4At_safe (by omega)).bind fun ip _ => ?_
      refine (index_safe (by omega)).bind fun deviceType _ => ?_
      exact Engine.Reports.one ⟨List.mem_singleton_self _, .inr (List.mem_singleton_self _)⟩

theorem Lantronix.parse_safe : (parse src data).Safe (Engine.ReportsAll .lantronix) := by
  have hvauban : "Vauban".toList ∈ Engine.lantronix.protocols :=
    List.mem_cons_of_mem _ (List.mem_singleton_self _)
  unfold parse
  split_ifs with hlen
  · exact Engine.reportsAll_nil _
  · have hlen' : data.length = 0x1E := not_not.mp hlen
    refine (index_safe (by omega)).bind fun messageType _ => ?_
    split_ifs
    · exact Engine.reportsAll_nil _
    · refine (macAt_safe (by omega)).bind fun mac _ => ?_
      refine (index_safe (by omega)).bind fun magic _ => ?_
      refine (index_safe (by omega)).bind fun major _ => ?_
      refine (index_safe (by omega)).bind fun minor _ => ?_
      by_cases hmodel : magic = 0x15 ∧ major = 2 ∧ minor < 10
      · rw [if_pos hmodel]
        exact Engine.Reports.one ⟨List.mem_singleton_self _, .inr hvauban⟩
      · rw [if_neg hmodel]
        split_ifs
        · exact Engine.Reports.one ⟨List.mem_singleton_self _, .inr hvauban⟩
        · exact Engine.Reports.one ⟨List.mem_singleton_self _, .inr List.mem_cons_self⟩

theorem Tvt.parse_safe : (parse src data).Safe (Engine.ReportsAll .tvt) := by
  unfold parse
  split_ifs with hlen
  · exact Engine.reportsAll_nil _
  · have hlen' : 152 ≤ data.length := not_lt.mp hlen
    have hother : (isOther data).Safe fun _ => True := by
      refine (subslice_safe (by omega) (by omega)).bind fun m _ => ?_
      refine (index_safe (by omega)).bind fun version _ => ?_
      exact (subslice_safe (by omega) (by omega)).bind fun messageType _ => trivial
    refine hother.bind fun other _ => ?_
    split_ifs
    · exact Engine.reportsAll_nil _
    · refine (ipv4At_safe (by omega)).bind fun ip _ => ?_
      refine (subslice_safe (by omega) (by omega)).bind fun t1 _ => ?_
      by_cases hlong : data.length ≥ 0xC4 + 8 ∧ cstring t1 = []
      on_goal 1 => rw [if_pos hlong, subslice_eq (by omega) (by omega), Res.map_ok]
      on_goal 2 => rw [if_neg hlong]
      all_goals
        rw [Res.ok_bind]
        refine (macAt_safe (by omega)).bind fun mac _ => ?_
        refine (subslice_safe (by omega) (by omega)).bind fun serial _ => ?_
        exact Engine.Reports.one ⟨List.mem_singleton_self _, .inr (List.mem_singleton_self _)⟩

theorem GigEVision.parse_safe : (parse src data).Safe (Engine.ReportsAll .gigEVision) := by
  unfold parse
  split_ifs with hlen
  · exact Engine.reportsAll_nil _
  · have hlen' : data.length = 0x100 := not_not.mp hlen
    obtain ⟨payloadLen, hpayload, -⟩ := be16At_eq (i := 4) (show 4 + 1 < data.length by omega)
    rw [hpayload, Res.ok_bind]
    split_ifs
    · exact Engine.reportsAll_nil _
    · refine (be32At_safe (by omega)).bind fun version _ => ?_
      refine (le32At_safe (by omega)).bind fun ipRaw _ => ?_
      refine (macAt_safe (by omega)).bind fun mac _ => ?_
      refine (subslice_safe (by omega) (by omega)).bind fun serial _ => ?_
      refine (subslice_safe (by omega) (by omega)).bind fun vendor _ => ?_
      refine (subslice_safe (by omega) (by omega)).bind fun model _ => ?_
      by_cases hempty : cstring model = []
      on_goal 1 => rw [if_pos hempty, subslice_eq (by omega) (by omega), Res.map_ok]
      on_goal 2 => rw [if_neg hempty]
      all_goals
        rw [Res.ok_bind]
        exact Engine.Reports.one ⟨List.mem_singleton_self _, .inl rfl⟩

theorem Hanwha.parse_safe : (parse src data).Safe (Engine.ReportsAll .hanwha) :=
  Res.safe_of_eq_ok (parse_eq src data)
    (Engine.Reports.one ⟨List.mem_singleton_self _, .inr (List.mem_singleton_self _)⟩)

theorem NiceVision.parse_safe : (parse src data).Safe (Engine.ReportsAll .niceVision) := by
  unfold parse
  split_ifs with hlen
  · exact Engine.reportsAll_nil _
  · have hlen' : 0x5A ≤ data.length := not_lt.mp hlen
    refine (macAt_safe (by omega)).bind fun serial _ => ?_
    refine (le32At_safe (by omega)).bind fun ipRaw _ => ?_
    refine (subslice_safe (by omega) (by omega)).bind fun deviceType _ => ?_
    exact Engine.Reports.one ⟨List.mem_singleton_self _, .inr (List.mem_singleton_self _)⟩

theorem Advantech.parse_safe : (parse src data).Safe (Engine.ReportsAll .advantech) := by
  unfold parse
  split_ifs with hlen
  · exact Engine.reportsAll_nil _
  · have hlen' : 0x38 + 0x32 ≤ data.length := not_lt.mp hlen
    refine (macAt_safe (by omega)).bind fun serial _ => ?_
    refine (index_safe (by omega)).bind fun messageType _ => ?_
    exact Engine.Reports.one ⟨List.mem_singleton_self _, .inr (List.mem_singleton_self _)⟩

theorem Mssql.parse_safe : (parse src data).Safe (Engine.ReportsAll .mssql) := by
  unfold parse
  split_ifs with hlen
  · exact Engine.reportsAll_nil _
  · refine (index_safe (by omega)).bind fun first _ => ?_
    split_ifs
    · exact Engine.reportsAll_nil _
    · refine (index_safe (by omega)).bind fun len _ => ?_
      split_ifs
      · exact Engine.reportsAll_nil _
      · exact Engine.Reports.one ⟨List.mem_singleton_self _, .inr (List.mem_singleton_self _)⟩

/-! ## Answers that are read as a stream -/

theorem CyberPower.parse_safe : (parse src data).Safe (Engine.ReportsAll .cyberPower) := by
  have hdevice : ∀ (buf : List UInt8) (pos : ℕ) (d : Device), readDeciphered buf pos = some d →
      Engine.cyberPower.Reports d := by
    intro buf pos d hd
    simp only [readDeciphered, Option.bind_eq_bind, Option.bind_eq_some_iff, Option.pure_def,
      Option.some.injEq] at hd
    obtain ⟨-, -, -, -, -, -, -, -, -, -, -, -, -, -, -, -, -, -, -, -, -, -, -, -, rfl⟩ := hd
    exact ⟨List.mem_singleton_self _, .inr (List.mem_singleton_self _)⟩
  have hreports : ∀ o : Option Device, (∀ d, o = some d → Engine.cyberPower.Reports d) →
      Engine.cyberPower.ReportsAll o.toList :=
    fun o ho d hd => ho d (Option.mem_toList.mp hd)
  cases hclear : readClear data with
  | none =>
    rw [parse_of_readClear_none hclear]
    exact Engine.reportsAll_nil _
  | some clear =>
    obtain ⟨key, pos⟩ := clear
    rw [parse_of_readClear hclear]
    exact hreports _ (hdevice _ _)

theorem Ubiquiti.parse_safe : (parse src data).Safe (Engine.ReportsAll .ubiquiti) := by
  have hyields : (parse src data).Yields (Engine.ReportsAll .ubiquiti) := by
    unfold parse
    split_ifs
    · exact Engine.yields_nil _
    · refine .bind fun s0 => .bind fun s1 => ?_
      split_ifs
      · exact Engine.yields_nil _
      · refine .bind fun found => ?_
        split
        · exact Engine.yields_nil _
        · split
          · exact Engine.yields_nil _
          · exact Engine.Reports.yields
              ⟨List.mem_singleton_self _, .inr (List.mem_singleton_self _)⟩
  refine hyields.safe ?_
  by_cases h : ∃ ts, IsAnswer data ts
  · obtain ⟨ts, hts⟩ := h
    exact ⟨_, parse_of_isAnswer hts src⟩
  · exact ⟨_, parse_of_not_isAnswer (not_exists.mp h) src⟩

theorem Vivotek.parse_safe : (parse src data).Safe (Engine.ReportsAll .vivotek) := by
  have hyields : (parse src data).Yields (Engine.ReportsAll .vivotek) := by
    unfold parse
    split_ifs
    · exact Engine.yields_nil _
    · refine .bind fun m => ?_
      split_ifs
      · exact Engine.yields_nil _
      · refine .bind fun found => ?_
        split
        · exact Engine.yields_nil _
        · split
          · exact Engine.yields_nil _
          · exact Engine.Reports.yields
              ⟨List.mem_singleton_self _, .inr (List.mem_singleton_self _)⟩
  refine hyields.safe ?_
  by_cases h : ∃ is, IsAnswer data is
  · obtain ⟨is, his⟩ := h
    exact ⟨_, parse_of_isAnswer his src⟩
  · exact ⟨_, parse_of_not_isAnswer (not_exists.mp h) src⟩

/-! ## Answers with texts -/

theorem Ssdp.parse_safe : (parse src data).Safe (Engine.ReportsAll .ssdp) := by
  obtain ⟨usn, husn⟩ := extractHttpVar_ok (fromUtf8Lossy data) "USN".toList
  obtain ⟨server, hserver⟩ := extractHttpVar_ok (fromUtf8Lossy data) "SERVER".toList
  obtain ⟨serial, hserial⟩ := extractUuid_ok usn
  unfold parse
  dsimp only
  rw [husn, Res.ok_bind]
  split_ifs
  · exact Engine.reportsAll_nil _
  · rw [hserver, Res.ok_bind, splitServerDetails_eq, Res.ok_bind, hserial, Res.ok_bind]
    exact Engine.Reports.one ⟨List.mem_singleton_self _, .inr (List.mem_singleton_self _)⟩

theorem Wsd.parse_safe : (parse src data).Safe (Engine.ReportsAll .wsd) := by
  have htag : ∀ tag, (extractTag (fromUtf8Lossy data) tag).Safe fun _ => True := by
    intro tag
    by_cases h : prefixedFollows tag (fromUtf8Lossy data)
    · exact Res.safe_of_eq_ok (extractTag_of_follows h) trivial
    · exact Res.safe_of_eq_ok (extractTag_of_not_follows h) trivial
  refine (htag _).bind fun address _ => ?_
  split
  · exact Engine.reportsAll_nil _
  · refine (htag _).bind fun types _ => ?_
    split
    · exact Engine.reportsAll_nil _
    · split_ifs
      · exact Engine.reportsAll_nil _
      · exact Engine.Reports.one ⟨List.mem_singleton_self _, .inr (List.mem_singleton_self _)⟩

theorem Microchip.parse_safe : (parse src data).Safe (Engine.ReportsAll .microchip) := by
  have hgce : "GCE".toList ∈ Engine.microchip.protocols :=
    List.mem_cons_of_mem _ (List.mem_singleton_self _)
  unfold parse
  split
  · exact Engine.Reports.one ⟨List.mem_singleton_self _, .inr List.mem_cons_self⟩
  · split_ifs
    · exact Engine.reportsAll_nil _
    · split
      · exact Engine.Reports.one ⟨List.mem_singleton_self _, .inr hgce⟩
      · exact Engine.Reports.one ⟨List.mem_singleton_self _, .inr List.mem_cons_self⟩
      · exact Engine.reportsAll_nil _

/-- Eaton may panic. -/
theorem Eaton.parse_yields : (parse src data).Yields (Engine.ReportsAll .eaton) := by
  unfold parse
  refine .bind fun description => ?_
  cases description
  all_goals
    refine .bind fun model => ?_
    cases model with
    | none => exact Engine.yields_nil _
    | some model =>
      refine .bind fun serial => ?_
      exact Engine.Reports.yields ⟨List.mem_singleton_self _, .inr (List.mem_singleton_self _)⟩

/-- So may 360Vision. -/
theorem Vision360.parse_yields : (parse src data).Yields (Engine.ReportsAll .vision360) := by
  unfold parse
  dsimp only
  split_ifs
  · exact Engine.yields_nil _
  · refine .bind fun text => .bind fun pairs => ?_
    exact Engine.Reports.yields ⟨List.mem_singleton_self _, .inr (List.mem_singleton_self _)⟩

theorem Sony.parse_safe : (parse src data).Safe (Engine.ReportsAll .sony) := by
  have hdevices : ∀ v, Engine.ReportsAll .sony (devices src v) := by
    intro v
    unfold devices
    split
    · exact Engine.Reports.one ⟨List.mem_singleton_self _, .inr (List.mem_singleton_self _)⟩
    · exact Engine.reportsAll_nil _
  have hyields : (parse src data).Yields (Engine.ReportsAll .sony) := by
    unfold parse
    split_ifs
    · exact Engine.yields_nil _
    · refine .bind fun first => .bind fun last => ?_
      split_ifs
      · exact Engine.yields_nil _
      · exact .bind fun body => .bind fun lines => Res.yields_ok (hdevices _)
  exact hyields.safe (parse_ok src data)

theorem Panasonic.parse_safe : (parse src data).Safe (Engine.ReportsAll .panasonic) := by
  have hdevices : ∀ serial model ip, Engine.ReportsAll .panasonic (devices serial model ip) := by
    intro serial model ip
    unfold devices
    split
    · exact Engine.Reports.one ⟨List.mem_singleton_self _, .inr (List.mem_singleton_self _)⟩
    · exact Engine.reportsAll_nil _
  have hyields : (parse src data).Yields (Engine.ReportsAll .panasonic) := by
    unfold parse
    split_ifs
    · exact Engine.yields_nil _
    · exact .bind fun serial => .bind fun tlv => .bind fun ip => Res.yields_ok (hdevices _ _ _)
  exact hyields.safe (parse_ok src data)

/-! ## Answers with XML elements -/

theorem Hikvision.parse_safe : (parse src data).Safe (Engine.ReportsAll .hikvision) := by
  have hreports : ∀ ip deviceType serial,
      Engine.hikvision.Reports ⟨"Hikvision".toList, 1, ip, [], deviceType, serial⟩ :=
    fun _ _ _ => ⟨List.mem_singleton_self _, .inr (List.mem_singleton_self _)⟩
  have hyields : (parse src data).Yields (Engine.ReportsAll .hikvision) := by
    unfold parse
    dsimp only
    split_ifs
    · exact Engine.yields_nil _
    · refine .bind fun deviceType => .bind fun serial => .bind fun ipv4 => .bind fun ipv6 => ?_
      split
      · exact Res.yields_ok ((hreports _ _ _).two (hreports _ _ _))
      · exact (hreports _ _ _).yields
  exact hyields.safe (parse_ok src data)

theorem Bosch.parse_safe : (parse src data).Safe (Engine.ReportsAll .bosch) := by
  have hreports : ∀ ip mac deviceType serial,
      Engine.bosch.Reports ⟨"Bosch".toList, 2, ip, mac, deviceType, serial⟩ :=
    fun _ _ _ _ =>
      ⟨List.mem_cons_of_mem _ (List.mem_singleton_self _), .inr (List.mem_singleton_self _)⟩
  have hyields : (parse src data).Yields (Engine.ReportsAll .bosch) := by
    unfold parse
    split_ifs
    · refine .bind fun magic => ?_
      split_ifs
      · exact Engine.yields_nil _
      · refine .bind fun ipRaw => .bind fun serial => ?_
        exact Engine.Reports.yields ⟨List.mem_cons_self, .inr (List.mem_singleton_self _)⟩
    · refine .bind fun model => .bind fun serialNumber => .bind fun physAddress => ?_
      refine .bind fun ipv4 => .bind fun ipv6 => ?_
      dsimp only
      split
      · exact Res.yields_ok ((hreports _ _ _ _).two (hreports _ _ _ _))
      · exact (hreports _ _ _ _).yields
  exact hyields.safe (parse_ok src data)

theorem Eden.parse_safe : (parse src data).Safe (Engine.ReportsAll .eden) := by
  have hyields : (parse src data).Yields (Engine.ReportsAll .eden) := by
    unfold parse
    split
    · split_ifs
      · exact Engine.yields_nil _
      · refine .bind fun serial => .bind fun ip => ?_
        exact Engine.Reports.yields ⟨List.mem_singleton_self _, .inr (List.mem_singleton_self _)⟩
    · exact Engine.yields_nil _
  exact hyields.safe (parse_ok src data)

/-! ## Dahua -/

/-- The second device of an answer has the rank of Dahua2. -/
theorem reportsAll_dahuaDevices {e : Engine} {version : UInt32} (hversion : version ∈ e.ranks)
    (htwo : 2 ∈ e.ranks) (hname : e.protocols = ["Dahua".toList]) (ip : IpAddr)
    (ipv6 : Option (List Char)) (mac deviceType serial : List Char) :
    e.ReportsAll (dahuaDevices version ip ipv6 mac deviceType serial) := by
  have hprotocol : "Dahua".toList ∈ e.protocols := hname ▸ List.mem_singleton_self _
  unfold dahuaDevices
  dsimp only
  split
  · exact Engine.Reports.two ⟨hversion, .inr hprotocol⟩ ⟨htwo, .inr hprotocol⟩
  · exact Engine.Reports.one ⟨hversion, .inr hprotocol⟩

/-- The devices of the third section. -/
theorem Dahua1.readSection3_yields (start len : ℕ) (ip : IpAddr) (macRaw model : List Char) :
    (readSection3 data start len ip macRaw model).Yields (Engine.ReportsAll .dahua1) := by
  unfold readSection3
  dsimp only
  split_ifs
  · refine .bind fun section3 => .bind fun values => ?_
    split
    all_goals
      refine .bind fun ipv6 => Res.yields_ok ?_
      exact reportsAll_dahuaDevices (by decide) (by decide) rfl _ _ _ _ _
  · refine .bind fun values => ?_
    split
    all_goals
      refine .bind fun ipv6 => Res.yields_ok ?_
      exact reportsAll_dahuaDevices (by decide) (by decide) rfl _ _ _ _ _

theorem Dahua1.parse_safe : (parse src data).Safe (Engine.ReportsAll .dahua1) := by
  have hyields : (parse src data).Yields (Engine.ReportsAll .dahua1) := by
    unfold parse
    split_ifs
    · exact Engine.yields_nil _
    · refine .bind fun magic => ?_
      split_ifs
      · exact Engine.yields_nil _
      · refine .bind fun section2Len => .bind fun l0 => .bind fun l1 => ?_
        split_ifs
        · exact Engine.yields_nil _
        · refine .bind fun ip => .bind fun model => .bind fun macRaw => .bind fun override => ?_
          exact readSection3_yields data _ _ _ _ _
  refine hyields.safe ?_
  by_cases h : ∃ s2 s3, Framed data s2 s3
  · obtain ⟨s2, s3, h⟩ := h
    exact ⟨_, parse_framed src h⟩
  · exact ⟨_, parse_not_framed src fun s2 s3 h' => h ⟨s2, s3, h'⟩⟩

/-- Dahua2 may panic. -/
theorem Dahua2.parse_yields : (parse src data).Yields (Engine.ReportsAll .dahua2) := by
  unfold parse
  split_ifs
  · exact Engine.yields_nil _
  · refine .bind fun size => ?_
    split_ifs
    · exact Engine.yields_nil _
    · refine .bind fun packetSize => ?_
      split_ifs
      · exact Engine.yields_nil _
      · refine .bind fun method => ?_
        split_ifs
        · exact Engine.yields_nil _
        · refine .bind fun deviceType => .bind fun ipv4 => .bind fun v6 => ?_
          dsimp only
          split
          all_goals
            refine .bind fun ipv6 => .bind fun mac => .bind fun serial => Res.yields_ok ?_
            exact reportsAll_dahuaDevices (by decide) (by decide) rfl _ _ _ _ _

/-! ## ARP -/

theorem Arp.arpParse_safe : (arpParse data).Safe (Engine.ReportsAll .arp) := by
  unfold arpParse
  rcases parse_cases data with ⟨p, hp, -⟩ | ⟨hnone, -⟩
  · rw [hp, Res.ok_bind]
    exact Engine.Reports.one ⟨List.mem_singleton_self _, .inr (List.mem_singleton_self _)⟩
  · rw [hnone, Res.ok_bind]
    exact Engine.reportsAll_nil _

end

/-! ## All engines -/

namespace Engine

/-- The engines of which a datagram can make the parser panic. -/
def mayPanic (e : Engine) : Bool := e == dahua2 || e == vision360 || e == eaton

/-- A parser that cannot panic returns. -/
theorem parse_safe {e : Engine} (he : e.mayPanic = false) (src : SocketAddr) (data : List UInt8) :
    (e.parse src data).Safe e.ReportsAll := by
  cases e with
  | ssdp => exact Ssdp.parse_safe src data
  | wsd => exact Wsd.parse_safe src data
  | dahua1 => exact Dahua1.parse_safe src data
  | hikvision => exact Hikvision.parse_safe src data
  | bosch => exact Bosch.parse_safe src data
  | hanwha => exact Hanwha.parse_safe src data
  | vivotek => exact Vivotek.parse_safe src data
  | sony => exact Sony.parse_safe src data
  | ubiquiti => exact Ubiquiti.parse_safe src data
  | niceVision => exact NiceVision.parse_safe src data
  | panasonic => exact Panasonic.parse_safe src data
  | gigEVision => exact GigEVision.parse_safe src data
  | vstarcam => exact Vstarcam.parse_safe src data
  | foscam => exact Foscam.parse_safe src data
  | lantronix => exact Lantronix.parse_safe src data
  | microchip => exact Microchip.parse_safe src data
  | advantech => exact Advantech.parse_safe src data
  | eden => exact Eden.parse_safe src data
  | cyberPower => exact CyberPower.parse_safe src data
  | mssql => exact Mssql.parse_safe src data
  | arp => exact Arp.arpParse_safe data
  | tvt => exact Tvt.parse_safe src data
  | axis | googleCast | arecont => exact reportsAll_nil _
  | dahua2 | vision360 | eaton => cases he

/-- What any parser returns. -/
theorem parse_yields (e : Engine) (src : SocketAddr) (data : List UInt8) :
    (e.parse src data).Yields e.ReportsAll := by
  cases he : e.mayPanic with
  | false => exact (parse_safe he src data).yields
  | true =>
    simp only [mayPanic, Bool.or_eq_true, beq_iff_eq] at he
    rcases he with (rfl | rfl) | rfl
    · exact Dahua2.parse_yields src data
    · exact Vision360.parse_yields src data
    · exact Eaton.parse_yields src data

/-- No datagram makes a parser panic, but for those of Dahua2, 360Vision and Eaton. A device that an
engine reports has a rank of the engine, and a name of it, unless the engine is GigEVision. -/
theorem parse_reports (e : Engine) (src : SocketAddr) (data : List UInt8) :
    (e.parse src data = .panicked → e = dahua2 ∨ e = vision360 ∨ e = eaton) ∧
      ∀ devs, e.parse src data = .ok devs → ∀ d ∈ devs,
        d.version ∈ e.ranks ∧ (e ≠ gigEVision → d.protocol ∈ e.protocols) := by
  refine ⟨fun hpanic => ?_, fun devs hdevs d hd => ?_⟩
  · cases he : e.mayPanic with
    | false => exact absurd hpanic (parse_safe he src data).ne_panicked
    | true =>
      simp only [mayPanic, Bool.or_eq_true, beq_iff_eq] at he
      rcases he with (rfl | rfl) | rfl
      · exact .inl rfl
      · exact .inr (.inl rfl)
      · exact .inr (.inr rfl)
  · obtain ⟨hrank, hprotocol⟩ := e.parse_yields src data devs hdevs d hd
    exact ⟨hrank, hprotocol.resolve_left⟩

end Engine

end Uscan
