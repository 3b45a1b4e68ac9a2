import Uscan.Mdns.Idn
import Uscan.Protocols.Probes
import Uscan.Protocols.Requests
import Uscan.Scanner

/-!
# Sending

What `scan` of every engine sends. An engine has a list of probes, each with its destination, and a
`SocketSet` with all its open sockets, from each of which every probe is sent. The engines that take
their answers from the mDNS broker have it send queries from its interface sockets instead. The
sweeps of Arecont and of Dahua2 go on sending after the scan.

The probes of the engines that listen on the port they probe are those of `ProbeEngine.probes`
(`ProbeEngine.mem_probes`).
-/

namespace Uscan

/-- A UDP datagram. -/
structure Datagram where
  /-- The source. -/
  src : SocketAddr
  /-- The destination. -/
  dst : SocketAddr
  /-- The payload. -/
  payload : List UInt8
  deriving DecidableEq, Repr

/-- Both endpoints of the datagram are IPv4. -/
def Datagram.isIpv4 (d : Datagram) : Bool :=
  match d.src.ip, d.dst.ip with
  | .v4 _, .v4 _ => true
  | _, _ => false

/-- What is sent, and where to. -/
structure Outgoing where
  /-- The destination, which is IPv4. -/
  ip : Ipv4Addr
  /-- Its port. -/
  port : UInt16
  /-- The data. -/
  data : List UInt8
  deriving DecidableEq, Repr

/-- The argument of `send_broadcast`. -/
def broadcast (port : UInt16) (data : List UInt8) : Outgoing := ⟨⟨255, 255, 255, 255⟩, port, data⟩

/-- What a scan takes from outside: the time and a fresh identifier. -/
structure Draw where
  /-- The time. -/
  now : Bosch.UtcTime
  /-- The identifier. -/
  uuid : Wsd.Uuid

/-- The probes that `scan` of an engine sends. The counters of Vivotek, NiceVision and GigEVision
have the number of the scans before. -/
def Engine.probes (config : Config) (round : ℕ) (draw : Draw) : Engine → List Outgoing
  | ssdp =>
    [⟨⟨239, 255, 255, 250⟩, 1900, utf8 (Ssdp.probe "239.255.255.250:1900".toList)⟩,
      broadcast 1900 (utf8 (Ssdp.probe "255.255.255.255:1900".toList))]
  | wsd => [⟨⟨239, 255, 255, 250⟩, 3702, Wsd.probe config.onvifVerbatim draw.uuid⟩]
  | dahua1 => [broadcast 5050 Dahua1.discover]
  | dahua2 =>
    [⟨⟨239, 255, 255, 251⟩, 37810, Dahua2.buildProbe⟩, broadcast 37810 Dahua2.buildProbe]
  | hikvision => [⟨⟨239, 255, 255, 250⟩, 37020, utf8 Hikvision.probe⟩]
  | axis => []
  | bosch => [broadcast 1757 (Bosch.buildProbe draw.now)]
  | googleCast => []
  | hanwha => [broadcast 7701 Hanwha.buildProbe]
  | vivotek => [broadcast 10000 (Vivotek.buildProbe (UInt8.ofNat (1 + round)))]
  | sony => [broadcast 2380 Sony.buildProbe]
  | ubiquiti =>
    [⟨⟨233, 89, 188, 1⟩, 10001, Ubiquiti.buildProbe⟩, broadcast 10001 Ubiquiti.buildProbe]
  | vision360 => [broadcast 3600 (utf8 Vision360.request)]
  | niceVision => [broadcast 2007 (NiceVision.buildProbe (UInt16.ofNat (round + 1)))]
  | panasonic => [broadcast 10670 Panasonic.buildProbe]
  | arecont => []
  | gigEVision => [broadcast 3956 (GigEVision.probe (UInt16.ofNat (round + 1)))]
  | vstarcam => [broadcast 8600 Vstarcam.buildProbe]
  | eaton => [broadcast 4679 (utf8 Eaton.probe)]
  | foscam => [broadcast 10000 Foscam.probe]
  | lantronix => [broadcast 30718 Lantronix.probe]
  | microchip => [broadcast 30303 (utf8 Microchip.probe)]
  | advantech => [broadcast 5048 Advantech.buildProbe]
  | eden => [broadcast 8088 (utf8 Eden.probe)]
  | cyberPower => [broadcast 53566 CyberPower.probe]
  | mssql => [broadcast 1434 Mssql.probe]
  | arp => []
  | tvt => [⟨⟨234, 55, 55, 55⟩, 23456, Tvt.buildProbe⟩]

/-- `MdnsBroker::scan`: the query for a domain, with the packet of `build_query`. -/
def mdnsQuery (domain : List Char) : Outgoing :=
  ⟨⟨224, 0, 0, 251⟩, 5353, Mdns.queryPacket (Mdns.idnAscii domain) 0x000C⟩

/-- The queries that `scan` of an engine has the broker send. -/
def Engine.queries : Engine → List Outgoing
  | axis => [mdnsQuery "_axis-nvr._tcp.local".toList, mdnsQuery "_axis-video._tcp.local".toList]
  | googleCast => [mdnsQuery "_googlecast._tcp.local".toList]
  | _ => []

/-! ## Sockets -/

/-- An open UDP socket. All sockets are IPv4. -/
structure Sock where
  /-- Its owner and its kind. -/
  job : Job
  /-- The local address. -/
  ip : Ipv4Addr
  /-- The local port. -/
  port : UInt16
  deriving DecidableEq, Repr

/-- `local_addr`. -/
def Sock.localAddr (s : Sock) : SocketAddr := ⟨.v4 s.ip, s.port⟩

/-- The datagram that a send makes. -/
def Sock.datagram (s : Sock) (o : Outgoing) : Datagram :=
  ⟨s.localAddr, ⟨.v4 o.ip, o.port⟩, o.data⟩

/-- `SocketSet::send_to_all`, and the loop of `MdnsBroker::scan`: the datagrams, one for each
socket. -/
def sendToAll (socks : List Sock) (o : Outgoing) : List Datagram := socks.map (Sock.datagram · o)

/-- The datagrams that go out, by the answers of the operating system: a send that fails is
skipped. -/
def sent (ok : ℕ → Bool) (ds : List Datagram) : List Datagram :=
  (ds.zipIdx.filter fun x => ok x.2).map (·.1)

/-- A scanner that has been started. -/
structure Started where
  /-- The configuration. -/
  config : Config
  /-- The engines that have a context. -/
  engines : List Engine
  /-- The open UDP sockets of the engines and of the broker. -/
  socks : List Sock

namespace Started

/-- The `SocketSet` of an engine. -/
def socketSet (st : Started) (e : Engine) : List Sock :=
  st.socks.filter fun s => s.job.owner == some e

/-- `send_sockets` of the broker: its interface sockets. -/
def sendSockets (st : Started) : List Sock :=
  st.socks.filter fun s => s.job.owner == none &&
    match s.job.source with
    | .iface _ _ => true
    | _ => false

/-- The sends of `scan` of an engine. -/
def engineScan (st : Started) (round : ℕ) (draw : Draw) (e : Engine) : List Datagram :=
  (e.probes st.config round draw).flatMap (sendToAll (st.socketSet e)) ++
    e.queries.flatMap (sendToAll st.sendSockets)

/-- The sends of `Scanner::scan`. -/
def scan (st : Started) (round : ℕ) (draw : Draw) : List Datagram :=
  st.engines.flatMap (st.engineScan round draw)

/-- The sends of one step of a sweep: a query of Arecont, or the probe of Dahua2 to one host. -/
def sweep (st : Started) (e : Engine) (host : Ipv4Addr) : List Datagram :=
  if e ∈ st.engines ∧ e.sweeps st.config ≠ [] then
    match e with
    | .arecont => sendToAll st.sendSockets (mdnsQuery "_arec._tcp.local".toList)
    | .dahua2 => sendToAll (st.socketSet .dahua2) ⟨host, 37810, Dahua2.buildProbe⟩
    | _ => []
  else []

end Started

/-! ## Facts -/

/-- The engine of a probe engine. -/
def ProbeEngine.engine : ProbeEngine → Engine
  | ssdp => .ssdp
  | wsd => .wsd
  | dahua1 => .dahua1
  | dahua2 => .dahua2
  | hikvision => .hikvision
  | ubiquiti => .ubiquiti
  | vision360 => .vision360
  | vstarcam => .vstarcam
  | eaton => .eaton
  | foscam => .foscam
  | lantronix => .lantronix
  | microchip => .microchip
  | eden => .eden
  | cyberPower => .cyberPower
  | mssql => .mssql
  | tvt => .tvt

/-- A probe of an engine that listens on the port it probes goes to that port, and is one of
`ProbeEngine.probes`. -/
theorem ProbeEngine.mem_probes (e : ProbeEngine) {config : Config} {round : ℕ} {draw : Draw}
    {o : Outgoing} (h : o ∈ e.engine.probes config round draw) :
    o.port ∈ e.engine.usedPorts ∧ o.data ∈ e.probes config.onvifVerbatim draw.uuid := by
  cases e
  all_goals
    simp only [ProbeEngine.engine, Engine.probes, List.mem_cons, List.not_mem_nil, or_false] at h
    rcases h with rfl | rfl
  all_goals simp [broadcast, ProbeEngine.engine, Engine.usedPorts, ProbeEngine.probes]

/-- A datagram that a socket sends is IPv4. -/
theorem isIpv4_of_mem_sendToAll {socks : List Sock} {o : Outgoing} {d : Datagram}
    (h : d ∈ sendToAll socks o) : d.isIpv4 = true := by
  obtain ⟨s, -, rfl⟩ := List.mem_map.mp h
  rfl

/-- A datagram that goes out is one of the sends. -/
theorem mem_of_mem_sent {ok : ℕ → Bool} {ds : List Datagram} {d : Datagram} (h : d ∈ sent ok ds) :
    d ∈ ds := by
  obtain ⟨x, hx, rfl⟩ := List.mem_map.mp h
  exact List.fst_mem_of_mem_zipIdx (List.mem_of_mem_filter hx)

/-- Nothing goes out exactly when every send fails. -/
theorem sent_eq_nil_iff {ok : ℕ → Bool} {ds : List Datagram} :
    sent ok ds = [] ↔ ∀ n < ds.length, ok n = false := by
  rw [sent, List.map_eq_nil_iff, List.filter_eq_nil_iff]
  constructor
  · intro h n hn
    have hmem : (ds[n], n) ∈ ds.zipIdx := List.mk_mem_zipIdx_iff_getElem?.mpr (by simp [hn])
    simpa using h _ hmem
  · rintro h ⟨d, n⟩ hmem
    have hget := List.mk_mem_zipIdx_iff_getElem?.mp hmem
    have hn : n < ds.length := (List.getElem?_eq_some_iff.mp hget).1
    simp [h n hn]

/-- A scan sends IPv4 datagrams only. -/
theorem Started.isIpv4_of_mem_scan {st : Started} {round : ℕ} {draw : Draw} {d : Datagram}
    (h : d ∈ st.scan round draw) : d.isIpv4 = true := by
  obtain ⟨e, -, he⟩ := List.mem_flatMap.mp h
  rcases List.mem_append.mp he with he | he
  · obtain ⟨o, -, ho⟩ := List.mem_flatMap.mp he
    exact isIpv4_of_mem_sendToAll ho
  · obtain ⟨o, -, ho⟩ := List.mem_flatMap.mp he
    exact isIpv4_of_mem_sendToAll ho

/-- So does a sweep. -/
theorem Started.isIpv4_of_mem_sweep {st : Started} {e : Engine} {host : Ipv4Addr} {d : Datagram}
    (h : d ∈ st.sweep e host) : d.isIpv4 = true := by
  unfold Started.sweep at h
  split_ifs at h
  · split at h
    · exact isIpv4_of_mem_sendToAll h
    · exact isIpv4_of_mem_sendToAll h
    · cases h
  · cases h

end Uscan
