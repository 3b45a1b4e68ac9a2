import Uscan.Config
import Uscan.Errors
import Uscan.Lib.Attempts
import Uscan.Net.Addr
import Uscan.Ports
import Uscan.Protocols.Registry

/-!
# Sockets

`net.rs` and the `listen` functions of the engines and of the mDNS broker. They open sockets one
after the other and spawn a receive task for each; what the operating system answers to a bind is in
`Os`. The three functions of `net.rs` degrade in different ways: a global socket that cannot be
bound is skipped, and any other failure is an error, with which an engine gives up and the broker
goes on.

`Engine.script` and `brokerScript` list the sockets that are attempted, and `Engine.listen_follows`
and `brokerListen_follows` say that the code attempts them in this order up to the first fatal one,
and spawns a task for each one that is bound.
-/

namespace Uscan

open Attempts

/-! ## The operating system -/

/-- What a receive task of an engine or of the broker takes its data from. -/
inductive Source where
  /-- A socket on all addresses. -/
  | global
  /-- A socket on all addresses that has joined a group. -/
  | multicast (group : Ipv4Addr)
  /-- A socket on the address number `n` of the interfaces. -/
  | iface (ip : Ipv4Addr) (n : ℕ)
  /-- The channel of the ARP capture. -/
  | capture
  deriving DecidableEq, Repr

/-- A receive task: its owner, an engine or the broker, and its source. -/
structure Job where
  /-- The engine, or nothing for the broker. -/
  owner : Option Engine
  /-- The source. -/
  source : Source
  deriving DecidableEq, Repr

/-- An attempt to open the source of a job, on a port. -/
structure Attempt where
  /-- The job. -/
  job : Job
  /-- The port. -/
  port : UInt16
  deriving DecidableEq, Repr

/-- How the opening of a socket ends. -/
inductive BindResult where
  /-- The socket is bound and set up. -/
  | bound
  /-- It cannot be bound. -/
  | bindFailed
  /-- It is bound, but cannot be set up. -/
  | setupFailed
  deriving DecidableEq, Repr

/-- The answers of the operating system during a start. -/
structure Os where
  /-- The ports in use, and the seed from the time and the process: `PortProvider::new`. -/
  ports : PortProvider
  /-- `probe_port_in_use`: a trial bind of the port fails before the socket is opened. -/
  inUse : Attempt → Bool
  /-- The end of the opening. -/
  bind : Attempt → BindResult
  /-- The answer to the trial bind of a candidate, by its number in the search of a job's port. -/
  trial : Job → ℕ → UInt16 → Bool

/-- `udp_bind_global`: a socket that cannot be bound is skipped. -/
def udpBindGlobal (os : Os) (portSharing : Bool) (a : Attempt) : Except Error (Option Job) :=
  if os.inUse a && !portSharing then .ok none
  else
    match os.bind a with
    | .bound => .ok (some a.job)
    | .bindFailed => .ok none
    | .setupFailed => .error (.io "")

/-- `udp_bind_interface`. -/
def udpBindInterface (os : Os) (a : Attempt) : Except Error Job :=
  match os.bind a with
  | .bound => .ok a.job
  | .bindFailed => .error (.io "")
  | .setupFailed => .error (.io "")

/-- `udp_bind_multicast`: a group that cannot be joined on an address is skipped. -/
def udpBindMulticast (os : Os) (a : Attempt) : Except Error Job :=
  match os.bind a with
  | .bound => .ok a.job
  | .bindFailed => .error (.io "")
  | .setupFailed => .error (.io "")

/-! ## Listening -/

/-- What a start changes apart from the tasks that it spawns. -/
structure Listening where
  /-- The port provider. -/
  ports : PortProvider
  /-- The engines that have a context, in order. -/
  ctxs : List Engine

/-- A part of a start. Its log has the receive tasks that it has spawned. -/
abbrev ListenM := Prog Listening Job Error

/-- `free_port` for the socket of a job. -/
def findPort (os : Os) (job : Job) (l : Listening) : Option UInt16 × Listening :=
  let (port, ports) := l.ports.freePort (os.trial job)
  (port, { l with ports := ports })

/-- Spawns the receive task of a socket, or treats the error. -/
def spawnOr (socket : Except Error Job) (onError : Error → ListenM Unit) : ListenM Unit :=
  match socket with
  | .ok job => Prog.emit job
  | .error err => onError err

/-- The part of `listen` that opens a global socket. -/
def openGlobal (os : Os) (portSharing : Bool) (e : Engine) (port : UInt16) : ListenM Unit :=
  match udpBindGlobal os portSharing ⟨⟨some e, .global⟩, port⟩ with
  | .ok (some job) => Prog.emit job
  | .ok none => pure ()
  | .error err => Prog.fail err

/-- The part of `listen` that opens a multicast socket. -/
def openMulticast (os : Os) (e : Engine) (group : Ipv4Addr) (port : UInt16) : ListenM Unit :=
  spawnOr (udpBindMulticast os ⟨⟨some e, .multicast group⟩, port⟩) Prog.fail

/-- The loop body of `listen` over the addresses of the interfaces. Without a free port, the address
is skipped. -/
def openInterface (os : Os) (e : Engine) (nic : Ipv4Addr × ℕ) : ListenM Unit := do
  let port ← Prog.onState (findPort os ⟨some e, .iface nic.1 nic.2⟩)
  match port with
  | none => pure ()
  | some port => spawnOr (udpBindInterface os ⟨⟨some e, .iface nic.1 nic.2⟩, port⟩) Prog.fail

/-- A part of `listen`. -/
inductive Opening where
  /-- A global socket on a fixed port. -/
  | global (port : UInt16)
  /-- A global socket on a free port. -/
  | globalFree
  /-- A multicast socket. -/
  | multicast (group : Ipv4Addr) (port : UInt16)
  /-- A socket for each address of the interfaces. -/
  | interfaces
  deriving DecidableEq, Repr

/-- The parts of `listen` of each engine, in order. The engines without a part only register their
domains with the broker, or capture frames. -/
def Engine.openings (e : Engine) : List Opening :=
  match e with
  | ssdp => [.multicast ⟨239, 255, 255, 250⟩ 1900, .interfaces]
  | wsd => [.multicast ⟨239, 255, 255, 250⟩ 3702, .interfaces]
  | dahua1 => [.global 5050, .interfaces]
  | dahua2 => [.multicast ⟨239, 255, 255, 251⟩ 37810, .interfaces]
  | hikvision => [.multicast ⟨239, 255, 255, 250⟩ 37020, .interfaces]
  | axis => []
  | bosch => [.global 1758, .interfaces]
  | googleCast => []
  | hanwha => [.global 7711, .interfaces]
  | vivotek => [.interfaces]
  | sony => [.interfaces]
  | ubiquiti => [.global 10001, .interfaces]
  | vision360 => [.global 3600, .interfaces]
  | niceVision => [.globalFree, .interfaces]
  | panasonic => [.global 10669, .interfaces]
  | arecont => []
  | gigEVision => [.interfaces]
  | vstarcam => [.global 8600, .interfaces]
  | eaton => [.global 4679, .interfaces]
  | foscam => [.global 10000, .interfaces]
  | lantronix => [.global 30718, .interfaces]
  | microchip => [.global 30303, .interfaces]
  | advantech => [.interfaces]
  | eden => [.global 8088, .interfaces]
  | cyberPower => [.global 53566, .interfaces]
  | mssql => [.global 1434, .interfaces]
  | arp => []
  | tvt => [.multicast ⟨234, 55, 55, 55⟩ 23456, .multicast ⟨234, 55, 55, 56⟩ 23456, .interfaces]

section

variable (os : Os) (config : Config) (nics : List Ipv4Addr)

/-- A part of `listen` of an engine. -/
def Opening.listen (e : Engine) : Opening → ListenM Unit
  | .global port => openGlobal os config.portSharing e port
  | .globalFree => do
    let port ← Prog.onState (findPort os ⟨some e, .global⟩)
    match port with
    | none => pure ()
    | some port => openGlobal os config.portSharing e port
  | .multicast group port => openMulticast os e group port
  | .interfaces => Prog.each (openInterface os e) nics.zipIdx

/-- `ScanEngine::listen`. The ARP engine has a task for its capture, whatever interfaces it can
capture on. -/
def Engine.listen (e : Engine) : ListenM Unit :=
  if e = .arp then
    if config.arpEnabled then Prog.emit ⟨some .arp, .capture⟩ else pure ()
  else Prog.each (Opening.listen os config nics e) e.openings

/-- The part of `MdnsBroker::listen` that opens the multicast socket. -/
def brokerOpenMulticast : ListenM Unit :=
  spawnOr (udpBindMulticast os ⟨⟨none, .multicast ⟨224, 0, 0, 251⟩⟩, 5353⟩) fun _ => pure ()

/-- The loop body of `MdnsBroker::listen` over the addresses of the interfaces. -/
def brokerOpenInterface (nic : Ipv4Addr × ℕ) : ListenM Unit := do
  let port ← Prog.onState (findPort os ⟨none, .iface nic.1 nic.2⟩)
  match port with
  | none => pure ()
  | some port =>
    spawnOr (udpBindInterface os ⟨⟨none, .iface nic.1 nic.2⟩, port⟩) fun _ => pure ()

/-- `MdnsBroker::listen`. -/
def brokerListen : ListenM Unit := do
  brokerOpenMulticast os
  Prog.each (brokerOpenInterface os) nics.zipIdx

end

/-! ## The attempts -/

/-- The end of an attempt. A capture is no socket, and always there. -/
def Os.result (os : Os) (a : Attempt) : BindResult :=
  match a.job.source with
  | .capture => .bound
  | _ => os.bind a

/-- The job of an attempt that opens its source. -/
def Os.opened (os : Os) (a : Attempt) : List Job := if os.result a = .bound then [a.job] else []

/-- Whether a start gives up at an attempt: at a multicast or interface socket of an engine that
cannot be opened, and at a global socket that is bound but cannot be set up. -/
def Os.fatal (os : Os) (a : Attempt) : Bool :=
  a.job.owner.isSome &&
    match a.job.source with
    | .global => os.result a == .setupFailed
    | _ => os.result a != .bound

section

variable (os : Os) (config : Config) (nics : List Ipv4Addr)

/-- An attempt on a free port, or none where there is no free port. -/
def freeScript (job : Job) (p : UInt16 → Script Listening Attempt) : Script Listening Attempt :=
  Script.after (findPort os job) fun port =>
    match port with
    | none => Script.nil
    | some port => p port

/-- The attempt on a global socket, unless its port is in use and not shared. -/
def globalScript (e : Engine) (port : UInt16) : Script Listening Attempt :=
  if os.inUse ⟨⟨some e, .global⟩, port⟩ && !config.portSharing then Script.nil
  else Script.one ⟨⟨some e, .global⟩, port⟩

/-- The attempts on the sockets of the interfaces. -/
def ifaceScript (owner : Option Engine) : Script Listening Attempt :=
  Script.each (fun nic : Ipv4Addr × ℕ => freeScript os ⟨owner, .iface nic.1 nic.2⟩ fun port =>
    Script.one ⟨⟨owner, .iface nic.1 nic.2⟩, port⟩) nics.zipIdx

/-- The attempts of a part of `listen`. -/
def Opening.script (e : Engine) : Opening → Script Listening Attempt
  | .global port => globalScript os config e port
  | .globalFree => freeScript os ⟨some e, .global⟩ (globalScript os config e)
  | .multicast group port => Script.one ⟨⟨some e, .multicast group⟩, port⟩
  | .interfaces => ifaceScript os nics (some e)

/-- The attempts of an engine. -/
def Engine.script (e : Engine) : Script Listening Attempt :=
  if e = .arp then
    if config.arpEnabled then Script.one ⟨⟨some .arp, .capture⟩, 0⟩ else Script.nil
  else Script.each (Opening.script os config nics e) e.openings

/-- The attempts of the broker. -/
def brokerScript : Script Listening Attempt :=
  Script.seq (Script.one ⟨⟨none, .multicast ⟨224, 0, 0, 251⟩⟩, 5353⟩) (ifaceScript os nics none)

end

section

variable {os : Os} {config : Config} {nics : List Ipv4Addr}

/-- A global socket. -/
theorem openGlobal_follows (e : Engine) (port : UInt16) :
    Follows os.fatal os.opened (openGlobal os config.portSharing e port)
      (globalScript os config e port) := by
  rw [openGlobal, globalScript, udpBindGlobal]
  split_ifs with huse
  · -- A port that is in use and not shared is not attempted.
    exact follows_pure
  · cases hbind : os.bind ⟨⟨some e, .global⟩, port⟩ with
    | bound =>
      apply follows_emit
      · simp [Os.fatal, Os.result, hbind]
      · simp [Os.opened, Os.result, hbind]
    | bindFailed =>
      apply follows_skip
      · simp [Os.fatal, Os.result, hbind]
      · simp [Os.opened, Os.result, hbind]
    | setupFailed =>
      apply follows_fail
      simp [Os.fatal, Os.result, hbind]

/-- An engine gives up with the error of a socket. -/
theorem engineAttempt_follows {a : Attempt} {r : Except Error Job} (howner : a.job.owner.isSome)
    (hglobal : a.job.source ≠ .global) (hcapture : a.job.source ≠ .capture)
    (hr : (os.bind a = .bound ∧ r = .ok a.job) ∨ (os.bind a ≠ .bound ∧ ∃ err, r = .error err)) :
    Follows os.fatal os.opened (spawnOr r Prog.fail) (Script.one a) := by
  have hresult : os.result a = os.bind a := by
    unfold Os.result
    cases hs : a.job.source <;> simp_all
  have hfatal : os.fatal a = (os.bind a != .bound) := by
    rw [Os.fatal, howner, hresult, Bool.true_and]
    cases hs : a.job.source <;> simp_all
  rcases hr with ⟨hbind, rfl⟩ | ⟨hbind, err, rfl⟩
  · exact follows_emit (by rw [hfatal, hbind]; rfl) (if_pos (by rw [hresult, hbind]))
  · exact follows_fail (by rw [hfatal]; simpa using hbind)

/-- The broker goes on without a socket. -/
theorem brokerAttempt_follows {a : Attempt} {r : Except Error Job} (howner : a.job.owner = none)
    (hcapture : a.job.source ≠ .capture)
    (hr : (os.bind a = .bound ∧ r = .ok a.job) ∨ (os.bind a ≠ .bound ∧ ∃ err, r = .error err)) :
    Follows os.fatal os.opened (spawnOr r fun _ => pure ()) (Script.one a) := by
  have hresult : os.result a = os.bind a := by
    unfold Os.result
    cases hs : a.job.source <;> simp_all
  have hfatal : os.fatal a = false := by simp [Os.fatal, howner]
  rcases hr with ⟨hbind, rfl⟩ | ⟨hbind, err, rfl⟩
  · exact follows_emit hfatal (if_pos (by rw [hresult, hbind]))
  · exact follows_skip hfatal (if_neg (by rw [hresult]; exact hbind))

/-- The result of `udp_bind_multicast`. -/
theorem udpBindMulticast_cases (os : Os) (a : Attempt) :
    (os.bind a = .bound ∧ udpBindMulticast os a = .ok a.job) ∨
      (os.bind a ≠ .bound ∧ ∃ err, udpBindMulticast os a = .error err) := by
  unfold udpBindMulticast
  cases os.bind a <;> simp

/-- The result of `udp_bind_interface`. -/
theorem udpBindInterface_cases (os : Os) (a : Attempt) :
    (os.bind a = .bound ∧ udpBindInterface os a = .ok a.job) ∨
      (os.bind a ≠ .bound ∧ ∃ err, udpBindInterface os a = .error err) := by
  unfold udpBindInterface
  cases os.bind a <;> simp

/-- A multicast socket. -/
theorem openMulticast_follows (e : Engine) (group : Ipv4Addr) (port : UInt16) :
    Follows os.fatal os.opened (openMulticast os e group port)
      (Script.one ⟨⟨some e, .multicast group⟩, port⟩) := by
  apply engineAttempt_follows rfl (by simp) (by simp)
  exact udpBindMulticast_cases os _

/-- A program for a free port. -/
theorem follows_free {job : Job} {m : UInt16 → ListenM Unit}
    {p : UInt16 → Script Listening Attempt}
    (hm : ∀ port, Follows os.fatal os.opened (m port) (p port)) :
    Follows os.fatal os.opened
      (do
        let port ← Prog.onState (findPort os job)
        match port with
        | none => pure ()
        | some port => m port)
      (freeScript os job p) := by
  apply Follows.after
  rintro (_ | port)
  · exact follows_pure
  · exact hm port

/-- The sockets of the interfaces of an engine. -/
theorem openInterfaces_follows (e : Engine) :
    Follows os.fatal os.opened (Prog.each (openInterface os e) nics.zipIdx)
      (ifaceScript os nics (some e)) := by
  apply Follows.each
  intro nic
  apply follows_free
  intro port
  apply engineAttempt_follows rfl (by simp) (by simp)
  exact udpBindInterface_cases os _

/-- An engine makes its attempts. -/
theorem Engine.listen_follows (e : Engine) :
    Follows os.fatal os.opened (e.listen os config nics) (e.script os config nics) := by
  rw [Engine.listen, Engine.script]
  split_ifs with harp henabled
  · exact follows_emit rfl rfl
  · exact follows_pure
  · apply Follows.each
    -- One kind of socket after the other.
    rintro (port | _ | ⟨group, port⟩ | _)
    · exact openGlobal_follows e port
    · exact follows_free (openGlobal_follows e)
    · exact openMulticast_follows e group port
    · exact openInterfaces_follows e

/-- The broker makes its attempts. -/
theorem brokerListen_follows :
    Follows os.fatal os.opened (brokerListen os nics) (brokerScript os nics) := by
  apply Follows.seq
  · apply brokerAttempt_follows rfl (by simp)
    exact udpBindMulticast_cases os _
  · apply Follows.each
    intro nic
    apply follows_free
    intro port
    apply brokerAttempt_follows rfl (by simp)
    exact udpBindInterface_cases os _

end

end Uscan
