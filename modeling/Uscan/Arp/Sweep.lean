import Uscan.Arp.Frame
import Uscan.Config
import Uscan.Devices
import Uscan.Net.Interfaces

/-!
# The sweep of the ARP engine

`scan` of `protocols/arp.rs`: on each interface that has a hardware address and a capture thread, a
question about every host of the subnets of its private addresses, and one about the broadcast
address. The frames of a sweep are given to the threads by a channel for each interface.

`questions` says what a sweep asks, from the interfaces alone, and `scan_questions` that the frames
which it hands over ask this, in this order, and nothing else. None of them announces an address of
its own, since a host never asks about itself.
-/

namespace Uscan

namespace Arp

open Interfaces

/-- `ArpNic`: the channel to the capture thread of an interface. -/
structure ArpNic where
  /-- The name of the interface. -/
  name : List Char
  /-- The thread has ended, and the channel is closed. -/
  closed : Bool
  deriving DecidableEq, Repr

/-- What a sweep does. -/
inductive Effect where
  /-- A frame goes to the thread of an interface. -/
  | send (name : List Char) (frame : Buffer UInt8 frameLen)
  /-- A warning is logged. -/
  | warn (text : List Char)

/-- The frame that is sent, with its interface. -/
def Effect.sent : Effect → Option (List Char × Buffer UInt8 frameLen)
  | send name frame => some (name, frame)
  | warn _ => none

/-- `send_to_nic`. -/
def sendToNic (nics : List ArpNic) (name : List Char) (frame : Buffer UInt8 frameLen) :
    List Effect :=
  match nics.find? (·.name = name) with
  | none => []
  | some nic =>
    if nic.closed then [.warn ("ARP sweep: inject channel closed on ".toList ++ name)]
    else [.send name frame]

/-- What a sweep reads. -/
structure Surroundings where
  /-- The channels of the engine. -/
  nics : List ArpNic
  /-- The addresses that the operating system lists when the sweep starts. -/
  answer : Option (List Entry)
  /-- Those that it lists when the mask of an address of an interface is looked up. -/
  maskAnswer : List Char → Ipv4Addr → Option (List Entry)
  /-- `mac_of`. -/
  macOf : List Char → Option Mac

namespace Surroundings

variable (around : Surroundings)

/-- The questions to some targets. -/
def sweepTargets (name : List Char) (mac : Mac) (ip : Ipv4Addr) :
    List Ipv4Addr → Res Empty (List Effect)
  | [] => .ok []
  | target :: targets => do
    let frame ← buildRequest mac ip target
    let rest ← sweepTargets name mac ip targets
    return sendToNic around.nics name frame ++ rest

/-- The loop over the addresses of an interface: what is sent, and the first private address, from
the one that is known so far. -/
def sweepAddrs (name : List Char) (mac : Mac) :
    List Ipv4Addr → Option Ipv4Addr → Res Empty (List Effect × Option Ipv4Addr)
  | [], bcastIp => .ok ([], bcastIp)
  | ip :: ips, bcastIp =>
    if !isPrivate (.v4 ip) then sweepAddrs name mac ips bcastIp
    else do
      let mask ← maskOf (around.maskAnswer name ip) ip
      let hosts ← sweepPlan ip mask
      let effects ← around.sweepTargets name mac ip hosts
      let (rest, bcastIp) ← sweepAddrs name mac ips (bcastIp.or (some ip))
      return (effects ++ rest, bcastIp)

/-- The sweep of an interface. -/
def sweepIface (ifc : Iface) : Res Empty (List Effect) :=
  match around.macOf ifc.name with
  | none => .ok [.warn ("ARP sweep skipped ".toList ++ ifc.name ++ ": no MAC".toList)]
  | some mac => do
    let (effects, bcastIp) ← around.sweepAddrs ifc.name mac ifc.ipv4Addrs none
    match bcastIp with
    | none => return effects
    | some ip =>
      let frame ← buildRequest mac ip ⟨255, 255, 255, 255⟩
      return effects ++ sendToNic around.nics ifc.name frame

/-- The loop over the interfaces. -/
def sweepIfaces : List Iface → Res Empty (List Effect)
  | [] => .ok []
  | ifc :: ifaces => do
    let effects ← around.sweepIface ifc
    let rest ← sweepIfaces ifaces
    return effects ++ rest

/-- `Arp::scan`. -/
def scan (config : Config) : Res Empty (List Effect) :=
  if !config.arpEnabled then .ok []
  else if around.nics = [] then .ok []
  else around.sweepIfaces (activeInterfaces around.answer)

end Surroundings

/-! ## What a sweep asks -/

/-- A question: an interface asks for the hardware address of a target. -/
structure Question where
  /-- The name of the interface. -/
  name : List Char
  /-- Its hardware address. -/
  mac : Mac
  /-- The address that asks. -/
  sender : Ipv4Addr
  /-- The address that is asked about. -/
  target : Ipv4Addr

/-- A frame that goes to an interface asks a question: it goes to all hosts, and reads back as the
question. -/
def Asks (sent : List Char × Buffer UInt8 frameLen) (q : Question) : Prop :=
  sent.1 = q.name ∧ Stands sent.2.elems 0 (List.replicate 6 0xFF) ∧
    parse sent.2.elems = .ok (some ⟨opRequest, q.mac, q.sender, Buffer.filled 6 0, q.target⟩)

/-- The hosts that an address asks about: the first 254 ones of its subnet, without itself. -/
def hosts (ip : Ipv4Addr) (prefixLen : UInt8) : List Ipv4Addr :=
  (((hostNumbers ip prefixLen).take 254).filter (· ≠ ip.number)).map fun n => .ofU32 (.ofNat n)

/-- The private ones of some addresses. -/
def privateIps (addrs : List Ipv4Addr) : List Ipv4Addr :=
  addrs.filter fun ip => isPrivate (.v4 ip)

/-- An interface has a channel, and its thread listens to it. -/
def isOpen (nics : List ArpNic) (name : List Char) : Bool :=
  (nics.find? (·.name = name)).any fun nic => !nic.closed

/-- What an interface asks in a sweep, with the prefix lengths of its addresses. -/
def ifaceQuestions (prefixOf : Ipv4Addr → UInt8) (name : List Char) (mac : Mac)
    (addrs : List Ipv4Addr) : List Question :=
  (addrs.flatMap fun ip => (hosts ip (prefixOf ip)).map (Question.mk name mac ip)) ++
    addrs.head?.toList.map fun ip => ⟨name, mac, ip, ⟨255, 255, 255, 255⟩⟩

/-- The prefix length that is looked up for an address of an interface. -/
def Surroundings.prefixOf (around : Surroundings) (name : List Char) (ip : Ipv4Addr) : UInt8 :=
  Interfaces.prefixOf (around.maskAnswer name ip) ip

/-- What an interface asks, if it has a hardware address and an open channel. -/
def Surroundings.questionsOf (around : Surroundings) (ifc : Iface) : List Question :=
  match around.macOf ifc.name with
  | none => []
  | some mac =>
    if isOpen around.nics ifc.name then
      ifaceQuestions (around.prefixOf ifc.name) ifc.name mac (privateIps ifc.ipv4Addrs)
    else []

/-- What a sweep asks. -/
def Surroundings.questions (around : Surroundings) : List Question :=
  (activeInterfaces around.answer).flatMap around.questionsOf

/-! ## One address -/

/-- The prefix length of an address has at most 32 bits. -/
theorem Surroundings.prefixOf_le (around : Surroundings) (name : List Char) (ip : Ipv4Addr) :
    around.prefixOf name ip ≤ 32 := Interfaces.prefixOf_le _ _

/-- The hosts of the subnet of a private address are those that it asks about. -/
theorem sweepPlan_eq {ip : Ipv4Addr} {prefixLen : UInt8} (hprivate : isPrivate (.v4 ip) = true)
    (hbits : prefixLen ≤ 32) :
    ∃ mask, maskFromPrefix prefixLen = .ok mask ∧ sweepPlan ip mask = .ok (hosts ip prefixLen) := by
  obtain ⟨hpos, hlt⟩ := number_of_isPrivate hprivate
  obtain ⟨hnetwork, hbroadcast, -⟩ := subnet_bounds hbits ip
  obtain ⟨mask, hmaskOk, hmask⟩ := maskFromPrefix_eq hbits
  obtain ⟨found, hfound, hnumbers⟩ :=
    subnetHosts_eq (a := ip) hbits hmask (by omega) (by omega) 254
  have hback : ∀ x : Ipv4Addr, .ofU32 (.ofNat x.number) = x := by
    intro x
    rw [Ipv4Addr.number, UInt32.ofNat_toNat, Ipv4Addr.ofU32_toU32]
  refine ⟨mask, hmaskOk, ?_⟩
  rw [sweepPlan, hfound, Res.ok_bind, Res.pure_eq, hosts]
  have hmap := map_number_filter found ip
  rw [hnumbers] at hmap
  have h254 : (254 : UInt32).toNat = 254 := rfl
  rw [← h254, ← hmap, List.map_map]
  congr 1
  exact (List.map_id'' hback _).symm

/-! ## A sweep -/

/-- The frames that are sent ask these questions, in order. -/
def Sends (effects : List Effect) (qs : List Question) : Prop :=
  List.Forall₂ Asks (effects.filterMap Effect.sent) qs

/-- What is sent one after the other. -/
theorem Sends.append {effects effects' : List Effect} {qs qs' : List Question}
    (h : Sends effects qs) (h' : Sends effects' qs') : Sends (effects ++ effects') (qs ++ qs') := by
  rw [Sends, List.filterMap_append]
  exact List.rel_append h h'

/-- Every frame that is sent asks one of the questions. -/
theorem Sends.exists_question {effects : List Effect} {qs : List Question} (h : Sends effects qs)
    {sent : List Char × Buffer UInt8 frameLen} (hsent : sent ∈ effects.filterMap Effect.sent) :
    ∃ q ∈ qs, Asks sent q := by
  unfold Sends at h
  revert hsent
  generalize effects.filterMap Effect.sent = sents at h
  intro hsent
  induction h with
  | nil => cases hsent
  | @cons sent' q sents qs hasks _ ih =>
    rcases List.mem_cons.mp hsent with rfl | hsent
    · exact ⟨q, List.mem_cons_self, hasks⟩
    · obtain ⟨q', hq', hasks'⟩ := ih hsent
      exact ⟨q', List.mem_cons_of_mem q hq', hasks'⟩

/-- A frame that asks a question is sent if the channel is open. -/
theorem sends_sendToNic {nics : List ArpNic} {q : Question} {frame : Buffer UInt8 frameLen}
    (h : Asks (q.name, frame) q) :
    Sends (sendToNic nics q.name frame) (if isOpen nics q.name then [q] else []) := by
  rw [sendToNic, isOpen]
  cases nics.find? (·.name = q.name) with
  | none => exact .nil
  | some nic =>
    rcases nic with ⟨name, closed⟩
    cases closed with
    | true => exact .nil
    | false => exact .cons h .nil

namespace Surroundings

variable (around : Surroundings)

/-- The questions to some targets are asked. -/
theorem sweepTargets_sends (name : List Char) (mac : Mac) (ip : Ipv4Addr)
    (targets : List Ipv4Addr) :
    ∃ effects, around.sweepTargets name mac ip targets = .ok effects ∧
      Sends effects (if isOpen around.nics name then targets.map (Question.mk name mac ip)
        else []) := by
  induction targets with
  | nil => exact ⟨[], rfl, by split_ifs <;> exact .nil⟩
  | cons target targets ih =>
    obtain ⟨frame, hframe, hbroadcast, hread⟩ := parse_buildRequest mac ip target
    obtain ⟨effects, heffects, hsends⟩ := ih
    have hasks : Asks (name, frame) ⟨name, mac, ip, target⟩ := ⟨rfl, hbroadcast, hread⟩
    have hfirst := @sends_sendToNic around.nics ⟨name, mac, ip, target⟩ frame hasks
    refine ⟨_, by rw [sweepTargets, hframe, Res.ok_bind, heffects]; rfl, ?_⟩
    have hboth := hfirst.append hsends
    split_ifs at hboth ⊢
    · exact hboth
    · exact hboth

/-- The private addresses of an interface ask about the hosts of their subnets, and the first one of
them is found. -/
theorem sweepAddrs_sends (name : List Char) (mac : Mac) (addrs : List Ipv4Addr)
    (bcastIp : Option Ipv4Addr) :
    ∃ effects, around.sweepAddrs name mac addrs bcastIp =
        .ok (effects, bcastIp.or (privateIps addrs).head?) ∧
      Sends effects (if isOpen around.nics name then
        (privateIps addrs).flatMap fun ip =>
          (hosts ip (around.prefixOf name ip)).map (Question.mk name mac ip)
        else []) := by
  induction addrs generalizing bcastIp with
  | nil => exact ⟨[], by simp [sweepAddrs, privateIps], by split_ifs <;> exact .nil⟩
  | cons ip addrs ih =>
    rw [sweepAddrs]
    by_cases hprivate : isPrivate (.v4 ip) = true
    · obtain ⟨mask, hmask, hplan⟩ := sweepPlan_eq hprivate (around.prefixOf_le name ip)
      obtain ⟨effects, heffects, hsends⟩ :=
        around.sweepTargets_sends name mac ip (hosts ip (around.prefixOf name ip))
      obtain ⟨rest, hrest, hrestSends⟩ := ih (bcastIp.or (some ip))
      have hfilter : privateIps (ip :: addrs) = ip :: privateIps addrs :=
        List.filter_cons_of_pos hprivate
      refine ⟨effects ++ rest, ?_, ?_⟩
      · -- `hmask` and `hplan` say that neither computation of the subnet panics.
        rw [hprivate, Bool.not_true, if_neg Bool.false_ne_true, maskOf_eq,
          ← Surroundings.prefixOf, hmask, Res.ok_bind, hplan, Res.ok_bind, heffects, Res.ok_bind,
          hrest, hfilter]
        cases bcastIp <;> rfl
      · have hboth := hsends.append hrestSends
        rw [hfilter, List.flatMap_cons]
        split_ifs at hboth ⊢
        · exact hboth
        · exact hboth
    · obtain ⟨effects, heffects, hsends⟩ := ih bcastIp
      have hnot : isPrivate (.v4 ip) = false := by simpa using hprivate
      have hfilter : privateIps (ip :: addrs) = privateIps addrs :=
        List.filter_cons_of_neg hprivate
      refine ⟨effects, ?_, ?_⟩
      · rw [hnot, Bool.not_false, if_pos rfl, heffects, hfilter]
      · rwa [hfilter]

/-- An interface asks its questions. -/
theorem sweepIface_sends (ifc : Iface) :
    ∃ effects, around.sweepIface ifc = .ok effects ∧ Sends effects (around.questionsOf ifc) := by
  rw [sweepIface, questionsOf]
  cases around.macOf ifc.name with
  | none => exact ⟨_, rfl, .nil⟩
  | some mac =>
    obtain ⟨effects, heffects, hsends⟩ :=
      around.sweepAddrs_sends ifc.name mac ifc.ipv4Addrs none
    rw [Option.none_or] at heffects
    simp only [heffects, Res.ok_bind, ifaceQuestions]
    cases (privateIps ifc.ipv4Addrs).head? with
    | none => exact ⟨effects, rfl, by simpa using hsends⟩
    | some ip =>
      obtain ⟨frame, hframe, hbroadcast, hread⟩ := parse_buildRequest mac ip ⟨255, 255, 255, 255⟩
      have hasks : Asks (ifc.name, frame) ⟨ifc.name, mac, ip, ⟨255, 255, 255, 255⟩⟩ :=
        ⟨rfl, hbroadcast, hread⟩
      have hlast := @sends_sendToNic around.nics
        ⟨ifc.name, mac, ip, ⟨255, 255, 255, 255⟩⟩ frame hasks
      refine ⟨_, by simp only [hframe, Res.ok_bind]; rfl, ?_⟩
      have hboth := hsends.append hlast
      split_ifs at hboth ⊢
      · exact hboth
      · exact hboth

/-- Interfaces ask their questions, one after the other. -/
theorem sweepIfaces_sends (ifaces : List Iface) :
    ∃ effects, around.sweepIfaces ifaces = .ok effects ∧
      Sends effects (ifaces.flatMap around.questionsOf) := by
  induction ifaces with
  | nil => exact ⟨[], rfl, .nil⟩
  | cons ifc ifaces ih =>
    obtain ⟨effects, heffects, hsends⟩ := around.sweepIface_sends ifc
    obtain ⟨rest, hrest, hrestSends⟩ := ih
    exact ⟨effects ++ rest, by rw [sweepIfaces, heffects, Res.ok_bind, hrest]; rfl,
      hsends.append hrestSends⟩

end Surroundings

/-! ## The questions -/

/-- The numbers of the hosts that an address asks about. -/
theorem map_number_hosts (ip : Ipv4Addr) {prefixLen : UInt8} (hbits : prefixLen ≤ 32) :
    (hosts ip prefixLen).map Ipv4Addr.number =
      ((hostNumbers ip prefixLen).take 254).filter (· ≠ ip.number) := by
  rw [hosts, List.map_map]
  refine (List.map_congr_left fun n hn => ?_).trans (List.map_id _)
  have hmem := List.mem_of_mem_take (List.mem_of_mem_filter hn)
  have hlt : n < 2 ^ 32 := (mem_hostNumbers.mp hmem).2.trans (subnet_bounds hbits ip).2.2
  change (Ipv4Addr.ofU32 (.ofNat n)).number = n
  rw [Ipv4Addr.number, Ipv4Addr.toU32_ofU32, UInt32.toNat_ofNat_of_lt' hlt]

/-- A host that an address asks about is one of its subnet, and not itself. -/
theorem mem_hosts {ip target : Ipv4Addr} {prefixLen : UInt8} (hbits : prefixLen ≤ 32)
    (h : target ∈ hosts ip prefixLen) :
    target.number ∈ hostNumbers ip prefixLen ∧ target ≠ ip := by
  have hnumber := List.mem_map_of_mem (f := Ipv4Addr.number) h
  rw [map_number_hosts ip hbits] at hnumber
  obtain ⟨hmem, hne⟩ := List.mem_filter.mp hnumber
  exact ⟨List.mem_of_mem_take hmem, fun heq => of_decide_eq_true hne (congrArg _ heq)⟩

/-- Without channels, nothing is asked. -/
theorem Surroundings.questionsOf_eq_nil {around : Surroundings} (h : around.nics = [])
    (ifc : Iface) : around.questionsOf ifc = [] := by
  rw [questionsOf, h]
  cases around.macOf ifc.name <;> rfl

/-- A question of an interface is asked by one of its private addresses, about another address. -/
theorem mem_questionsOf {around : Surroundings} {ifc : Iface} {q : Question}
    (h : q ∈ around.questionsOf ifc) :
    q.name = ifc.name ∧ around.macOf ifc.name = some q.mac ∧ q.sender ∈ privateIps ifc.ipv4Addrs ∧
      (q.target = ⟨255, 255, 255, 255⟩ ∨
        q.target ∈ hosts q.sender (around.prefixOf ifc.name q.sender)) := by
  rw [Surroundings.questionsOf] at h
  cases hmac : around.macOf ifc.name with
  | none =>
    rw [hmac] at h
    cases h
  | some mac =>
    simp only [hmac] at h
    split_ifs at h with hopen
    · rcases List.mem_append.mp h with h | h
      · obtain ⟨ip, hip, h⟩ := List.mem_flatMap.mp h
        obtain ⟨target, htarget, rfl⟩ := List.mem_map.mp h
        exact ⟨rfl, rfl, hip, .inr htarget⟩
      · obtain ⟨ip, hip, rfl⟩ := List.mem_map.mp h
        exact ⟨rfl, rfl, List.mem_of_mem_head? (Option.mem_toList.mp hip), .inl rfl⟩
    · cases h

/-- A sweep hands over frames that ask its questions, in order, and no others. -/
theorem scan_sends (around : Surroundings) (config : Config) :
    ∃ effects, around.scan config = .ok effects ∧
      Sends effects (if config.arpEnabled then around.questions else []) := by
  rw [Surroundings.scan]
  cases config.arpEnabled with
  | false => exact ⟨[], rfl, .nil⟩
  | true =>
    simp only [Bool.not_true, Bool.false_eq_true, if_false, if_true]
    split_ifs with hnone
    · have hquestions : around.questions = [] := List.flatMap_eq_nil_iff.mpr fun ifc _ =>
        Surroundings.questionsOf_eq_nil hnone ifc
      exact ⟨[], rfl, by rw [hquestions]; exact .nil⟩
    · exact around.sweepIfaces_sends _

/-- A question is asked by a private address of an interface that is up. -/
theorem exists_iface_of_mem_questions {around : Surroundings} {q : Question}
    (hq : q ∈ around.questions) :
    (∃ ifc ∈ activeInterfaces around.answer, q.name = ifc.name ∧
      around.macOf ifc.name = some q.mac ∧ q.sender ∈ ifc.ipv4Addrs) ∧
    isPrivate (.v4 q.sender) = true := by
  obtain ⟨ifc, hifc, hq⟩ := List.mem_flatMap.mp hq
  obtain ⟨hname, hmac, hsender, -⟩ := mem_questionsOf hq
  obtain ⟨hsender, hprivate⟩ := List.mem_filter.mp hsender
  exact ⟨⟨ifc, hifc, hname, hmac, hsender⟩, hprivate⟩

/-- A sweep hands over frames that ask its questions, in order, and no others, and it returns for
all interfaces and masks. Each question is asked by a private address of an interface that is up
when the sweep starts, with the hardware address of the interface, and is about another address: the
broadcast address, or a host of the subnet whose mask is looked up for the address that asks. -/
theorem scan_questions (around : Surroundings) (config : Config) :
    (∃ effects, around.scan config = .ok effects ∧
        Sends effects (if config.arpEnabled then around.questions else [])) ∧
      ∀ q ∈ around.questions,
        (∃ ifc ∈ activeInterfaces around.answer, q.name = ifc.name ∧
          around.macOf ifc.name = some q.mac ∧ q.sender ∈ ifc.ipv4Addrs) ∧
        isPrivate (.v4 q.sender) = true ∧ q.target ≠ q.sender ∧
        (q.target = ⟨255, 255, 255, 255⟩ ∨
          q.target.number ∈ hostNumbers q.sender (around.prefixOf q.name q.sender)) := by
  refine ⟨scan_sends around config, fun q hq => ?_⟩
  obtain ⟨hifc, hprivate⟩ := exists_iface_of_mem_questions hq
  obtain ⟨ifc, -, hq⟩ := List.mem_flatMap.mp hq
  obtain ⟨hname, -, -, htarget⟩ := mem_questionsOf hq
  rw [← hname] at htarget
  have hle := around.prefixOf_le q.name q.sender
  refine ⟨hifc, hprivate, ?_, htarget.imp_right fun h => (mem_hosts hle h).1⟩
  rcases htarget with htarget | htarget
  · intro heq
    have hlt := (number_of_isPrivate hprivate).2
    rw [← heq, htarget] at hlt
    exact absurd hlt (by decide)
  · exact (mem_hosts hle htarget).2

end Arp

end Uscan
