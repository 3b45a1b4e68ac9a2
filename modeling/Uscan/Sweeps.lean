import Uscan.Arp.Sweep
import Uscan.Lib.Supersede
import Uscan.Net.Sending

/-!
# The sweeps

A scan starts two tasks that go on sending: the sweep of Arecont, with four queries for its domain
750 ms apart, and that of Dahua2 (`netscan.rs`), which sends its probe to the hosts of the subnets
of the active interfaces, one address after the other. Each engine has the token of its last sweep,
and a new scan cancels it. The tasks also have the token of the scanner, which a stop cancels.

The events of a run are in any order: scans, a stop, and the turns of the tasks of all sweeps. The
operating system may list other interfaces each time it is asked.
-/

namespace Uscan

open Supersede Interfaces

namespace Started

variable (st : Started)

/-! ## The sweep of Arecont -/

/-- `SWEEP_COUNT`. -/
def sweepCount : ℕ := 4

/-- A sweep of Arecont sends its first query at once, and waits for its tokens and for the timer
between the queries. -/
def arecontPolicy : Policy := ⟨true, true⟩

/-- What happens to the sweeps of Arecont. -/
inductive ArecontEvent where
  /-- A scan. -/
  | scan
  /-- A stop. -/
  | stop
  /-- `select!` takes the timer, or a token. It may take either, when both are there. -/
  | select (i : ℕ) (timer : Bool)
  /-- A query. -/
  | query (i : ℕ)
  deriving DecidableEq, Repr

/-- The step of the tasks. The rounds of a sweep are the values of its loop variable. -/
def ArecontEvent.task : ArecontEvent → Supersede.Event ℕ Unit
  | scan => .start (List.range sweepCount)
  | stop => .stop
  | select i timer => .look i timer
  | query i => .round i ()

/-- The datagrams of a query: `scan` of the broker sends one from each of its interface sockets. -/
def arecontRound : List Datagram := sendToAll st.sendSockets (mdnsQuery "_arec._tcp.local".toList)

/-- The datagrams of some queries. -/
def arecontSends (queries : List (Round ℕ Unit)) : List Datagram :=
  queries.flatMap fun _ => st.arecontRound

/-! ## The sweep of Dahua2 -/

/-- A sweep of Dahua2 looks at its tokens before each address, and does not wait in between. -/
def netscanPolicy : Policy := ⟨false, false⟩

/-- What happens to the sweeps of Dahua2. -/
inductive NetscanEvent where
  /-- A scan. The task then asks for the active interfaces. -/
  | scan (answer : Option (List Entry))
  /-- A stop. -/
  | stop
  /-- A task looks at its tokens. -/
  | look (i : ℕ)
  /-- A task sends to the hosts of an address. `mask_of` asks for the active interfaces again. -/
  | send (i : ℕ) (answer : Option (List Entry))
  deriving DecidableEq, Repr

/-- The addresses that a sweep goes through. -/
def netscanAddrs (answer : Option (List Entry)) : List Ipv4Addr :=
  (activeInterfaces answer).flatMap Iface.ipv4Addrs

/-- The step of the tasks. -/
def NetscanEvent.task : NetscanEvent → Supersede.Event Ipv4Addr (Option (List Entry))
  | scan answer => .start (netscanAddrs answer)
  | stop => .stop
  | look i => .look i false
  | send i answer => .round i answer

/-- The datagrams of `send_unicast` to some hosts. -/
def netscanProbes (hosts : List Ipv4Addr) : List Datagram :=
  hosts.flatMap fun host => sendToAll (st.socketSet .dahua2) ⟨host, 37810, Dahua2.buildProbe⟩

/-- The body of the loop of `netscan` over the addresses. -/
def netscanRound (answer : Option (List Entry)) (ip : Ipv4Addr) : Res Empty (List Datagram) :=
  if !isPrivate (.v4 ip) then .ok []
  else do
    let mask ← maskOf answer ip
    let hosts ← Netscan.planHosts ip mask
    return st.netscanProbes hosts

/-! ## What the rounds send -/

/-- An address probes the first 254 hosts of its subnet but itself if it is private, and none
otherwise. -/
theorem exists_netscanRound (answer : Option (List Entry)) (ip : Ipv4Addr) :
    ∃ hosts, st.netscanRound answer ip = .ok (st.netscanProbes hosts) ∧
      (isPrivate (.v4 ip) = false → hosts = []) ∧
      (isPrivate (.v4 ip) = true → hosts.map Ipv4Addr.number =
        ((hostNumbers ip (prefixOf answer ip)).take 254).filter (· ≠ ip.number)) := by
  rw [netscanRound]
  cases hprivate : isPrivate (.v4 ip) with
  | false => exact ⟨[], rfl, fun _ => rfl, fun h => Bool.noConfusion h⟩
  | true =>
    have hbits := prefixOf_le answer ip
    obtain ⟨mask, hmask, hosts⟩ := Arp.sweepPlan_eq hprivate hbits
    -- `plan_hosts` lists the hosts that `sweep_plan` lists.
    have hplan : Netscan.planHosts ip mask = .ok (Arp.hosts ip (prefixOf answer ip)) := hosts
    refine ⟨Arp.hosts ip (prefixOf answer ip), ?_, fun h => Bool.noConfusion h,
      fun _ => Arp.map_number_hosts ip hbits⟩
    rw [maskOf_eq, hmask]
    change (Netscan.planHosts ip mask >>= fun hosts => pure (st.netscanProbes hosts)) = _
    rw [hplan]
    rfl

/-- A probe to a host goes out in a sweep of Dahua2. -/
theorem mem_sweep_dahua2 {hosts : List Ipv4Addr} {d : Datagram} (hd : d ∈ st.netscanProbes hosts)
    (hengine : .dahua2 ∈ st.engines) (hconfig : st.config.dahuaNetScan = true) :
    ∃ host ∈ hosts, d ∈ st.sweep .dahua2 host := by
  obtain ⟨host, hhost, hd⟩ := List.mem_flatMap.mp hd
  refine ⟨host, hhost, ?_⟩
  rw [sweep, if_pos ⟨hengine, by simp [Engine.sweeps, hconfig]⟩]
  exact hd

/-- A datagram of a query is the query for the domain of Arecont, from an interface socket of the
broker to the group of mDNS, and goes out in a sweep of Arecont. -/
theorem arecontRound_spec {d : Datagram} (hd : d ∈ st.arecontRound) :
    (∃ sock ∈ st.sendSockets, d = ⟨sock.localAddr, ⟨.v4 ⟨224, 0, 0, 251⟩, 5353⟩,
      Mdns.queryPacket (Mdns.idnAscii "_arec._tcp.local".toList) 0x000C⟩) ∧
    (.arecont ∈ st.engines → ∀ host, d ∈ st.sweep .arecont host) := by
  constructor
  · obtain ⟨sock, hsock, rfl⟩ := List.mem_map.mp hd
    exact ⟨sock, hsock, rfl⟩
  · intro hengine host
    rw [sweep, if_pos ⟨hengine, by simp [Engine.sweeps]⟩]
    exact hd

/-- Some queries send the datagrams of one query as often as there are queries. -/
theorem arecontSends_eq (queries : List (Round ℕ Unit)) :
    st.arecontSends queries = (List.replicate queries.length st.arecontRound).flatten := by
  induction queries with
  | nil => rfl
  | cons query queries ih =>
    rw [List.length_cons, List.replicate_succ, List.flatten_cons, ← ih]
    rfl

/-! ## Runs -/

/-- The interfaces that a scan finds. -/
def NetscanEvent.answer? : NetscanEvent → Option (Option (List Entry))
  | scan answer => some answer
  | _ => none

/-- The sweeps of Dahua2, after the events of a run. -/
def netscanTasks (es : List NetscanEvent) : State Ipv4Addr :=
  Machine.run (Supersede.step netscanPolicy) .new (es.map NetscanEvent.task)

/-- The rounds of Dahua2 in further events. -/
def netscanRounds (s : State Ipv4Addr) (es : List NetscanEvent) :
    List (Round Ipv4Addr (Option (List Entry))) :=
  Machine.outputs (Supersede.step netscanPolicy) rounds s (es.map NetscanEvent.task)

/-- The plans of the sweeps are those of the scans. -/
theorem filterMap_plan_netscan (es : List NetscanEvent) :
    (es.map NetscanEvent.task).filterMap Supersede.Event.plan? =
      (es.filterMap NetscanEvent.answer?).map netscanAddrs := by
  rw [List.filterMap_map, List.map_filterMap]
  congr 1
  funext e
  cases e <;> rfl

/-- In every run of the sweeps of Dahua2, no sweep panics. Only the sweep of the last scan is not
cancelled. A sweep takes the addresses of the interfaces that its scan finds, in order, and sends
from each private one the probe to the first 254 hosts of its subnet, in order, without itself; it
leaves addresses out only if it is cancelled or stopped, and then takes one more at most. The probes
are sends of the engine's sweep, if it has been started and is to sweep. -/
theorem netscan_run (es es' : List NetscanEvent) :
    let s := netscanTasks es
    let made := netscanRounds .new es
    (∀ i t, s.tasks[i]? = some t → t.cancelled = false → i + 1 = s.tasks.length) ∧
      (∀ i answer, (es.filterMap NetscanEvent.answer?)[i]? = some answer →
        let done := (roundsOf i made).map Round.item
        ∃ t, s.tasks[i]? = some t ∧ done <+: netscanAddrs answer ∧
          (t.phase = .ended → s.toEnd t = true ∨ done = netscanAddrs answer) ∧
          (s.toEnd t = true → (roundsOf i (netscanRounds s es')).length ≤ 1)) ∧
      ∀ r ∈ made, ∃ hosts, st.netscanRound r.around r.item = .ok (st.netscanProbes hosts) ∧
        (isPrivate (.v4 r.item) = false → hosts = []) ∧
        (isPrivate (.v4 r.item) = true → hosts.map Ipv4Addr.number =
          ((hostNumbers r.item (prefixOf r.around r.item)).take 254).filter
            (· ≠ r.item.number)) ∧
        ∀ d ∈ st.netscanProbes hosts, .dahua2 ∈ st.engines → st.config.dahuaNetScan = true →
          ∃ host ∈ hosts, d ∈ st.sweep .dahua2 host := by
  intro s made
  refine ⟨(run_spec netscanPolicy _).1, fun i answer hanswer => ?_, fun r _ => ?_⟩
  · have hplan : ((es.map NetscanEvent.task).filterMap Supersede.Event.plan?)[i]? =
        some (netscanAddrs answer) := by
      rw [filterMap_plan_netscan, List.getElem?_map, hanswer]
      rfl
    obtain ⟨t, ht, -, hdone, hended, hafter⟩ :=
      run_task netscanPolicy _ (es'.map NetscanEvent.task) hplan
    exact ⟨t, ht, hdone, fun h => (hended h).1, hafter⟩
  · obtain ⟨hosts, hround, hnone, hsome⟩ := st.exists_netscanRound r.around r.item
    exact ⟨hosts, hround, hnone, hsome, fun d hd => st.mem_sweep_dahua2 hd⟩

/-- The sweeps of Arecont, after the events of a run. -/
def arecontTasks (es : List ArecontEvent) : State ℕ :=
  Machine.run (Supersede.step arecontPolicy) .new (es.map ArecontEvent.task)

/-- The queries of Arecont in further events. -/
def arecontQueries (s : State ℕ) (es : List ArecontEvent) : List (Round ℕ Unit) :=
  Machine.outputs (Supersede.step arecontPolicy) rounds s (es.map ArecontEvent.task)

/-- The plan of every sweep is to send the four queries. -/
theorem filterMap_plan_arecont (es : List ArecontEvent) :
    (es.map ArecontEvent.task).filterMap Supersede.Event.plan? =
      List.replicate (es.count .scan) (List.range sweepCount) := by
  induction es with
  | nil => rfl
  | cons e es ih =>
    rw [List.map_cons, List.filterMap_cons]
    cases e with
    | scan =>
      rw [List.count_cons_self, List.replicate_succ, ← ih]
      rfl
    | stop =>
      rw [List.count_cons_of_ne ArecontEvent.noConfusion, ← ih]
      rfl
    | select i timer =>
      rw [List.count_cons_of_ne ArecontEvent.noConfusion, ← ih]
      rfl
    | query i =>
      rw [List.count_cons_of_ne ArecontEvent.noConfusion, ← ih]
      rfl

/-- In every run of the sweeps of Arecont, only the sweep of the last scan is not cancelled. A sweep
makes its queries in order, and no query twice: each is the query for the domain of Arecont, once
from every interface socket of the broker to the group of mDNS. It has made at least one when it
ends, and all four unless it is cancelled or stopped; then it makes one more at most, even if
`select!` takes the timer every time. -/
theorem arecont_run (es es' : List ArecontEvent) :
    let s := arecontTasks es
    (∀ i t, s.tasks[i]? = some t → t.cancelled = false → i + 1 = es.count .scan) ∧
      (∀ i < es.count .scan, ∃ t n, s.tasks[i]? = some t ∧ n ≤ 4 ∧
        (roundsOf i (arecontQueries .new es)).map Round.item = List.range n ∧
        st.arecontSends (roundsOf i (arecontQueries .new es)) =
          (List.replicate n st.arecontRound).flatten ∧
        (t.phase = .ended → 0 < n ∧ (s.toEnd t = true ∨ n = 4)) ∧
        (s.toEnd t = true → ∃ m ≤ 1, (roundsOf i (arecontQueries s es')).length = m ∧
          st.arecontSends (roundsOf i (arecontQueries s es')) =
            (List.replicate m st.arecontRound).flatten)) ∧
      ∀ d ∈ st.arecontRound,
        (∃ sock ∈ st.sendSockets, d = ⟨sock.localAddr, ⟨.v4 ⟨224, 0, 0, 251⟩, 5353⟩,
          Mdns.queryPacket (Mdns.idnAscii "_arec._tcp.local".toList) 0x000C⟩) ∧
        (.arecont ∈ st.engines → ∀ host, d ∈ st.sweep .arecont host) := by
  intro s
  have hplans := run_plans arecontPolicy (es.map ArecontEvent.task)
  rw [filterMap_plan_arecont] at hplans
  have hlength : s.tasks.length = es.count .scan := by
    have h := congrArg List.length hplans
    rwa [List.length_map, List.length_replicate] at h
  refine ⟨fun i t ht hlive => ?_, fun i hi => ?_, fun d => st.arecontRound_spec⟩
  · rw [← hlength]
    exact (run_spec arecontPolicy _).1 i t ht hlive
  · have hplan : ((es.map ArecontEvent.task).filterMap Supersede.Event.plan?)[i]? =
        some (List.range sweepCount) := by
      rw [filterMap_plan_arecont, List.getElem?_replicate, if_pos hi]
    obtain ⟨t, ht, -, hdone, hended, hafter⟩ :=
      run_task arecontPolicy _ (es'.map ArecontEvent.task) hplan
    -- The rounds are a first part of the loop.
    obtain ⟨n, hn, hrange⟩ :
        ∃ n ≤ 4, (roundsOf i (arecontQueries .new es)).map Round.item = List.range n := by
      rw [List.prefix_iff_eq_take, List.take_range] at hdone
      exact ⟨_, Nat.min_le_right _ _, hdone⟩
    have hcount : (roundsOf i (arecontQueries .new es)).length = n := by
      rw [← List.length_map (f := Round.item), hrange, List.length_range]
    refine ⟨t, n, ht, hn, hrange, by rw [arecontSends_eq, hcount], fun h => ?_,
      fun h => ⟨_, hafter h, rfl, st.arecontSends_eq _⟩⟩
    obtain ⟨hall, hfirst⟩ := hended h
    have hne := hfirst rfl (by decide)
    change (roundsOf i (arecontQueries .new es)).map Round.item ≠ [] at hne
    change _ ∨ (roundsOf i (arecontQueries .new es)).map Round.item = _ at hall
    rw [hrange] at hne hall
    refine ⟨Nat.pos_of_ne_zero fun hzero => hne (by rw [hzero]; rfl), hall.imp_right fun heq => ?_⟩
    have hlen := congrArg List.length heq
    rwa [List.length_range, List.length_range] at hlen

end Started

end Uscan
