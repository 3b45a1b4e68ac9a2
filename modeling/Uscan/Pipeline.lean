import Uscan.Capture
import Uscan.Cli.RunLoop
import Uscan.Lib.Producers
import Uscan.Mdns.Broker
import Uscan.Protocols.Parse
import Uscan.Rows

/-!
# From the sockets to the table

All tasks of a scan that report devices, the channel that they share, and the loop that receives
from it: `recv_loop` for each socket of an engine, a receive loop of the broker for each of its
sockets, and the task of ARP. The tasks run in any order, and may be interrupted between the devices
of an answer. The loops of the engines share the writer of the capture, to which each hands a
datagram before the parser gets it; a writer that panics takes the loop with it, and every loop that
calls it later.

Every device of every answer that a task has taken gets to the loop, once and in the order of the
task (`run_delivered`), and a generic engine never has the row of an address that another engine has
given to the loop (`run_rows_specific`). However long a scan takes and whatever answers again, no
more than three lines are printed of one key (`run_printed`).
-/

namespace Uscan

open Mdns

/-! ## What the tasks make of what they get -/

/-- A task that reports devices. -/
inductive Reporter where
  /-- The receive loop of a socket, of an engine or of the broker. -/
  | socket (sock : Sock)
  /-- The task of ARP. -/
  | arp
  deriving DecidableEq, Repr

/-- What a task gets. -/
inductive Input where
  /-- A datagram, with the time and the end of the write to the file of the capture, if there is
  one. -/
  | datagram (src : SocketAddr) (data : List UInt8) (le : data.length ≤ maxPayload)
    (now : SystemTime) (write : WriteAll)
  /-- A captured frame. -/
  | frame (data : List UInt8)
  deriving DecidableEq, Repr

/-- What the tasks of a started scanner read. -/
structure Listener where
  /-- The scanner. -/
  started : Started
  /-- The data of the vendors. -/
  vendors : Res Empty (Option OuiMap)
  /-- The addresses of the computer itself. -/
  localIps : List Ipv4Addr
  /-- How the program was built. -/
  profile : Profile
  /-- There is a capture. -/
  pcap : Bool

/-- A datagram fits in memory. -/
theorem le_isizeMax {data : List UInt8} (h : data.length ≤ maxPayload) :
    data.length ≤ isizeMax :=
  Nat.le_trans h (by decide)

namespace Listener

variable (listener : Listener)

/-- The writer of the capture at the start. -/
def writer : Option PcapWriter := if listener.pcap then some .new else none

/-- What a task does with the writer: `recv_loop` calls `append_udp`, and ignores its value, and no
other task has a writer. -/
def tap (writer : Option PcapWriter) (r : Reporter) (x : Input) :
    Option PcapWriter × Res Empty Unit :=
  match writer, r, x with
  | some w, .socket sock, .datagram src data _ now write =>
    match sock.job.owner with
    | some _ =>
      let (w', result) := w.appendUdp listener.profile write now src sock.localAddr data
      (some w', result >>= fun _ => .ok ())
    | none => (some w, .ok ())
  | writer, _, _ => (writer, .ok ())

/-- What a task makes of what it gets, after the writer has it. -/
def report (r : Reporter) (x : Input) : Res Empty (List Device) :=
  match r, x with
  | .socket sock, .datagram src data le _ _ =>
    match sock.job.owner with
    | some e => e.parse src data
    | none =>
      (hear listener.started.config listener.started.engines.toFinset
        ⟨data, le_isizeMax le⟩).devices
  | .arp, .frame data => Arp.receive listener.vendors listener.localIps data
  -- No task gets anything else.
  | .socket _, .frame _ => .ok []
  | .arp, .datagram .. => .ok []

/-- What a task makes of what it gets, with the writer before it. -/
def react (writer : Option PcapWriter) (r : Reporter) (x : Input) : Res Empty (List Device) := do
  (listener.tap writer r x).2
  listener.report r x

/-- The devices that a task reports of what it gets, unless it panics. -/
def devices? (r : Reporter) (x : Option PcapWriter × Input) : Option (List Device) :=
  match listener.react x.1 r x.2 with
  | .ok devs => some devs
  | _ => none

/-- The tasks, which share the writer. -/
def handler : Producers.Handler Reporter Input Device (Option PcapWriter) where
  values := listener.devices?
  next r x := (listener.tap x.1 r x.2).1

end Listener

/-- The tasks and the loop. -/
structure Pipeline where
  /-- The tasks, with their channel and the writer of the capture. -/
  tasks : Producers.State Reporter Device (Option PcapWriter)
  /-- The loop. -/
  loop : LoopState

/-- A step of the tasks or of the loop. -/
inductive PipelineEvent where
  /-- A task takes what it gets. -/
  | take (r : Reporter) (x : Input)
  /-- A task sends a device. -/
  | send (r : Reporter)
  /-- The loop receives a device. -/
  | receive
  /-- The loop sends the probes again. -/
  | rescan
  deriving DecidableEq, Repr

namespace Pipeline

section

variable (lib : Render) (st : Settings) (listener : Listener)

/-- The start. -/
def new : Pipeline := ⟨.new listener.writer, loopStart st⟩

/-- A step. -/
def step (s : Pipeline) : PipelineEvent → Pipeline
  | .take r x => { s with tasks := Producers.step listener.handler s.tasks (.take r x) }
  | .send r => { s with tasks := Producers.step listener.handler s.tasks (.send r) }
  | .receive =>
    let tasks := Producers.step listener.handler s.tasks .receive
    match s.tasks.channel.recv with
    | (some (_, dev), _) => ⟨tasks, loopStep lib st s.loop (.received dev)⟩
    | (none, _) => { s with tasks := tasks }
  | .rescan => { s with loop := loopStep lib st s.loop .rescan }

/-- What a task takes in a step, with the writer before it. -/
def taken (s : Pipeline) : PipelineEvent → List (Reporter × Option PcapWriter × Input)
  | .take r x => Producers.taken s.tasks (.take r x)
  | .send _ => []
  | .receive => []
  | .rescan => []

/-- The devices that the loop has received, in order. -/
def received (s : Pipeline) : List Device := s.tasks.channel.received.map Prod.snd

/-- What holds of the tasks and the loop, after the tasks have taken some inputs. -/
structure Inv (s : Pipeline) (inputs : List (Reporter × Option PcapWriter × Input)) : Prop where
  /-- The tasks have reported the devices of their inputs. -/
  tasks : Producers.Inv listener.handler listener.writer s.tasks inputs
  /-- The loop has done what it is for. -/
  loop : s.loop = stateAfter lib st (s.received.map .received)

end

variable {lib : Render} {st : Settings} {listener : Listener}

/-- Every step keeps what holds. -/
theorem Inv.step {s : Pipeline} {inputs : List (Reporter × Option PcapWriter × Input)}
    (h : Inv lib st listener s inputs) (e : PipelineEvent) :
    Inv lib st listener (step lib st listener s e) (inputs ++ taken s e) := by
  cases e with
  | take r x =>
    refine ⟨h.tasks.step (.take r x), ?_⟩
    change s.loop = stateAfter lib st (((Producers.step listener.handler s.tasks
      (.take r x)).channel.received.map Prod.snd).map .received)
    rw [Producers.received_take]
    exact h.loop
  | send r =>
    refine ⟨h.tasks.step (.send r), ?_⟩
    change s.loop = stateAfter lib st (((Producers.step listener.handler s.tasks
      (.send r)).channel.received.map Prod.snd).map .received)
    rw [Producers.received_send]
    exact h.loop
  | receive =>
    have htasks := h.tasks.receive
    rw [taken, List.append_nil, Pipeline.step]
    obtain ⟨hrecv, -⟩ | ⟨⟨r, dev⟩, channel, hrecv, hreceived, -⟩ := s.tasks.channel.recv_cases
    · simp only [hrecv, Producers.step]
      rw [hrecv] at htasks
      exact ⟨htasks, h.loop⟩
    · simp only [hrecv, Producers.step]
      rw [hrecv] at htasks
      refine ⟨htasks, ?_⟩
      -- The loop adds the device that it has just taken from the channel.
      have happend : (channel.received.map Prod.snd).map LoopEvent.received =
          s.received.map .received ++ [.received dev] := by
        rw [hreceived, List.map_append, List.map_append]
        rfl
      change loopStep lib st s.loop (.received dev) =
        stateAfter lib st ((channel.received.map Prod.snd).map .received)
      rw [happend, h.loop, loopStep_stateAfter]
  | rescan =>
    rw [taken, List.append_nil]
    exact h

/-- Every run keeps it. -/
theorem run_inv (lib : Render) (st : Settings) (listener : Listener) (es : List PipelineEvent) :
    Inv lib st listener (Machine.run (Pipeline.step lib st listener) (new st listener) es)
      (Machine.outputs (Pipeline.step lib st listener) taken (new st listener) es) := by
  have hstep : ∀ (s : Pipeline) inputs e, Inv lib st listener s inputs →
      Inv lib st listener (Pipeline.step lib st listener s e) (inputs ++ taken s e) :=
    fun s inputs e h => h.step e
  exact Machine.run_outputs hstep ⟨Producers.Inv.new _ _, loop_eq []⟩ es

end Pipeline

/-! ## What the tasks report -/

/-- The addresses of an answer lead to devices of the engine. -/
theorem reportsAll_reportAddresses {e : Engine} {protocol : List Char} {version : UInt32}
    (hrank : version ∈ e.ranks) (hprotocol : protocol ∈ e.protocols) (addrs : List IpAddr)
    (deviceType serial mac : List Char) (cfg : Config) :
    e.ReportsAll (reportAddresses protocol version addrs deviceType serial mac cfg) := by
  intro d hd
  rcases List.mem_append.mp hd with hd | hd
  · obtain ⟨ip, -, rfl⟩ := List.mem_map.mp hd
    exact ⟨hrank, .inr hprotocol⟩
  · obtain ⟨ip, -, rfl⟩ := List.mem_map.mp hd
    exact ⟨hrank, .inr hprotocol⟩

/-- The handler of an engine reports devices of the engine. -/
theorem Engine.convert_yields (config : Config) (answers : List MdnsAnswer) (e : Engine) :
    (e.convert config answers).Yields e.ReportsAll := by
  cases e
  case axis =>
    change (Axis.axisConvert answers config).Yields _
    unfold Axis.axisConvert
    split
    next s _ =>
      rw [Axis.finish]
      by_cases hnone : s.addresses = []
      · rw [if_pos hnone]
        exact Engine.yields_nil _
      · rw [if_neg hnone]
        refine .bind fun parts => Res.yields_ok ?_
        exact reportsAll_reportAddresses (List.mem_singleton_self _) (List.mem_singleton_self _)
          _ _ _ _ _
    next => exact Engine.yields_nil _
  case arecont =>
    change (Arecont.arecontConvert answers config).Yields _
    rw [Arecont.arecontConvert, Arecont.finish]
    split_ifs
    · exact Engine.yields_nil _
    · refine .bind fun parts => .bind fun model => Res.yields_ok ?_
      exact reportsAll_reportAddresses (List.mem_singleton_self _) (List.mem_singleton_self _)
        _ _ _ _ _
  case googleCast =>
    refine Res.yields_ok fun d hd => ?_
    unfold GoogleCast.googlecastConvert at hd
    split at hd
    · obtain ⟨ip, -, rfl⟩ := List.mem_map.mp hd
      exact ⟨List.mem_singleton_self _, .inr (List.mem_singleton_self _)⟩
    · cases hd
  all_goals exact Engine.yields_nil _

/-- The broker reports devices of engines that have registered with it. -/
theorem hear_yields (config : Config) (listening : Finset Engine) (data : Slice) :
    (hear config listening data).devices.Yields fun devs =>
      ∀ d ∈ devs, ∃ e ∈ listening, e.domains ≠ [] ∧ e.Reports d := by
  unfold hear
  cases parseDns data with
  | panicked => exact fun devs h => by cases h
  | err e => exact Res.yields_ok fun d hd => by cases hd
  | ok parsed =>
    dsimp only
    cases haddressee : addressee listening parsed.answers with
    | none => exact Res.yields_ok fun d hd => by cases hd
    | some e =>
      obtain ⟨a, -, howner⟩ := List.exists_of_findSome?_eq_some haddressee
      obtain ⟨hlistens, hdomain⟩ := domainOwner_eq_some_iff.mp howner
      intro devs hdevs d hd
      exact ⟨e, hlistens, List.ne_nil_of_mem hdomain, e.convert_yields config _ devs hdevs d hd⟩

/-- The task of ARP reports devices of ARP. -/
theorem Arp.receive_yields (load : Res Empty (Option OuiMap)) (localIps : List Ipv4Addr)
    (frame : List UInt8) : (receive load localIps frame).Yields (Engine.ReportsAll .arp) := by
  rcases parse_cases frame with ⟨p, -, hp⟩ | ⟨-, hnot⟩
  · rw [receive_of_carries load localIps hp]
    split_ifs
    · exact Engine.yields_nil _
    · refine .bind fun map => ?_
      exact Engine.Reports.yields ⟨List.mem_singleton_self _, .inr (List.mem_singleton_self _)⟩
  · rw [receive_of_not load localIps hnot]
    exact Engine.yields_nil _

/-- It panics only where it reads the data of the vendors. -/
theorem Arp.receive_ok {map : Option OuiMap} (localIps : List Ipv4Addr) (frame : List UInt8) :
    ∃ devs, receive (.ok map) localIps frame = .ok devs := by
  rcases parse_cases frame with ⟨p, -, hp⟩ | ⟨-, hnot⟩
  · rw [receive_of_carries (.ok map) localIps hp]
    split_ifs
    · exact ⟨_, rfl⟩
    · exact ⟨_, rfl⟩
  · exact ⟨[], receive_of_not (.ok map) localIps hnot⟩

/-- An engine is generic: its answers come from devices of any maker. -/
def Engine.generic (e : Engine) : Bool := e == ssdp || e == wsd || e == gigEVision || e == arp

/-- The generic engines have the lowest rank, and only they. -/
theorem Engine.Reports.version_eq_zero_iff {e : Engine} {d : Device} (h : e.Reports d) :
    d.version = 0 ↔ e.generic = true := by
  have hranks (e : Engine) : e.ranks.all (fun v => decide (v = 0) == e.generic) = true := by
    cases e <;> decide
  have hrank := List.all_eq_true.mp (hranks e) d.version h.rank
  rw [← eq_of_beq hrank, decide_eq_true_iff]

/-- The engine of a task, unless it is the broker. -/
def Reporter.engine? : Reporter → Option Engine
  | .socket sock => sock.job.owner
  | .arp => some .arp

/-- The task is that of a generic engine. -/
def Reporter.generic (r : Reporter) : Bool := r.engine?.any Engine.generic

/-- What a task that does not panic makes of what it gets. -/
theorem Listener.report_of_react {listener : Listener} {writer : Option PcapWriter} {r : Reporter}
    {x : Input} {devs : List Device} (h : listener.react writer r x = .ok devs) :
    listener.report r x = .ok devs := by
  obtain ⟨-, -, hreport⟩ := Res.bind_eq_ok.mp h
  exact hreport

/-- A task of a generic engine reports devices of the lowest rank, and only such a task does. -/
theorem Listener.version_eq_zero_iff {listener : Listener} {r : Reporter} {x : Input}
    {devs : List Device} (h : listener.report r x = .ok devs) {d : Device} (hd : d ∈ devs) :
    d.version = 0 ↔ r.generic = true := by
  cases r with
  | arp =>
    cases x with
    | datagram => cases h; cases hd
    | frame data => exact (Arp.receive_yields _ _ data devs h d hd).version_eq_zero_iff
  | socket sock =>
    cases x with
    | frame => cases h; cases hd
    | datagram src data le now write =>
      rw [Listener.report] at h
      cases howner : sock.job.owner with
      | some e =>
        simp only [howner] at h
        have hgeneric : (Reporter.socket sock).generic = e.generic := by
          rw [Reporter.generic, Reporter.engine?, howner]
          rfl
        rw [hgeneric]
        exact (e.parse_yields src data devs h d hd).version_eq_zero_iff
      | none =>
        simp only [howner] at h
        obtain ⟨e, -, hdomains, hreports⟩ := hear_yields _ _ _ devs h d hd
        -- No generic engine registers with the broker.
        have hgeneric : e.generic = (Reporter.socket sock).generic := by
          rw [Reporter.generic, Reporter.engine?, howner]
          cases e <;> first | rfl | exact absurd rfl hdomains
        rw [hreports.version_eq_zero_iff, hgeneric]

/-- A task reports devices of one of three ranks. -/
theorem Listener.rank_lt {listener : Listener} {r : Reporter} {x : Input} {devs : List Device}
    (h : listener.report r x = .ok devs) {d : Device} (hd : d ∈ devs) : d.rank < 3 := by
  have hranks (e : Engine) : ∀ v ∈ e.ranks, v.toNat < 3 := by
    have hall : e.ranks.all (fun v => decide (v.toNat < 3)) = true := by cases e <;> decide
    exact fun v hv => of_decide_eq_true (List.all_eq_true.mp hall v hv)
  cases r with
  | arp =>
    cases x with
    | datagram => cases h; cases hd
    | frame data => exact hranks _ _ (Arp.receive_yields _ _ data devs h d hd).rank
  | socket sock =>
    cases x with
    | frame => cases h; cases hd
    | datagram src data le now write =>
      rw [Listener.report] at h
      cases howner : sock.job.owner with
      | some e =>
        simp only [howner] at h
        exact hranks _ _ (e.parse_yields src data devs h d hd).rank
      | none =>
        simp only [howner] at h
        obtain ⟨e, -, -, hreports⟩ := hear_yields _ _ _ devs h d hd
        exact hranks _ _ hreports.rank

/-- A task that may panic after the writer has what it gets: it is that of a socket of an engine
whose parser may panic, or it is that of ARP, and reads no data of the vendors. -/
def Listener.MayPanic (listener : Listener) (r : Reporter) : Prop :=
  match r with
  | .socket sock => ∃ e, sock.job.owner = some e ∧ e.mayPanic = true
  | .arp => listener.vendors = .panicked

/-- Only such a task panics after the writer has what it gets. -/
theorem Listener.report_ok {listener : Listener} {r : Reporter} (hsafe : ¬ listener.MayPanic r)
    (x : Input) : ∃ devs, listener.report r x = .ok devs := by
  cases r with
  | arp =>
    cases x with
    | datagram => exact ⟨[], rfl⟩
    | frame data =>
      cases hload : listener.vendors with
      | panicked => exact absurd hload hsafe
      | err e => exact e.elim
      | ok map =>
        rw [Listener.report, hload]
        exact Arp.receive_ok listener.localIps data
  | socket sock =>
    cases x with
    | frame => exact ⟨[], rfl⟩
    | datagram src data le now write =>
      rw [Listener.report]
      cases howner : sock.job.owner with
      | some e =>
        have hnot : ¬ e.mayPanic = true := fun h => hsafe ⟨e, howner, h⟩
        rcases (Engine.parse_safe (Bool.eq_false_iff.mpr hnot) src data).ok_or_err with
          ⟨devs, hdevs, -⟩ | ⟨e', -⟩
        · exact ⟨devs, hdevs⟩
        · exact e'.elim
      | none => exact hear_ok _ _ _

/-- A task that calls the writer: that of a socket of an engine. -/
def Reporter.tapped : Reporter → Bool
  | .socket sock => sock.job.owner.isSome
  | .arp => false

/-- What has too many bytes for a record. -/
def Input.overlong : Input → Bool
  | .datagram _ data .. => 65493 < data.length
  | .frame _ => false

/-- In a development build, a task that calls the writer gets what has too many bytes for it. -/
def Listener.Breaks (listener : Listener) (r : Reporter) (x : Input) : Prop :=
  listener.profile = .dev ∧ r.tapped = true ∧ x.overlong = true

/-- There is a writer only if there is a capture, and no call has panicked. -/
def Listener.Sound (listener : Listener) (writer : Option PcapWriter) : Prop :=
  ∀ w, writer = some w → listener.pcap = true ∧ w.poisoned = false

/-- The writer at the start. -/
theorem Listener.sound_writer (listener : Listener) : listener.Sound listener.writer := by
  intro w hw
  rw [Listener.writer] at hw
  split_ifs at hw with hpcap
  cases hw
  exact ⟨hpcap, rfl⟩

/-- A writer without a panic takes what leaves room for the headers. -/
theorem Listener.Sound.tap {listener : Listener} {writer : Option PcapWriter}
    (h : listener.Sound writer) {r : Reporter} {x : Input} (hroom : ¬ listener.Breaks r x) :
    (listener.tap writer r x).2 = .ok () ∧ listener.Sound (listener.tap writer r x).1 := by
  cases writer with
  | none => exact ⟨rfl, h⟩
  | some w =>
    cases r with
    | arp => exact ⟨rfl, h⟩
    | socket sock =>
      cases x with
      | frame => exact ⟨rfl, h⟩
      | datagram src data le now write =>
        rw [Listener.tap]
        cases howner : sock.job.owner with
        | none => exact ⟨rfl, h⟩
        | some e =>
          obtain ⟨hpcap, hw⟩ := h w rfl
          have hlengths : lengths listener.profile data.length ≠ .panicked := by
            rw [Ne, lengths_panicked_iff, Nat.mod_eq_of_lt (Nat.lt_of_le_of_lt le (by decide))]
            rintro ⟨hdev, hlong⟩
            exact hroom ⟨hdev, by rw [Reporter.tapped, howner]; rfl, decide_eq_true hlong⟩
          obtain ⟨⟨n, hn⟩, hsound⟩ :=
            PcapWriter.appendUdp_of_lengths hw hlengths write now src sock.localAddr
          refine ⟨by simp only [hn, Res.ok_bind], ?_⟩
          rintro w' hw'
          cases hw'
          exact ⟨hpcap, hsound⟩

/-- A task that does not call the writer, or has none, is not changed by it. -/
theorem Listener.tap_of_not {listener : Listener} {writer : Option PcapWriter} {r : Reporter}
    (h : r.tapped = false ∨ writer = none) (x : Input) :
    listener.tap writer r x = (writer, .ok ()) := by
  cases writer with
  | none => rfl
  | some w =>
    cases r with
    | arp => rfl
    | socket sock =>
      cases x with
      | frame => rfl
      | datagram src data le now write =>
        have howner : sock.job.owner = none := by
          rcases h with h | h
          · exact Option.not_isSome_iff_eq_none.mp (by rw [← Reporter.tapped, h]; decide)
          · cases h
        rw [Listener.tap, howner]

/-! ## Runs -/

namespace Pipeline

variable (lib : Render) (st : Settings) (listener : Listener)

/-- The tasks and the loop after a run. -/
def run (es : List PipelineEvent) : Pipeline :=
  Machine.run (step lib st listener) (new st listener) es

/-- What the tasks have taken in a run, in order. -/
def inputs (es : List PipelineEvent) : List (Reporter × Option PcapWriter × Input) :=
  Machine.outputs (step lib st listener) taken (new st listener) es

/-- The reports to the table are the received devices. -/
theorem reports_map_received (st : Settings) (ds : List Device) :
    reports st (ds.map .received) =
      asReports st.config.enableIpv4 st.config.enableIpv6 ds := by
  induction ds with
  | nil => rfl
  | cons d ds ih => exact congrArg (_ :: ·) ih

/-- The rows of the table are those that the received devices lead to. -/
theorem all_run (es : List PipelineEvent) :
    (run lib st listener es).loop.table.all =
      finalRows st.config.forceGenericProtocols st.config.enableIpv4 st.config.enableIpv6
        (run lib st listener es).received := by
  have hloop := (run_inv lib st listener es).loop
  rw [run, hloop, stateAfter, Uscan.received, reports_map_received]
  rfl

/-- The device of a report has the row of its address, or one of a higher rank has. -/
theorem exists_row {g v4 v6 : Bool} {ds : List Device} {d : Device} (hd : d ∈ ds)
    (hfamily : d.familyOk v4 v6 = true) :
    ∃ row ∈ finalRows g v4 v6 ds, row.key g = d.key g ∧ d.version ≤ row.version := by
  have hmem : d ∈ reportsOf g (d.key g) (asReports v4 v6 ds) := mem_reportsOf.mpr ⟨hd, hfamily, rfl⟩
  obtain ⟨row, hrow, hspec⟩ := rowSpec_foldl (List.ne_nil_of_mem hmem)
  obtain ⟨first, hmax, hversion, -⟩ := hspec.exists_firstMax
  refine ⟨row, mem_finalRows.mpr ⟨_, hrow⟩, key_of_foldl hrow, ?_⟩
  rw [hversion]
  exact UInt32.le_iff_toNat_le.mpr (hmax.le d hmem)

/-- A received device is one that a task has reported of something that it has taken. -/
theorem exists_answer (es : List PipelineEvent) {r : Reporter} {d : Device}
    (h : (r, d) ∈ (run lib st listener es).tasks.channel.received) :
    ∃ w x devs, (r, w, x) ∈ inputs lib st listener es ∧ listener.react w r x = .ok devs ∧
      d ∈ devs := by
  obtain ⟨⟨w, x⟩, devs, hx, hdevs, hmem⟩ := (run_inv lib st listener es).tasks.exists_input h
  refine ⟨w, x, devs, hx, ?_, hmem⟩
  change listener.devices? r (w, x) = some devs at hdevs
  unfold Listener.devices? at hdevs
  split at hdevs
  · cases hdevs
    assumption
  · cases hdevs

/-- Unless some task breaks the writer, it takes everything that the tasks have taken. -/
theorem tap_inputs (es : List PipelineEvent)
    (hroom : ∀ r w x, (r, w, x) ∈ inputs lib st listener es → ¬ listener.Breaks r x) {r : Reporter}
    {w : Option PcapWriter} {x : Input} (hx : (r, w, x) ∈ inputs lib st listener es) :
    (listener.tap w r x).2 = .ok () := by
  have hall := (run_inv lib st listener es).tasks.leads.forall listener.sound_writer
    fun r x hmem hsound => (hsound.tap (hroom r x.1 x.2 hmem)).2
  exact ((hall.2 r (w, x) hx).tap (hroom r w x hx)).1

/-- There is a writer only with a capture. -/
theorem writer_inputs (es : List PipelineEvent) (hpcap : listener.pcap = false) {r : Reporter}
    {w : Option PcapWriter} {x : Input} (hx : (r, w, x) ∈ inputs lib st listener es) :
    w = none := by
  have hstart : listener.writer = none := by
    rw [Listener.writer, hpcap]
    rfl
  have hall := @Producers.Leads.forall _ _ _ _ _ (· = none) _ _ _
    (run_inv lib st listener es).tasks.leads hstart fun r x _ hnone => by
      change (listener.tap x.1 r x.2).1 = none
      rw [Listener.tap_of_not (.inr hnone), hnone]
  exact hall.2 r (w, x) hx

/-- In every run: what a task has sent and is to send are the devices of all that it has taken, each
once and in order. The loop has done what it is for with the devices that it has received, in the
order of the channel. Only a task that may panic has ended, or, in a development build with a
capture, that of a socket of an engine, after some engine has got a datagram with too many bytes for
a record; and as long as none has, a task makes of what it gets what it makes without a capture.
Once the tasks have sent everything and the channel is empty, every device of every answer, if its
family is shown, has a row for its address, of its rank or a higher one. -/
theorem run_delivered (es : List PipelineEvent) :
    let s := run lib st listener es
    let inputs := inputs lib st listener es
    (∀ r, Producers.of r s.tasks.channel.sent ++ s.tasks.pending r =
      (Producers.of r inputs).flatMap fun x => (listener.devices? r x).getD []) ∧
      s.loop = stateAfter lib st (s.received.map .received) ∧
      (∀ r, s.tasks.alive r = false → listener.MayPanic r ∨
        listener.pcap = true ∧ r.tapped = true ∧
          ∃ r' w x, (r', w, x) ∈ inputs ∧ listener.Breaks r' x) ∧
      ((∀ r w x, (r, w, x) ∈ inputs → ¬ (listener.pcap = true ∧ listener.Breaks r x)) →
        ∀ r w x, (r, w, x) ∈ inputs → listener.react w r x = listener.report r x) ∧
      ((∀ r, s.tasks.pending r = []) → s.tasks.channel.waiting = [] →
        ∀ r w x devs, (r, w, x) ∈ inputs → listener.react w r x = .ok devs → ∀ d ∈ devs,
          d.familyOk st.config.enableIpv4 st.config.enableIpv6 = true →
            ∃ row ∈ s.loop.table.all, row.ip = d.ip ∧ d.version ≤ row.version) := by
  intro s inputs
  have hinv := run_inv lib st listener es
  have htap (hroom : ∀ r w x, (r, w, x) ∈ inputs → ¬ (listener.pcap = true ∧ listener.Breaks r x))
      {r : Reporter} {w : Option PcapWriter} {x : Input} (hx : (r, w, x) ∈ inputs) :
      (listener.tap w r x).2 = .ok () := by
    cases hpcap : listener.pcap with
    | true => exact tap_inputs lib st listener es (fun r w x hx h => hroom r w x hx ⟨hpcap, h⟩) hx
    | false => rw [Listener.tap_of_not (.inr (writer_inputs lib st listener es hpcap hx))]
  refine ⟨hinv.tasks.values, hinv.loop, fun r hr => ?_, fun hroom r w x hx => ?_,
    fun hpending hwaiting r w x devs hx hreact d hd hfamily => ?_⟩
  · obtain ⟨before, ⟨w, x⟩, hinputs, hnone, -⟩ := hinv.tasks.ended r hr
    have hx : (r, w, x) ∈ inputs :=
      Producers.mem_of.mp (hinputs ▸ List.mem_append_right before (List.mem_singleton_self _))
    by_contra hnot
    rw [not_or] at hnot
    obtain ⟨devs, hdevs⟩ := Listener.report_ok hnot.1 x
    -- The task has not panicked in the writer either.
    have hok : (listener.tap w r x).2 = .ok () := by
      cases htapped : r.tapped with
      | false => rw [Listener.tap_of_not (.inl htapped)]
      | true =>
        refine htap (fun r' w' x' hx' hbreaks => hnot.2 ?_) hx
        exact ⟨hbreaks.1, htapped, r', w', x', hx', hbreaks.2⟩
    change listener.devices? r (w, x) = none at hnone
    rw [Listener.devices?, Listener.react, hok, Res.ok_bind, hdevs] at hnone
    cases hnone
  · rw [Listener.react, htap hroom hx, Res.ok_bind]
  · have hall := hinv.tasks.received_all (hpending r) hwaiting
    have hsome : listener.devices? r (w, x) = some devs := by rw [Listener.devices?, hreact]
    have hmem : d ∈ Producers.of r s.tasks.channel.received := by
      change d ∈ Producers.of r
        (Machine.run (step lib st listener) (new st listener) es).tasks.channel.received
      rw [hall]
      refine List.mem_flatMap.mpr ⟨(w, x), Producers.mem_of.mpr hx, ?_⟩
      change d ∈ (listener.devices? r (w, x)).getD []
      rwa [hsome]
    have hreceived : d ∈ s.received := List.mem_map.mpr ⟨(r, d), Producers.mem_of.mp hmem, rfl⟩
    obtain ⟨row, hrow, hkey, hle⟩ := exists_row
      (g := st.config.forceGenericProtocols) hreceived hfamily
    refine ⟨row, ?_, ((Device.key_eq_iff _ _ _).mp hkey).1, hle⟩
    rw [all_run]
    exact hrow

/-- In every run, a row has the rank, the protocol, the type and the serial number of a device that
some task has reported of something that it has taken. If that is a task of a generic engine, then
the loop has received no device with the key of the row from a task of another engine. -/
theorem run_rows_specific (es : List PipelineEvent) :
    let s := run lib st listener es
    ∀ row ∈ s.loop.table.all, ∃ r w x devs d, (r, w, x) ∈ inputs lib st listener es ∧
      listener.react w r x = .ok devs ∧ d ∈ devs ∧ d.ip = row.ip ∧ d.version = row.version ∧
      d.protocol = row.protocol ∧ d.deviceType = row.deviceType ∧ d.serial = row.serial ∧
      (r.generic = true → ∀ r' d', (r', d') ∈ s.tasks.channel.received →
        d'.key st.config.forceGenericProtocols = row.key st.config.forceGenericProtocols →
          r'.generic = true) := by
  intro s row hrow
  rw [all_run, mem_finalRows] at hrow
  obtain ⟨k, hrow⟩ := hrow
  have hkey := key_of_foldl hrow
  obtain ⟨first, hmax, hversion, hprotocol, htype, hserial⟩ :=
    (rowSpec_of_foldl hrow).exists_firstMax
  obtain ⟨hreceived, hfamily, hfirst⟩ := mem_reportsOf.mp hmax.mem
  obtain ⟨⟨r, d⟩, hd, rfl⟩ := List.mem_map.mp hreceived
  obtain ⟨w, x, devs, hx, hreact, hmem⟩ := exists_answer lib st listener es hd
  have hip := ((Device.key_eq_iff _ _ _).mp (hfirst.trans hkey.symm)).1
  refine ⟨r, w, x, devs, d, hx, hreact, hmem, hip, hversion.symm, hprotocol.symm, htype.symm,
    hserial.symm, fun hgeneric r' d' hd' hkey' => ?_⟩
  -- The row has the highest rank of the key, and that is the lowest one of all.
  have hzero : d.version = 0 :=
    (Listener.version_eq_zero_iff (Listener.report_of_react hreact) hmem).mpr hgeneric
  obtain ⟨w', x', devs', -, hreact', hmem'⟩ := exists_answer lib st listener es hd'
  rw [← Listener.version_eq_zero_iff (Listener.report_of_react hreact') hmem']
  have hip' := ((Device.key_eq_iff _ _ _).mp (hkey'.trans (hkey.trans hfirst.symm))).1
  have hfamily' : d'.familyOk st.config.enableIpv4 st.config.enableIpv6 = true := by
    rw [← hfamily, Device.familyOk, Device.familyOk, hip']
  have hle := hmax.le d' (mem_reportsOf.mpr
    ⟨List.mem_map.mpr ⟨(r', d'), hd', rfl⟩, hfamily', hkey'.trans hkey⟩)
  rw [Device.rank, Device.rank, hzero] at hle
  exact UInt32.toNat_inj.mp (Nat.le_zero.mp hle)

/-- In every run, what is printed while the loop runs is the header and, without `--batch`, a line
for each of some rows. However often the probes are sent again and devices answer, there are at most
three rows with a key, and each is of a higher rank than those before it. -/
theorem run_printed (es : List PipelineEvent) :
    let s := run lib st listener es
    ∃ rows : List Device,
      s.loop.stdout = (header st.args.format).toList ++
        (if st.args.batch then [] else rows.map (st.row lib)) ∧
      ∀ k, (printedRanks st.config.forceGenericProtocols k rows).Pairwise (· < ·) ∧
        (printedRanks st.config.forceGenericProtocols k rows).length ≤ 3 := by
  intro s
  have hloop := (run_inv lib st listener es).loop
  have hreports := reports_map_received st s.received
  refine ⟨(Uscan.received st (s.received.map .received)).2, congrArg LoopState.stdout hloop,
    fun k => ?_⟩
  have hsorted := (printedRanks_run st.config.forceGenericProtocols
    (reports st (s.received.map .received)) k).1
  refine ⟨hsorted, ?_⟩
  -- Ranks that increase are different ones, and there are three.
  have hsub : printedRanks st.config.forceGenericProtocols k
      (Uscan.received st (s.received.map .received)).2 ⊆ List.range 3 := by
    intro n hn
    obtain ⟨row, hrow, rfl⟩ := List.mem_map.mp hn
    obtain ⟨report, hreport, hversion⟩ := exists_report_of_printed _ _ (List.mem_filter.mp hrow).1
    rw [hreports] at hreport
    obtain ⟨d, hd, rfl⟩ := List.mem_map.mp hreport
    obtain ⟨⟨r, d⟩, hreceived, rfl⟩ := List.mem_map.mp hd
    obtain ⟨w, x, devs, -, hreact, hmem⟩ := exists_answer lib st listener es hreceived
    rw [Device.rank, ← hversion]
    exact List.mem_range.mpr (Listener.rank_lt (Listener.report_of_react hreact) hmem)
  have hnodup := hsorted.imp fun {a b} (h : a < b) => h.ne
  exact (List.Nodup.subperm hnodup hsub).length_le.trans_eq List.length_range

end Pipeline

end Uscan
