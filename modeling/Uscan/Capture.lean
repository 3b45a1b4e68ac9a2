import Uscan.Net.Sending
import Uscan.Pcap

/-!
# The capture

A scanner with a pcap file: its scans, the steps of its sweeps, and the datagrams that its sockets
receive, in any order. The receive loop of an engine hands each datagram to the writer before it is
parsed. Nothing else does: the probes are sent by `SocketSet`, which has no writer, and the mDNS
broker neither records what it sends nor what it receives. The field `traffic` has all datagrams
that have been sent and received, and `calls` the calls of `append_udp` that have written a record;
the program has no such fields.

The file is complete, as its reader sees it, exactly when the run has no send that goes out, no
datagram for the broker, and no datagram that is too long for a record (`run_complete_iff`).
-/

namespace Uscan

open PcapWriter (Call)

/-- The most bytes that a datagram between IPv4 addresses can carry. -/
def maxPayload : ℕ := 65507

/-- What happens to a scanner that has been started. -/
inductive Event where
  /-- A call of `scan`. The operating system answers each send. -/
  | scan (draw : Draw) (ok : ℕ → Bool)
  /-- A step of a sweep of an engine. -/
  | sweep (e : Engine) (host : Ipv4Addr) (ok : ℕ → Bool)
  /-- A socket receives a datagram. -/
  | receive (sock : Sock) (src : SocketAddr) (data : List UInt8) (hlen : data.length ≤ maxPayload)
    (now : SystemTime)

/-- The capture of a run. -/
structure Capture where
  /-- The scans so far. -/
  round : ℕ
  /-- The writer. -/
  writer : PcapWriter
  /-- The datagrams that have been sent and received. -/
  traffic : List Datagram
  /-- The calls that have written a record. -/
  calls : List Call

namespace Capture

/-- A scanner that has just been started. -/
def new : Capture := ⟨0, PcapWriter.new, [], []⟩

/-- Datagrams go out. -/
def send (c : Capture) (ds : List Datagram) : Capture := { c with traffic := c.traffic ++ ds }

/-- The part of `recv_loop` that records a datagram. The writes to the file succeed. A loop that
panics here goes on receiving in the model; the file is incomplete by then. -/
def append (profile : Profile) (c : Capture) (call : Call) : Capture :=
  let (writer, result) := c.writer.append profile call
  match result with
  | .ok (some _) => { c with writer := writer, calls := c.calls ++ [call] }
  | _ => { c with writer := writer }

/-- A socket receives a datagram: `recv_loop` for an engine, and the receive loops of
`MdnsBroker::listen`, which have no writer. -/
def receive (profile : Profile) (c : Capture) (sock : Sock) (src : SocketAddr) (data : List UInt8)
    (now : SystemTime) : Capture :=
  let c := { c with traffic := c.traffic ++ [⟨src, sock.localAddr, data⟩] }
  match sock.job.owner with
  | some _ => c.append profile ⟨now, src, sock.localAddr, data⟩
  | none => c

end Capture

namespace Started

/-- The capture after an event. A sweep follows a scan, and a socket that is not open receives
nothing. -/
def step (profile : Profile) (st : Started) (c : Capture) : Event → Capture
  | .scan draw ok => { c.send (sent ok (st.scan c.round draw)) with round := c.round + 1 }
  | .sweep e host ok => if c.round = 0 then c else c.send (sent ok (st.sweep e host))
  | .receive sock src data _ now =>
    if sock ∈ st.socks then c.receive profile sock src data now else c

/-- The capture after a run. -/
def run (profile : Profile) (st : Started) (es : List Event) : Capture :=
  Machine.run (st.step profile) Capture.new es

/-- The event leaves no datagram unrecorded: every send of a scan and of a sweep fails, and a
datagram between IPv4 addresses arrives at a socket of an engine and leaves room for the headers. -/
def Records (st : Started) (c : Capture) : Event → Prop
  | .scan draw ok => ∀ n < (st.scan c.round draw).length, ok n = false
  | .sweep e host ok => c.round ≠ 0 → ∀ n < (st.sweep e host).length, ok n = false
  | .receive sock src data _ _ =>
    sock ∈ st.socks → (Datagram.mk src sock.localAddr data).isIpv4 = true →
      sock.job.owner ≠ none ∧ data.length ≤ 65493

end Started

/-- The datagram of a record. -/
def Packet.datagram (p : Packet) : Datagram := ⟨p.src, p.dst, p.payload⟩

/-- The datagram of a call. -/
def PcapWriter.Call.datagram (c : Call) : Datagram := ⟨c.src, c.dst, c.payload⟩

namespace Capture

/-- The datagrams that the file is meant to have: those between IPv4 addresses. -/
def ipv4 (c : Capture) : List Datagram := c.traffic.filter Datagram.isIpv4

/-- The file has a record of every datagram between IPv4 addresses that has been sent or received,
as often as it has been. -/
def Complete (c : Capture) : Prop :=
  ∃ packets, PcapReader.readFile c.writer.file = some packets ∧
    c.ipv4.Subperm (packets.map Packet.datagram)

/-! ## The file -/

/-- What holds of every capture. -/
structure Inv (profile : Profile) (c : Capture) : Prop where
  /-- The file has the records of the calls. -/
  file : c.writer.file = PcapWriter.fileHeader ++ c.calls.flatMap (Call.bytes profile)
  /-- The calls have IPv4 endpoints, and lengths. -/
  call : ∀ x ∈ c.calls, x.isIpv4 = true ∧ x.payload.length ≤ maxPayload ∧
    ∃ l, lengths profile x.payload.length = .ok l
  /-- The calls have datagrams of the traffic, in order. -/
  sublist : (c.calls.map Call.datagram).Sublist c.ipv4
  /-- A writer that panicked has missed a datagram. -/
  poisoned : c.writer.poisoned = true → c.calls.length < c.ipv4.length

/-- The calls are as many as the datagrams, and a reader reads them. -/
structure Good (c : Capture) : Prop where
  /-- The calls have room for the headers. -/
  call : ∀ x ∈ c.calls, x.payload.length ≤ 65493
  /-- They are as many as the datagrams. -/
  length : c.calls.length = c.ipv4.length

variable {profile : Profile} {c : Capture}

/-- The calls of a capture are no more than the datagrams. -/
theorem Inv.length_le (h : Inv profile c) : c.calls.length ≤ c.ipv4.length := by
  have hle := h.sublist.length_le
  rwa [List.length_map] at hle

/-- The file of calls that a reader reads. -/
theorem Inv.readFile_eq (h : Inv profile c) (hc : ∀ x ∈ c.calls, x.payload.length ≤ 65493) :
    PcapReader.readFile c.writer.file = some (c.calls.map Call.stamped) := by
  rw [h.file]
  refine PcapReader.readFile_append fun x hx => ?_
  obtain ⟨h4, -, l, hl⟩ := h.call x hx
  exact ⟨Call.bytes_ne_nil h4 hl, Call.reads_bytes profile h4 (hc x hx)⟩

/-- The calls of a file that is read have room for the headers. -/
theorem Inv.length_le_of_readFile (h : Inv profile c) {packets : List Packet}
    (hread : PcapReader.readFile c.writer.file = some packets) :
    ∀ x ∈ c.calls, x.payload.length ≤ 65493 := by
  rw [h.file, PcapReader.readFile, PcapReader.reads_header] at hread
  refine @Reader.forall_of_readAll _ _ _ PcapReader.readRecord (Call.bytes profile) Call.stamped
    (fun x => x.payload.length ≤ 65493) c.calls (fun x hx hfit => ?_) (fun x hx hlong rest => ?_)
    (fun x hx => ?_) packets hread
  · exact Call.reads_bytes profile (h.call x hx).1 hfit
  · obtain ⟨h4, hle, l, hl⟩ := h.call x hx
    exact Call.run_bytes_none h4 hl (not_le.mp hlong) hle rest
  · obtain ⟨h4, -, l, hl⟩ := h.call x hx
    exact Call.bytes_ne_nil h4 hl

/-- A file is complete exactly when its calls are as many as the datagrams and a reader reads
them. -/
theorem Inv.complete_iff (h : Inv profile c) : c.Complete ↔ c.Good := by
  have hdatagrams : (c.calls.map Call.stamped).map Packet.datagram = c.calls.map Call.datagram := by
    rw [List.map_map]
    rfl
  constructor
  · -- As many records as datagrams leave no datagram out.
    rintro ⟨packets, hread, hsub⟩
    have hfit := h.length_le_of_readFile hread
    rw [h.readFile_eq hfit] at hread
    cases hread
    have hle := hsub.length_le
    rw [hdatagrams, List.length_map] at hle
    exact ⟨hfit, le_antisymm h.length_le hle⟩
  · intro hgood
    refine ⟨_, h.readFile_eq hgood.call, ?_⟩
    have heq := h.sublist.eq_of_length (by rw [List.length_map, hgood.length])
    rw [hdatagrams, heq]

/-! ## Steps -/

/-- A capture that has just been started. -/
theorem Inv.new : Inv profile Capture.new where
  file := (List.append_nil _).symm
  call := fun _ hx => absurd hx List.not_mem_nil
  sublist := List.Sublist.slnil
  poisoned := fun h => absurd h Bool.false_ne_true

/-- So far its file is complete. -/
theorem Good.new : Good Capture.new where
  call := fun _ hx => absurd hx List.not_mem_nil
  length := rfl

/-- A step that neither writes nor adds to the datagrams changes nothing. -/
theorem Inv.idle (h : Inv profile c) {c' : Capture} (hwriter : c'.writer = c.writer)
    (hcalls : c'.calls = c.calls) (hipv4 : c'.ipv4 = c.ipv4) :
    Inv profile c' ∧ (c'.Good ↔ c.Good) := by
  refine ⟨⟨?_, ?_, ?_, ?_⟩, fun hgood => ⟨?_, ?_⟩, fun hgood => ⟨?_, ?_⟩⟩
  · rw [hwriter, hcalls, h.file]
  · rw [hcalls]
    exact h.call
  · rw [hcalls, hipv4]
    exact h.sublist
  · rw [hwriter, hcalls, hipv4]
    exact h.poisoned
  · rw [← hcalls]
    exact hgood.call
  · rw [← hcalls, ← hipv4, hgood.length]
  · rw [hcalls]
    exact hgood.call
  · rw [hcalls, hipv4, hgood.length]

/-- A step that adds datagrams without a record leaves the file incomplete for good, whether the
writer is poisoned or not. -/
theorem Inv.miss (h : Inv profile c) {c' : Capture} {ds : List Datagram}
    (hfile : c'.writer.file = c.writer.file) (hcalls : c'.calls = c.calls)
    (hipv4 : c'.ipv4 = c.ipv4 ++ ds) (hds : ds ≠ []) : Inv profile c' ∧ ¬ c'.Good := by
  have hlt : c'.calls.length < c'.ipv4.length := by
    have hle := h.length_le
    have hpos := List.length_pos_of_ne_nil hds
    rw [hcalls, hipv4, List.length_append]
    omega
  refine ⟨⟨?_, ?_, ?_, fun _ => hlt⟩, fun hgood => ?_⟩
  · rw [hfile, hcalls, h.file]
  · rw [hcalls]
    exact h.call
  · rw [hcalls, hipv4]
    exact h.sublist.trans (List.sublist_append_left _ _)
  · exact hlt.ne hgood.length

/-- A step that records a datagram keeps the file complete if a reader can read the record. -/
theorem Inv.record (h : Inv profile c) (hw : c.writer.poisoned = false) {x : Call}
    (h4 : x.isIpv4 = true) (hlen : x.payload.length ≤ maxPayload) {l : Lengths}
    (hl : lengths profile x.payload.length = .ok l) {c' : Capture}
    (hwriter : c'.writer = (c.writer.append profile x).1) (hcalls : c'.calls = c.calls ++ [x])
    (hipv4 : c'.ipv4 = c.ipv4 ++ [x.datagram]) :
    Inv profile c' ∧ (c'.Good ↔ c.Good ∧ x.payload.length ≤ 65493) := by
  rw [PcapWriter.append_of_isIpv4 hw h4 hl] at hwriter
  refine ⟨⟨?_, ?_, ?_, ?_⟩, fun hgood => ⟨⟨?_, ?_⟩, ?_⟩, fun ⟨hgood, hfit⟩ => ⟨?_, ?_⟩⟩
  -- The invariant: the file, the calls, the datagrams and the lock.
  · rw [hwriter, hcalls, List.flatMap_append, ← List.append_assoc, ← h.file]
    simp
  · rw [hcalls]
    intro y hy
    rcases List.mem_append.mp hy with hy | hy
    · exact h.call y hy
    · rw [List.mem_singleton.mp hy]
      exact ⟨h4, hlen, l, hl⟩
  · rw [hcalls, hipv4, List.map_append]
    exact h.sublist.append (List.Sublist.refl _)
  · intro hp
    rw [hwriter, hw] at hp
    cases hp
  -- A file that is complete was complete before, and the record is not too long.
  · intro y hy
    exact hgood.call y (hcalls ▸ List.mem_append_left _ hy)
  · have hlength := hgood.length
    rw [hcalls, hipv4, List.length_append, List.length_append] at hlength
    exact Nat.add_right_cancel hlength
  · exact hgood.call x (hcalls ▸ List.mem_append_right _ List.mem_cons_self)
  -- And the other way round.
  · rw [hcalls]
    intro y hy
    rcases List.mem_append.mp hy with hy | hy
    · exact hgood.call y hy
    · rw [List.mem_singleton.mp hy]
      exact hfit
  · rw [hcalls, hipv4, List.length_append, List.length_append, hgood.length]
    rfl

/-- The datagrams after others. -/
theorem ipv4_send (c : Capture) (ds : List Datagram) :
    (c.send ds).ipv4 = c.ipv4 ++ ds.filter Datagram.isIpv4 :=
  List.filter_append c.traffic ds

/-- The datagrams after one between IPv4 addresses. -/
theorem ipv4_send_of_isIpv4 (c : Capture) {d : Datagram} (h : d.isIpv4 = true) :
    (c.send [d]).ipv4 = c.ipv4 ++ [d] := by
  rw [ipv4_send, List.filter_cons_of_pos h, List.filter_nil]

/-- The datagrams after another one. -/
theorem ipv4_send_of_not_isIpv4 (c : Capture) {d : Datagram} (h : ¬ d.isIpv4 = true) :
    (c.send [d]).ipv4 = c.ipv4 := by
  rw [ipv4_send, List.filter_cons_of_neg h, List.filter_nil, List.append_nil]

/-- Datagrams between IPv4 addresses go out: the file stays complete exactly when there are none. -/
theorem Inv.send (h : Inv profile c) {ds : List Datagram} (hds : ∀ d ∈ ds, d.isIpv4 = true)
    (round : ℕ) :
    let c' := { c.send ds with round := round }
    Inv profile c' ∧ (Good c' ↔ c.Good ∧ ds = []) := by
  intro c'
  have hipv4 : c'.ipv4 = c.ipv4 ++ ds := by
    rw [← List.filter_eq_self.mpr hds]
    exact c.ipv4_send ds
  by_cases hnil : ds = []
  · rw [hnil, List.append_nil] at hipv4
    have hidle : Inv profile c' ∧ (Good c' ↔ c.Good) := h.idle rfl rfl hipv4
    exact ⟨hidle.1, hidle.2.trans (and_iff_left hnil).symm⟩
  · have hmiss : Inv profile c' ∧ ¬ Good c' := h.miss rfl rfl hipv4 hnil
    exact ⟨hmiss.1, iff_of_false hmiss.2 fun hgood => hnil hgood.2⟩

/-- An engine hands a datagram to the writer: the file stays complete exactly when the datagram is
not between IPv4 addresses or leaves room for the headers. -/
theorem Inv.append (h : Inv profile c) {x : Call} (hlen : x.payload.length ≤ maxPayload) :
    let c' := (c.send [x.datagram]).append profile x
    Inv profile c' ∧ (Good c' ↔ c.Good ∧ (x.isIpv4 = true → x.payload.length ≤ 65493)) := by
  intro c'
  by_cases h4 : x.isIpv4 = true
  · have hipv4 := @ipv4_send_of_isIpv4 c x.datagram h4
    rcases PcapWriter.append_cases profile c.writer h4 with ⟨hw, l, hl, happend⟩ | ⟨hw, happend⟩
    · -- The datagram has a record.
      have hc' : c' = { c.send [x.datagram] with
          writer := (c.writer.append profile x).1, calls := c.calls ++ [x] } := by
        simp only [c', Capture.append, Capture.send, happend]
      have hrecord : Inv profile c' ∧ (Good c' ↔ c.Good ∧ x.payload.length ≤ 65493) :=
        hc' ▸ h.record hw h4 hlen hl rfl rfl hipv4
      exact ⟨hrecord.1, hrecord.2.trans (and_congr_right fun _ => (imp_iff_right h4).symm)⟩
    · -- The writer panics, because it is poisoned or because it is now.
      have hc' : c' = { c.send [x.datagram] with
          writer := { c.writer with poisoned := true } } := by
        simp only [c', Capture.append, Capture.send, happend]
      have hmiss : Inv profile c' ∧ ¬ Good c' :=
        hc' ▸ h.miss rfl rfl hipv4 (List.cons_ne_nil _ _)
      refine ⟨hmiss.1, iff_of_false hmiss.2 fun ⟨hgood, hfit⟩ => ?_⟩
      rcases hw with hw | hw
      · -- A datagram is missing since it was poisoned.
        exact (h.poisoned hw).ne hgood.length
      · obtain ⟨l, hl, -⟩ := lengths_eq profile (hfit h4)
        rw [hw] at hl
        cases hl
  · have hipv4 := @ipv4_send_of_not_isIpv4 c x.datagram h4
    have happend := PcapWriter.append_of_not_isIpv4 profile c.writer (Bool.not_eq_true _ ▸ h4)
    have hc' : c' = c.send [x.datagram] := by
      simp only [c', Capture.append, Capture.send, happend]
    -- A datagram of another family is not written, and is not expected in the file.
    have hidle : Inv profile c' ∧ (Good c' ↔ c.Good) := hc' ▸ h.idle rfl rfl hipv4
    exact ⟨hidle.1, hidle.2.trans (and_iff_left fun h => absurd h h4).symm⟩

/-- A socket receives a datagram: the file stays complete exactly when the datagram is not between
IPv4 addresses, or arrives at an engine and leaves room for the headers. -/
theorem Inv.receive (h : Inv profile c) (sock : Sock) (src : SocketAddr) {data : List UInt8}
    (hlen : data.length ≤ maxPayload) (now : SystemTime) :
    let c' := c.receive profile sock src data now
    Inv profile c' ∧ (Good c' ↔ c.Good ∧ ((Datagram.mk src sock.localAddr data).isIpv4 = true →
      sock.job.owner ≠ none ∧ data.length ≤ 65493)) := by
  intro c'
  let x : Call := ⟨now, src, sock.localAddr, data⟩
  cases howner : sock.job.owner with
  | some e =>
    -- `recv_loop` has the writer.
    have hc' : c' = (c.send [x.datagram]).append profile x := by
      simp only [c', Capture.receive, howner]
      rfl
    have happend : Inv profile c' ∧
        (Good c' ↔ c.Good ∧ (x.isIpv4 = true → x.payload.length ≤ 65493)) := hc' ▸ h.append hlen
    refine ⟨happend.1, happend.2.trans (and_congr_right fun _ => imp_congr_right fun _ => ?_)⟩
    exact (and_iff_right (Option.some_ne_none e)).symm
  | none =>
    -- The loops of the broker do not.
    have hc' : c' = c.send [x.datagram] := by
      simp only [c', Capture.receive, howner]
      rfl
    by_cases h4 : x.datagram.isIpv4 = true
    · have hmiss : Inv profile c' ∧ ¬ Good c' :=
        hc' ▸ h.miss rfl rfl (c.ipv4_send_of_isIpv4 h4) (List.cons_ne_nil _ _)
      exact ⟨hmiss.1, iff_of_false hmiss.2 fun hgood => (hgood.2 h4).1 rfl⟩
    · have hidle : Inv profile c' ∧ (Good c' ↔ c.Good) :=
        hc' ▸ h.idle rfl rfl (c.ipv4_send_of_not_isIpv4 h4)
      exact ⟨hidle.1, hidle.2.trans (and_iff_left fun h => absurd h h4).symm⟩

end Capture

namespace Started

open Capture

variable {profile : Profile} {st : Started} {c : Capture}

/-- An event keeps the invariant, and the file complete exactly when it leaves no datagram
unrecorded. -/
theorem step_good (h : Inv profile c) (e : Event) :
    Inv profile (st.step profile c e) ∧
      (Good (st.step profile c e) ↔ c.Good ∧ st.Records c e) := by
  cases e with
  | scan draw ok =>
    obtain ⟨hinv, hgood⟩ := h.send (fun d hd => st.isIpv4_of_mem_scan (mem_of_mem_sent hd))
      (c.round + 1)
    exact ⟨hinv, hgood.trans (and_congr_right fun _ => sent_eq_nil_iff)⟩
  | sweep e host ok =>
    by_cases hround : c.round = 0
    · -- No scan has started a sweep.
      have hidle : st.step profile c (.sweep e host ok) = c := if_pos hround
      rw [hidle]
      exact ⟨h, (and_iff_left fun hne => absurd hround hne).symm⟩
    · have hsend : st.step profile c (.sweep e host ok) = c.send (sent ok (st.sweep e host)) :=
        if_neg hround
      obtain ⟨hinv, hgood⟩ := h.send (fun d hd => st.isIpv4_of_mem_sweep (mem_of_mem_sent hd))
        c.round
      rw [hsend]
      refine ⟨hinv, hgood.trans (and_congr_right fun _ => sent_eq_nil_iff.trans ?_)⟩
      exact (imp_iff_right hround).symm
  | receive sock src data hlen now =>
    by_cases hsock : sock ∈ st.socks
    · have hreceive : st.step profile c (.receive sock src data hlen now) =
          c.receive profile sock src data now := if_pos hsock
      obtain ⟨hinv, hgood⟩ := h.receive sock src hlen now
      rw [hreceive]
      exact ⟨hinv, hgood.trans (and_congr_right fun _ => (imp_iff_right hsock).symm)⟩
    · -- Nothing listens on the socket.
      have hidle : st.step profile c (.receive sock src data hlen now) = c := if_neg hsock
      rw [hidle]
      exact ⟨h, (and_iff_left fun hmem => absurd hmem hsock).symm⟩

/-- So do the events of a run, one after the other. -/
theorem run_good (h : Inv profile c) (es : List Event) :
    Inv profile (Machine.run (st.step profile) c es) ∧
      (Good (Machine.run (st.step profile) c es) ↔
        c.Good ∧ Machine.Along (st.step profile) st.Records c es) := by
  induction es generalizing c with
  | nil => exact ⟨h, (and_iff_left trivial).symm⟩
  | cons e es ih =>
    obtain ⟨hinv, hgood⟩ := st.step_good h e
    obtain ⟨hrun, hiff⟩ := ih hinv
    refine ⟨hrun, ?_⟩
    calc Good (Machine.run (st.step profile) c (e :: es))
        ↔ Good (st.step profile c e) ∧
            Machine.Along (st.step profile) st.Records (st.step profile c e) es := hiff
      _ ↔ (c.Good ∧ st.Records c e) ∧
            Machine.Along (st.step profile) st.Records (st.step profile c e) es :=
          and_congr_left' hgood
      _ ↔ c.Good ∧ Machine.Along (st.step profile) st.Records c (e :: es) := and_assoc

/-- The file of a run has a record of every datagram between IPv4 addresses that has been sent or
received exactly when every event of the run leaves no datagram unrecorded. -/
theorem run_complete_iff (profile : Profile) (st : Started) (es : List Event) :
    (st.run profile es).Complete ↔
      Machine.Along (st.step profile) st.Records Capture.new es := by
  obtain ⟨hinv, hgood⟩ := st.run_good (@Inv.new profile) es
  calc (st.run profile es).Complete
      ↔ (st.run profile es).Good := hinv.complete_iff
    _ ↔ Capture.new.Good ∧ Machine.Along (st.step profile) st.Records Capture.new es := hgood
    _ ↔ Machine.Along (st.step profile) st.Records Capture.new es := and_iff_right Good.new

/-- A scan of SSDP with one socket sends two datagrams, and the file has none. -/
theorem not_complete_ssdp :
    let sock : Sock := ⟨⟨some .ssdp, .multicast ⟨239, 255, 255, 250⟩⟩, ⟨0, 0, 0, 0⟩, 1900⟩
    let st : Started := ⟨{}, [.ssdp], [sock]⟩
    let draw : Draw := ⟨⟨0, 0, 0, 0⟩, exampleUuid⟩
    ¬ (st.run .release [.scan draw fun _ => true]).Complete := by
  rintro sock st draw ⟨packets, hread, hsub⟩
  have hnone : PcapReader.readFile PcapWriter.fileHeader = some [] := rfl
  have hpackets : packets = [] := Option.some_inj.mp (hread.symm.trans hnone)
  have hlength : (st.run .release [.scan draw fun _ => true]).ipv4.length = 2 := by decide
  have hle := hsub.length_le
  rw [hlength, hpackets] at hle
  exact absurd hle (by decide)

end Started

end Uscan
