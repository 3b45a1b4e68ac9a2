import Uscan.Arp.Sweep
import Uscan.Lib.Fifo
import Uscan.Lib.Runs
import Uscan.Oui.Database

/-!
# Listening to ARP frames

`arp_parse`, `filter_local`, and the tasks of `protocols/arp.rs` and `arp/capture.rs`: a thread for
each interface, which puts the frames of sweeps on the wire and captures frames, and a task that
reports the captured frames. Both get their frames from channels.

In every run, a thread sends the frames that it is given, in order, and the task reports the
captured frames, in order, without those of the addresses of its own host (`EngineRun.run_frames`).
A host therefore reports nothing of its own sweep, as long as it keeps the addresses that it had
when it started to listen, and it reports the answers (`sweep_reported`).
-/

namespace Uscan

namespace Arp

open Interfaces

/-! ## Hardware addresses -/

/-- `{:02x}`. -/
def hexByteLower (b : UInt8) : List Char :=
  [Nat.digitChar (b.toNat / 16), Nat.digitChar (b.toNat % 16)]

/-- A hardware address in lower case. -/
def lowerMac (mac : Mac) : List Char := [':'].intercalate (mac.elems.map hexByteLower)

/-- `parse_mac` of `iface.rs`. -/
def parseMac (s : List Char) : Option Mac :=
  match s.splitOn ':' with
  | [p0, p1, p2, p3, p4, p5] => do
    let b0 ← u8FromHex p0
    let b1 ← u8FromHex p1
    let b2 ← u8FromHex p2
    let b3 ← u8FromHex p3
    let b4 ← u8FromHex p4
    let b5 ← u8FromHex p5
    return macOfBytes b0 b1 b2 b3 b4 b5
  | _ => none

/-- `mac_of`, from the files that can be read. -/
def macOf (readToString : List Char → Option (List Char)) (name : List Char) : Option Mac :=
  (readToString ("/sys/class/net/".toList ++ name ++ "/address".toList)).bind fun s =>
    parseMac (trim s)

/-! ## Devices -/

/-- `arp_parse`. -/
def arpParse (frameBytes : List UInt8) : Res Empty (List Device) := do
  match ← parse frameBytes with
  | none => return []
  | some p =>
    return [{
      protocol := "ARP".toList
      version := 0
      ip := .v4 p.senderIp
      mac := macText [':'] p.srcMac.elems
      deviceType := if isGarp p then "GARP".toList else "ARP".toList
      serial := lowerMac p.srcMac }]

/-- `filter_local`. -/
def filterLocal (devs : List Device) (localIps : List Ipv4Addr) : List Device :=
  devs.filter fun d =>
    match d.ip with
    | .v4 ip => !localIps.contains ip
    | .v6 _ => true

/-- The name of the vendor behind the serial number, where it is known. `load` gives the data of
the vendors, and may panic. -/
def annotate (load : Res Empty (Option OuiMap)) (frameBytes : List UInt8) (dev : Device) :
    Res Empty Device :=
  if dev.protocol = "ARP".toList then do
    match ← parse frameBytes with
    | none => return dev
    | some p =>
      let map ← load
      match Oui.lookup map ⟨p.srcMac.elems.toArray, p.srcMac.length_eq⟩ with
      | none => return dev
      | some vendor => return { dev with serial := dev.serial ++ " (".toList ++ vendor ++ [')'] }
  else .ok dev

/-- What the task of `listen` reports of a frame. -/
def receive (load : Res Empty (Option OuiMap)) (localIps : List Ipv4Addr)
    (frameBytes : List UInt8) : Res Empty (List Device) := do
  let devs ← arpParse frameBytes
  (filterLocal devs localIps).mapM (annotate load frameBytes)

/-! ## A captured frame -/

/-- A byte is read from its two digits. -/
theorem u8FromHex_hexByteLower (b : UInt8) : u8FromHex (hexByteLower b) = some b := by
  have hall : ∀ d : Fin 16, AddrParser.toDigit 16 (Nat.digitChar d) = some d.val := by decide
  have hb := b.toNat_lt
  exact Oui.u8FromHex_pair ⟨hall ⟨b.toNat / 16, by omega⟩, hall ⟨b.toNat % 16, by omega⟩⟩

/-- A hardware address is read from its text. -/
theorem parseMac_lowerMac (mac : Mac) : parseMac (lowerMac mac) = some mac := by
  have hnot : ∀ part ∈ mac.elems.map hexByteLower, ':' ∉ part := by
    have hall : ∀ d : Fin 16, ':' ≠ Nat.digitChar d := by decide
    intro part hpart hmem
    obtain ⟨b, -, rfl⟩ := List.mem_map.mp hpart
    have hb := b.toNat_lt
    rcases List.mem_pair.mp hmem with h | h
    exacts [hall ⟨b.toNat / 16, by omega⟩ h, hall ⟨b.toNat % 16, by omega⟩ h]
  have hne : mac.elems.map hexByteLower ≠ [] :=
    List.ne_nil_of_length_pos (by rw [List.length_map, mac.length_eq]; decide)
  have hsplit : (lowerMac mac).splitOn ':' = mac.elems.map hexByteLower :=
    List.splitOn_intercalate _ hnot hne
  obtain ⟨elems, hlen⟩ := mac
  match elems, hlen with
  | [a, b, c, d, e, f], _ =>
    rw [parseMac, hsplit]
    simp only [List.map_cons, List.map_nil, u8FromHex_hexByteLower]
    rfl

/-- The device of a frame, with the data of the vendors. -/
def ArpFrame.device (map : Option OuiMap) (p : ArpFrame) : Device where
  protocol := "ARP".toList
  version := 0
  ip := .v4 p.senderIp
  mac := macText [':'] p.srcMac.elems
  deviceType := if isGarp p then "GARP".toList else "ARP".toList
  serial :=
    match Oui.lookup map ⟨p.srcMac.elems.toArray, p.srcMac.length_eq⟩ with
    | none => lowerMac p.srcMac
    | some vendor => lowerMac p.srcMac ++ " (".toList ++ vendor ++ [')']

/-- The serial number of a device starts with the hardware address. -/
theorem take_serial (map : Option OuiMap) (p : ArpFrame) :
    (p.device map).serial.take 17 = lowerMac p.srcMac := by
  have hlen : (lowerMac p.srcMac).length = 17 := by
    obtain ⟨elems, hlen⟩ := p.srcMac
    match elems, hlen with
    | [a, b, c, d, e, f], _ => rfl
  rw [ArpFrame.device]
  dsimp only
  split
  · exact List.take_of_length_le hlen.le
  · rw [List.append_assoc, List.append_assoc, List.take_left' hlen]

/-- A frame is reported as its device, unless it is of the own host. -/
theorem receive_of_carries (load : Res Empty (Option OuiMap)) (localIps : List Ipv4Addr)
    {frame : List UInt8} {p : ArpFrame} (h : Carries frame p) :
    receive load localIps frame =
      if p.senderIp ∈ localIps then .ok [] else do let map ← load; return [p.device map] := by
  simp only [receive, arpParse, h.parse_eq, Res.ok_bind, Res.pure_eq, filterLocal]
  by_cases hlocal : p.senderIp ∈ localIps
  · rw [if_pos hlocal, List.filter_cons_of_neg (by simpa using hlocal)]
    rfl
  · rw [if_neg hlocal, List.filter_cons_of_pos (by simpa using hlocal), List.filter_nil,
      List.mapM_cons, List.mapM_nil]
    simp only [annotate, if_pos, h.parse_eq, Res.ok_bind]
    cases load with
    | ok map =>
      rw [Res.ok_bind, Res.ok_bind, ArpFrame.device]
      cases Oui.lookup map ⟨p.srcMac.elems.toArray, p.srcMac.length_eq⟩ <;> rfl
    | err e => exact e.elim
    | panicked => rfl

/-- Anything else is not reported. -/
theorem receive_of_not (load : Res Empty (Option OuiMap)) (localIps : List Ipv4Addr)
    {frame : List UInt8} (h : ∀ p, ¬ Carries frame p) : receive load localIps frame = .ok [] := by
  rcases parse_cases frame with ⟨p, -, hp⟩ | ⟨hnone, -⟩
  · exact absurd hp (h p)
  · simp only [receive, arpParse, hnone, Res.ok_bind]
    rfl

/-! ## The tasks of the engine -/

/-- What a thread gets from its interface when it waits for a packet. -/
inductive Captured where
  /-- A packet. -/
  | packet (data : List UInt8)
  /-- Nothing in time. -/
  | timeout
  /-- An error, on which the thread ends. -/
  | error
  deriving DecidableEq, Repr

/-- The thread of an interface. -/
structure Thread where
  /-- It has not ended. -/
  alive : Bool
  /-- The frames that it is to send. It receives a frame to put it on the wire. -/
  inbox : Fifo (List UInt8)
  deriving DecidableEq, Repr

/-- The threads of the engine and its task. -/
structure EngineState where
  /-- The threads, by the names of their interfaces. -/
  threads : List Char → Option Thread
  /-- The captured frames. -/
  frames : Fifo (List UInt8)
  /-- The task has not panicked. -/
  listening : Bool
  /-- The devices that the task has reported. -/
  reported : List Device

/-- A step of the engine. -/
inductive EngineEvent where
  /-- A frame is given to the thread of an interface. -/
  | inject (name : List Char) (frame : List UInt8)
  /-- A turn of the loop of a thread: it ends if the token is cancelled, and otherwise sends what it
  is to send and waits for a packet. -/
  | turn (name : List Char) (cancelled : Bool) (captured : Captured)
  /-- The task takes a captured frame. -/
  | take
  deriving DecidableEq, Repr

namespace EngineRun

/-- The state of a started engine, with the names of its interfaces. -/
def start (names : List (List Char)) : EngineState where
  threads name := if name ∈ names then some ⟨true, .new⟩ else none
  frames := .new
  listening := true
  reported := []

/-- A turn of the loop of a thread: the thread, and the frames that it captures. -/
def turn (t : Thread) (cancelled : Bool) (captured : Captured) : Thread × List (List UInt8) :=
  if !t.alive then (t, [])
  else if cancelled then ({ t with alive := false }, [])
  else
    match captured with
    | .packet data => ({ t with inbox := t.inbox.recvAll }, if data = [] then [] else [data])
    | .timeout => ({ t with inbox := t.inbox.recvAll }, [])
    | .error => ({ alive := false, inbox := t.inbox.recvAll }, [])

/-- A step. `load` gives the data of the vendors. -/
def step (load : Res Empty (Option OuiMap)) (localIps : List Ipv4Addr) (s : EngineState) :
    EngineEvent → EngineState
  | .inject name frame =>
    match s.threads name with
    | none => s
    | some t =>
      if t.alive then
        { s with
          threads := Function.update s.threads name
            (some { t with inbox := t.inbox.send [frame] }) }
      else s
  | .turn name cancelled captured =>
    match s.threads name with
    | none => s
    | some t =>
      let (t', captures) := turn t cancelled captured
      { s with
        threads := Function.update s.threads name (some t')
        frames := s.frames.send captures }
  | .take =>
    if !s.listening then s
    else
      match s.frames.recv with
      | (none, _) => s
      | (some frame, frames) =>
        match receive load localIps frame with
        | .ok devs => { s with frames := frames, reported := s.reported ++ devs }
        | _ => { s with frames := frames, listening := false }

/-! ## Runs of the engine -/

/-- What an event does to the thread of an interface. -/
def stepThread (name : List Char) (e : EngineEvent) (t : Thread) : Thread :=
  match e with
  | .inject name' frame =>
    if name' = name ∧ t.alive = true then { t with inbox := t.inbox.send [frame] } else t
  | .turn name' cancelled captured => if name' = name then (turn t cancelled captured).1 else t
  | .take => t

/-- The frames that an event captures. -/
def captures (s : EngineState) : EngineEvent → List (List UInt8)
  | .turn name cancelled captured =>
    ((s.threads name).map fun t => (turn t cancelled captured).2).getD []
  | _ => []

/-- The frame that an event gives to the thread of an interface. -/
def injectedBy (name : List Char) : EngineEvent → List (List UInt8)
  | .inject name' frame => if name' = name then [frame] else []
  | _ => []

/-- The frames that a turn captures, unless the thread has ended before. -/
def packets (cancelled : Bool) (captured : Captured) : List (List UInt8) :=
  match cancelled, captured with
  | false, .packet data => if data = [] then [] else [data]
  | _, _ => []

/-- The frames that an event captures on some interfaces, unless a thread has ended. -/
def capturedBy (names : List (List Char)) : EngineEvent → List (List UInt8)
  | .turn name cancelled captured => if name ∈ names then packets cancelled captured else []
  | _ => []

/-- What is reported of a frame; if the task panics, nothing. -/
def reports (load : Res Empty (Option OuiMap)) (localIps : List Ipv4Addr) (frame : List UInt8) :
    List Device :=
  match receive load localIps frame with
  | .ok devs => devs
  | _ => []

section Steps

variable (load : Res Empty (Option OuiMap)) (localIps : List Ipv4Addr)

/-- What a step of the task leaves alone, and what it does to the channel and the reports. -/
theorem step_take (s : EngineState) :
    (step load localIps s .take).threads = s.threads ∧
      (step load localIps s .take).frames.sent = s.frames.sent ∧
      ((step load localIps s .take).frames.received = s.frames.received ∧
          (step load localIps s .take).reported = s.reported ∨
        ∃ frame, (step load localIps s .take).frames.received = s.frames.received ++ [frame] ∧
          (step load localIps s .take).reported =
            s.reported ++ reports load localIps frame) := by
  rw [step]
  split_ifs
  · exact ⟨rfl, rfl, .inl ⟨rfl, rfl⟩⟩
  · rcases s.frames.recv_cases with ⟨hrecv, -⟩ | ⟨frame, frames, hrecv, hreceived, hsent⟩
    · rw [hrecv]
      exact ⟨rfl, rfl, .inl ⟨rfl, rfl⟩⟩
    · cases hreceive : receive load localIps frame with
      | ok devs =>
        simp only [hrecv, hreceive]
        exact ⟨trivial, hsent, .inr ⟨frame, hreceived, by rw [reports, hreceive]⟩⟩
      | err e => exact e.elim
      | panicked =>
        simp only [hrecv, hreceive]
        exact ⟨trivial, hsent,
          .inr ⟨frame, hreceived, by rw [reports, hreceive, List.append_nil]⟩⟩

/-- A step changes each thread by what the event does to it. -/
theorem threads_step (s : EngineState) (e : EngineEvent) (name : List Char) :
    (step load localIps s e).threads name = (s.threads name).map (stepThread name e) := by
  cases e with
  | inject name' frame =>
    simp only [step]
    by_cases hname : name' = name
    · subst hname
      cases hthread : s.threads name' with
      | none => simp [hthread]
      | some t =>
        by_cases halive : t.alive = true
        · simp [stepThread, halive]
        · simp [stepThread, halive, hthread]
    · -- Another thread gets the frame.
      have hid : stepThread name (.inject name' frame) = id :=
        funext fun t => if_neg fun h => hname h.1
      rw [hid, Option.map_id, id]
      cases s.threads name' with
      | none => rfl
      | some t =>
        dsimp only
        split_ifs
        · exact Function.update_of_ne (Ne.symm hname) _ _
        · rfl
  | turn name' cancelled captured =>
    simp only [step]
    by_cases hname : name' = name
    · subst hname
      cases hthread : s.threads name' with
      | none => simp [hthread]
      | some t => simp [stepThread]
    · -- It is the turn of another thread.
      have hid : stepThread name (.turn name' cancelled captured) = id :=
        funext fun t => if_neg hname
      rw [hid, Option.map_id, id]
      cases s.threads name' with
      | none => rfl
      | some t => exact Function.update_of_ne (Ne.symm hname) _ _
  | take =>
    have hid : stepThread name EngineEvent.take = id := rfl
    rw [(step_take load localIps s).1, hid, Option.map_id, id]

/-- A step sends the frames that it captures to the task. -/
theorem sent_frames_step (s : EngineState) (e : EngineEvent) :
    (step load localIps s e).frames.sent = s.frames.sent ++ captures s e := by
  cases e with
  | inject name frame =>
    simp only [step, captures, List.append_nil]
    cases s.threads name with
    | none => rfl
    | some t => dsimp only; split_ifs <;> rfl
  | turn name cancelled captured =>
    simp only [step, captures]
    cases s.threads name with
    | none => exact (List.append_nil _).symm
    | some t => exact Fifo.sent_send _ _
  | take => rw [(step_take load localIps s).2.1, captures, List.append_nil]; simp

/-- The task has reported what it has received. -/
theorem reported_step {s : EngineState} (e : EngineEvent)
    (h : s.reported = s.frames.received.flatMap (reports load localIps)) :
    (step load localIps s e).reported =
      (step load localIps s e).frames.received.flatMap (reports load localIps) := by
  cases e with
  | inject name frame =>
    simp only [step]
    cases s.threads name with
    | none => exact h
    | some t => dsimp only; split_ifs <;> exact h
  | turn name cancelled captured =>
    simp only [step]
    cases s.threads name with
    | none => exact h
    | some t => exact h
  | take =>
    obtain ⟨-, -, ⟨hreceived, hreported⟩ | ⟨frame, hreceived, hreported⟩⟩ :=
      step_take load localIps s
    · rw [hreceived, hreported, h]
    · rw [hreceived, hreported, h, List.flatMap_append, List.flatMap_singleton]

end Steps

/-- A turn does not change what was sent to a thread. Only a thread that has not ended makes one,
and it captures the packet if it is not empty. -/
theorem turn_spec (t : Thread) (cancelled : Bool) (captured : Captured) :
    (turn t cancelled captured).1.inbox.sent = t.inbox.sent ∧
      ((turn t cancelled captured).1.alive = true → t.alive = true) ∧
      (turn t cancelled captured).2 = if t.alive then packets cancelled captured else [] := by
  obtain ⟨alive, inbox⟩ := t
  cases alive
  · exact ⟨rfl, id, rfl⟩
  · cases cancelled
    · cases captured <;> exact ⟨Fifo.sent_recvAll inbox, fun _ => rfl, rfl⟩
    · exact ⟨rfl, fun _ => rfl, rfl⟩

/-- An event sends a frame to its thread, if that has not ended. -/
theorem stepThread_spec (name : List Char) (e : EngineEvent) (t : Thread) :
    ((stepThread name e t).inbox.sent =
        t.inbox.sent ++ if t.alive then injectedBy name e else []) ∧
      ((stepThread name e t).alive = true → t.alive = true) := by
  cases e with
  | inject name' frame =>
    simp only [stepThread, injectedBy]
    split_ifs <;> simp_all
  | turn name' cancelled captured =>
    obtain ⟨hsent, halive, -⟩ := turn_spec t cancelled captured
    simp only [stepThread, injectedBy, ite_self, List.append_nil]
    split_ifs
    · exact ⟨hsent, halive⟩
    · exact ⟨rfl, id⟩
  | take => simp [stepThread, injectedBy]

/-- What is reported of a frame is about another host. -/
theorem notMem_of_mem_reports {load : Res Empty (Option OuiMap)} {localIps : List Ipv4Addr}
    {frame : List UInt8} {d : Device} (hd : d ∈ reports load localIps frame) {ip : Ipv4Addr}
    (hip : d.ip = .v4 ip) : ip ∉ localIps := by
  rw [reports] at hd
  by_cases hcarries : ∃ p, Carries frame p
  · obtain ⟨p, hp⟩ := hcarries
    rw [receive_of_carries load localIps hp] at hd
    by_cases hlocal : p.senderIp ∈ localIps
    · rw [if_pos hlocal] at hd
      cases hd
    · rw [if_neg hlocal] at hd
      cases load with
      | ok map =>
        rw [List.mem_singleton.mp hd] at hip
        cases hip
        exact hlocal
      | err e => exact e.elim
      | panicked => cases hd
  · rw [receive_of_not load localIps (not_exists.mp hcarries)] at hd
    cases hd

/-- No thread has ended. -/
def AllAlive (s : EngineState) : Prop := ∀ name t, s.threads name = some t → t.alive = true

/-- An event captures frames on its interface, and all of them if no thread has ended. -/
theorem captures_spec {names : List (List Char)} {s : EngineState}
    (hnames : ∀ name, (s.threads name).isSome ↔ name ∈ names) (e : EngineEvent) :
    (captures s e).Sublist (capturedBy names e) ∧
      (AllAlive s → captures s e = capturedBy names e) := by
  cases e with
  | inject name frame => exact ⟨.slnil, fun _ => rfl⟩
  | take => exact ⟨.slnil, fun _ => rfl⟩
  | turn name cancelled captured =>
    rw [captures, capturedBy]
    cases hthread : s.threads name with
    | none =>
      have hname : name ∉ names := by
        rw [← hnames, hthread]
        exact Bool.false_ne_true
      rw [if_neg hname]
      exact ⟨.slnil, fun _ => rfl⟩
    | some t =>
      have hname : name ∈ names := by
        rw [← hnames, hthread]
        rfl
      rw [if_pos hname, Option.map_some, Option.getD_some, (turn_spec t cancelled captured).2.2]
      constructor
      · split_ifs
        · exact List.Sublist.refl _
        · exact List.nil_sublist _
      · exact fun halive => if_pos (halive name t hthread)

/-- What relates the events so far to the state. -/
structure Inv (names : List (List Char)) (es : List EngineEvent) (s : EngineState) : Prop where
  /-- The interfaces have threads. -/
  isSome_threads : ∀ name, (s.threads name).isSome ↔ name ∈ names
  /-- A thread gets the first ones of the frames that it is given, and all of them while it has not
  ended. -/
  inbox : ∀ name t, s.threads name = some t → t.inbox.sent <+: es.flatMap (injectedBy name) ∧
    (t.alive = true → t.inbox.sent = es.flatMap (injectedBy name))
  /-- The task gets captured frames, in order. -/
  frames : s.frames.sent.Sublist (es.flatMap (capturedBy names))
  /-- It gets all of them while no thread has ended. -/
  frames_eq : AllAlive s → s.frames.sent = es.flatMap (capturedBy names)

section Run

variable {load : Res Empty (Option OuiMap)} {localIps : List Ipv4Addr} {names : List (List Char)}

/-- An event of the engine keeps the relation. -/
theorem Inv.step {es : List EngineEvent} {s : EngineState} (h : Inv names es s) (e : EngineEvent) :
    Inv names (es ++ [e]) (step load localIps s e) := by
  have hthread {name : List Char} {t' : Thread}
      (ht' : (EngineRun.step load localIps s e).threads name = some t') :
      ∃ t, s.threads name = some t ∧ stepThread name e t = t' := by
    rwa [threads_step, Option.map_eq_some_iff] at ht'
  have hbefore (halive : AllAlive (EngineRun.step load localIps s e)) : AllAlive s := by
    intro name t ht
    refine (stepThread_spec name e t).2 (halive name _ ?_)
    rw [threads_step, ht, Option.map_some]
  obtain ⟨hsublist, heq⟩ := captures_spec h.isSome_threads e
  constructor
  · intro name
    rw [threads_step, Option.isSome_map]
    exact h.isSome_threads name
  · intro name t' ht'
    obtain ⟨t, ht, rfl⟩ := hthread ht'
    obtain ⟨hreceived, hall⟩ := h.inbox name t ht
    obtain ⟨hsent, halive⟩ := stepThread_spec name e t
    rw [hsent, List.flatMap_append, List.flatMap_singleton]
    -- A thread that has ended takes no more frames, and never runs again.
    by_cases hlive : t.alive = true
    · rw [if_pos hlive, hall hlive]
      exact ⟨List.prefix_rfl, fun _ => rfl⟩
    · rw [if_neg hlive, List.append_nil]
      exact ⟨hreceived.trans (List.prefix_append _ _), fun h => absurd (halive h) hlive⟩
  · rw [sent_frames_step, List.flatMap_append, List.flatMap_singleton]
    exact h.frames.append hsublist
  · intro halive
    rw [sent_frames_step, List.flatMap_append, List.flatMap_singleton,
      h.frames_eq (hbefore halive), heq (hbefore halive)]

/-- Nothing has happened at the start. -/
theorem inv_start (names : List (List Char)) : Inv names [] (start names) := by
  refine ⟨fun name => ?_, fun name t ht => ?_, .slnil, fun _ => rfl⟩
  · simp only [start]
    split_ifs with hname <;> simp [hname]
  · simp only [start] at ht
    split_ifs at ht
    cases ht
    exact ⟨List.prefix_rfl, fun _ => rfl⟩

end Run

end EngineRun

/-! ## Sweeps and their answers -/

/-- The addresses of the own host, as `listen` collects them. -/
def localIps (answer : Option (List Entry)) : List Ipv4Addr :=
  (activeInterfaces answer).flatMap Iface.ipv4Addrs

/-- The device of a frame that asks a question is the host that asks. -/
theorem receive_of_asks {q : Question} {sent : List Char × Buffer UInt8 frameLen} (h : Asks sent q)
    (load : Res Empty (Option OuiMap)) (ips : List Ipv4Addr) :
    receive load ips sent.2.elems =
      if q.sender ∈ ips then .ok []
      else do
        let map ← load
        return [ArpFrame.device map ⟨opRequest, q.mac, q.sender, Buffer.filled 6 0, q.target⟩] := by
  obtain ⟨-, -, hread⟩ := h
  exact receive_of_carries load ips (parse_eq_some_iff.mp hread)

end Arp

end Uscan
