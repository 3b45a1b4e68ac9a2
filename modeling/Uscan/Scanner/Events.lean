import Uscan.Scanner

/-!
# The ports of a start

What a start does with ports, in the order of the code: the searches of a free port, each with the
state of the provider before it and its result; the sockets on fixed ports that an engine comes to;
and the attempts to open a socket. `Engine.events` and `brokerEvents` list them as `Engine.script`
and `brokerScript` list the attempts, and the listening part of a start makes the attempts among its
events (`listenStart_follows_events`).

What holds of every event of a start is proved for a search, an attempt and a fixed port, with an
invariant of the provider (`keeps_listenEvents`).
-/

namespace Uscan

open Attempts

/-! ## The events of a start -/

/-- What a start does with ports. -/
inductive PortEvent where
  /-- A search of a free port for a job, in a state of the provider, and its result. -/
  | search (job : Job) (before : PortProvider) (found : Option UInt16)
  /-- An engine comes to its global or multicast socket on a fixed port. -/
  | fixed (e : Engine) (port : UInt16)
  /-- An attempt to open a socket. -/
  | attempt (a : Attempt)
  deriving DecidableEq

/-- The attempt of an event. -/
def PortEvent.attempt? : PortEvent → Option Attempt
  | .attempt a => some a
  | _ => none

section

variable (os : Os) (config : Config) (nics : List Ipv4Addr)

/-- A search, and what follows a port. -/
def freeEvents (job : Job) (p : UInt16 → Script Listening PortEvent) : Script Listening PortEvent :=
  Script.after (fun l => ((l.ports, (findPort os job l).1), (findPort os job l).2)) fun call =>
    Script.seq (Script.one (.search job call.1 call.2))
      (match call.2 with
      | none => Script.nil
      | some port => p port)

/-- The events of the sockets of the interfaces. -/
def ifaceEvents (owner : Option Engine) : Script Listening PortEvent :=
  Script.each (fun nic : Ipv4Addr × ℕ => freeEvents os ⟨owner, .iface nic.1 nic.2⟩ fun port =>
    Script.one (.attempt ⟨⟨owner, .iface nic.1 nic.2⟩, port⟩)) nics.zipIdx

/-- The events of a part of `listen`. -/
def Opening.events (e : Engine) : Opening → Script Listening PortEvent
  | .global port =>
    Script.seq (Script.one (.fixed e port)) (Script.lift .attempt (globalScript os config e port))
  | .globalFree =>
    freeEvents os ⟨some e, .global⟩ fun port => Script.lift .attempt (globalScript os config e port)
  | .multicast group port =>
    Script.seq (Script.one (.fixed e port))
      (Script.one (.attempt ⟨⟨some e, .multicast group⟩, port⟩))
  | .interfaces => ifaceEvents os nics (some e)

/-- The events of an engine. -/
def Engine.events (e : Engine) : Script Listening PortEvent :=
  if e = .arp then Script.lift .attempt (e.script os config nics)
  else Script.each (Opening.events os config nics e) e.openings

/-- The events of the broker. -/
def brokerEvents : Script Listening PortEvent :=
  Script.seq (Script.one (.attempt ⟨⟨none, .multicast ⟨224, 0, 0, 251⟩⟩, 5353⟩))
    (ifaceEvents os nics none)

/-- An engine that listens has a context. -/
def enterCtx (e : Engine) : Script Listening PortEvent :=
  Script.after (fun l : Listening => ((), { l with ctxs := l.ctxs ++ [e] })) fun _ => Script.nil

/-- The events of an engine in the loop of `start`. -/
def entryEvents (entry : UInt16 × Engine) : Script Listening PortEvent :=
  Script.seq (entry.2.events os config nics) (enterCtx entry.2)

/-- The events of the broker, if an engine needs it. -/
def brokerPart (entries : List (UInt16 × Engine)) : Script Listening PortEvent :=
  if entries.any fun entry => entry.2.consumesMdns then brokerEvents os nics else Script.nil

/-- The events of the part of `start` that listens. -/
def listenEvents (entries : List (UInt16 × Engine)) : Script Listening PortEvent :=
  Script.seq (brokerPart os nics entries) (Script.each (entryEvents os config nics) entries)

end

/-- The events of a start, were no attempt fatal. -/
def Scanner.allEvents (s : Scanner) (os : Os) (ifaces : List Iface) : List PortEvent :=
  (listenEvents os s.config (nicIps ifaces) s.selection.entries (s.listenFrom os).state).1

/-- The events of a start: up to the first fatal attempt. -/
def Scanner.events (s : Scanner) (os : Os) (ifaces : List Iface) : List PortEvent :=
  if ifaces = [] then []
  else performed (fun ev => ev.attempt?.any os.fatal) (s.allEvents os ifaces)

/-- The events of a start are some of those. -/
theorem Scanner.events_sublist (s : Scanner) (os : Os) (ifaces : List Iface) :
    (s.events os ifaces).Sublist (s.allEvents os ifaces) := by
  rw [events]
  split_ifs
  · exact List.nil_sublist _
  · exact List.takeWhile_sublist _

/-- An engine searches a free port when it listens. -/
def Engine.Searches (nics : List Ipv4Addr) (e : Engine) : Prop :=
  .globalFree ∈ e.openings ∨ (.interfaces ∈ e.openings ∧ nics ≠ [])

/-- The port of a part of `listen` on a fixed port. -/
def Opening.fixedPort : Opening → Option UInt16
  | .global port => some port
  | .multicast _ port => some port
  | _ => none

/-! ## The attempts among the events -/

section

variable {os : Os} {config : Config} {nics : List Ipv4Addr}

/-- The attempts of a script of attempts. -/
theorem erase_attempts (p : Script Listening Attempt) :
    (p.lift PortEvent.attempt).erase PortEvent.attempt? = p :=
  Script.erase_lift (f := PortEvent.attempt?) (g := PortEvent.attempt) (fun _ => rfl) p

/-- The attempts of a search and what follows it. -/
theorem erase_freeEvents (job : Job) (p : UInt16 → Script Listening PortEvent) :
    (freeEvents os job p).erase PortEvent.attempt? =
      freeScript os job fun port => (p port).erase PortEvent.attempt? := by
  funext l
  simp only [freeEvents, freeScript, Script.after, Script.erase, Script.seq, Script.one]
  cases (findPort os job l).1 <;> rfl

/-- The attempts on the sockets of the interfaces. -/
theorem erase_ifaceEvents (owner : Option Engine) :
    (ifaceEvents os nics owner).erase PortEvent.attempt? = ifaceScript os nics owner := by
  rw [ifaceEvents, Script.erase_each, ifaceScript]
  simp only [erase_freeEvents]
  rfl

/-- The attempts of a part of `listen`. -/
theorem Opening.erase_events (e : Engine) (o : Opening) :
    (o.events os config nics e).erase PortEvent.attempt? = o.script os config nics e := by
  cases o with
  | global port => exact (Script.erase_one_seq rfl _).trans (erase_attempts _)
  | globalFree =>
    rw [events, erase_freeEvents, script]
    simp only [erase_attempts]
  | multicast group port => exact Script.erase_one_seq rfl _
  | interfaces => exact erase_ifaceEvents (some e)

/-- The attempts of an engine. -/
theorem Engine.erase_events (e : Engine) :
    (e.events os config nics).erase PortEvent.attempt? = e.script os config nics := by
  rw [events]
  split_ifs with harp
  · exact erase_attempts _
  · rw [Script.erase_each, script, if_neg harp]
    simp only [Opening.erase_events]

/-- The attempts of the part of `start` that listens. -/
theorem erase_listenEvents (entries : List (UInt16 × Engine)) :
    (listenEvents os config nics entries).erase PortEvent.attempt? =
      Scanner.listenScript os config nics entries := by
  have hbroker : (brokerPart os nics entries).erase PortEvent.attempt? =
      if entries.any fun entry => entry.2.consumesMdns then brokerScript os nics
      else Script.nil := by
    rw [brokerPart]
    split_ifs
    · rw [brokerEvents, Script.erase_seq, erase_ifaceEvents]
      rfl
    · rfl
  have hentry (entry : UInt16 × Engine) :
      (entryEvents os config nics entry).erase PortEvent.attempt? =
        Script.seq (entry.2.script os config nics)
          (Script.after (fun l : Listening => ((), { l with ctxs := l.ctxs ++ [entry.2] }))
            fun _ => Script.nil) := by
    rw [entryEvents, Script.erase_seq, Engine.erase_events]
    rfl
  rw [listenEvents, Script.erase_seq, hbroker, Script.erase_each, Scanner.listenScript]
  simp only [hentry]

/-- The listening part of a start makes the attempts among its events. -/
theorem listenStart_follows_events (os : Os) (config : Config) (nics : List Ipv4Addr)
    (entries : List (UInt16 × Engine)) :
    Follows (fun ev : PortEvent => ev.attempt?.any os.fatal)
      (fun ev => ev.attempt?.elim [] os.opened) (listenStart os config nics entries)
      (listenEvents os config nics entries) := by
  apply Follows.of_erase
  rw [erase_listenEvents]
  exact Scanner.listenStart_follows os config nics entries

end

/-! ## Rules for events -/

section

variable {os : Os} {config : Config} {nics : List Ipv4Addr} {I : PortProvider → Prop}
  {P : PortEvent → Prop}

/-- A search in a provider with `I` is an event with `P`, and leaves a provider with `I`. -/
def SearchKeeps (os : Os) (I : PortProvider → Prop) (P : PortEvent → Prop) : Prop :=
  ∀ job ports, I ports → P (.search job ports (ports.freePort (os.trial job)).1) ∧
    I (ports.freePort (os.trial job)).2

/-- A search and what follows it. -/
theorem keeps_freeEvents {job : Job} {p : UInt16 → Script Listening PortEvent}
    (hsearch : SearchKeeps os I P)
    (hp : ∀ port, Script.Keeps (fun l => I l.ports) P (p port)) :
    Script.Keeps (fun l => I l.ports) P (freeEvents os job p) := by
  intro l hl
  obtain ⟨hevent, hafter⟩ := hsearch job l.ports hl
  have hone := Script.keeps_one (σ := Listening) (I := fun l => I l.ports) hevent
  refine hone.seq ?_ (findPort os job l).2 hafter
  change Script.Keeps _ P (match (findPort os job l).1 with
    | none => Script.nil
    | some port => p port)
  cases (findPort os job l).1 with
  | none => exact Script.keeps_nil
  | some port => exact hp port

/-- The sockets of the interfaces, if there are any. -/
theorem keeps_ifaceEvents {owner : Option Engine}
    (hsearch : nics ≠ [] → SearchKeeps os I P)
    (hattempt : ∀ a, P (.attempt a)) :
    Script.Keeps (fun l => I l.ports) P (ifaceEvents os nics owner) := by
  apply Script.Keeps.each
  intro nic hnic
  have hnics : nics ≠ [] := by
    rintro rfl
    exact absurd hnic List.not_mem_nil
  exact keeps_freeEvents (hsearch hnics) fun _ => Script.keeps_one (hattempt _)

/-- The attempt on a global socket. -/
theorem keeps_globalScript {e : Engine} {port : UInt16} (hattempt : ∀ a, P (.attempt a)) :
    Script.Keeps (fun l => I l.ports) P
      ((globalScript os config e port).lift PortEvent.attempt) := by
  rw [globalScript]
  split_ifs
  · exact Script.keeps_nil
  · exact Script.keeps_one (hattempt _)

/-- An engine. -/
theorem Engine.keeps_events {e : Engine}
    (hsearch : e.Searches nics → SearchKeeps os I P)
    (hattempt : ∀ a, P (.attempt a))
    (hfixed : ∀ o ∈ e.openings, ∀ port ∈ o.fixedPort, P (.fixed e port)) :
    Script.Keeps (fun l => I l.ports) P (e.events os config nics) := by
  rw [events]
  split_ifs with harp
  · rw [script, if_pos harp]
    split_ifs
    · exact Script.keeps_one (hattempt _)
    · exact Script.keeps_nil
  · apply Script.Keeps.each
    intro o ho
    cases o with
    | global port =>
      exact (Script.keeps_one (hfixed _ ho port rfl)).seq (keeps_globalScript hattempt)
    | globalFree =>
      exact keeps_freeEvents (hsearch (.inl ho)) fun _ => keeps_globalScript hattempt
    | multicast group port =>
      exact (Script.keeps_one (hfixed _ ho port rfl)).seq (Script.keeps_one (hattempt _))
    | interfaces => exact keeps_ifaceEvents (fun hnics => hsearch (.inr ⟨ho, hnics⟩)) hattempt

/-- A context is no event. -/
theorem keeps_enterCtx (e : Engine) : Script.Keeps (fun l => I l.ports) P (enterCtx e) :=
  fun _ hl => ⟨fun _ ha => absurd ha List.not_mem_nil, hl⟩

/-- The engines, one after the other. -/
theorem keeps_entryEvents {entries : List (UInt16 × Engine)}
    (hsearch : ∀ entry ∈ entries, entry.2.Searches nics → SearchKeeps os I P)
    (hattempt : ∀ a, P (.attempt a))
    (hfixed : ∀ entry ∈ entries, ∀ o ∈ entry.2.openings, ∀ port ∈ o.fixedPort,
      P (.fixed entry.2 port)) :
    Script.Keeps (fun l => I l.ports) P (Script.each (entryEvents os config nics) entries) := by
  apply Script.Keeps.each
  intro entry hentry
  apply Script.Keeps.seq
  · exact Engine.keeps_events (hsearch entry hentry) hattempt (hfixed entry hentry)
  · exact keeps_enterCtx entry.2

/-- The broker, if an engine needs it. -/
theorem keeps_brokerPart {entries : List (UInt16 × Engine)}
    (hsearch : (nics ≠ [] ∧ ∃ entry ∈ entries, entry.2.consumesMdns) → SearchKeeps os I P)
    (hattempt : ∀ a, P (.attempt a)) :
    Script.Keeps (fun l => I l.ports) P (brokerPart os nics entries) := by
  rw [brokerPart]
  split_ifs with hany
  · refine (Script.keeps_one (hattempt _)).seq (keeps_ifaceEvents (fun hnics => ?_) hattempt)
    exact hsearch ⟨hnics, List.any_eq_true.mp hany⟩
  · exact Script.keeps_nil

/-- The part of `start` that listens. -/
theorem keeps_listenEvents {entries : List (UInt16 × Engine)}
    (hsearch : SearchKeeps os I P)
    (hattempt : ∀ a, P (.attempt a))
    (hfixed : ∀ entry ∈ entries, ∀ o ∈ entry.2.openings, ∀ port ∈ o.fixedPort,
      P (.fixed entry.2 port)) :
    Script.Keeps (fun l => I l.ports) P (listenEvents os config nics entries) :=
  (keeps_brokerPart (fun _ => hsearch) hattempt).seq
    (keeps_entryEvents (fun _ _ _ => hsearch) hattempt hfixed)

end

end Uscan
