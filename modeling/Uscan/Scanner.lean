import Uscan.Lib.Runs
import Uscan.Net.Iface
import Uscan.Net.Sockets
import Uscan.Protocols.Common

/-!
# The scanner

`scanner.rs`: a `Scanner` selects engines, and is started, asked to scan, and stopped, any number of
times. A start spawns the receive tasks of the broker and of the engines, a scan may spawn sweeps,
and a stop cancels the token of the last start and joins the tasks whose handles it finds. The
fields `spawned` and `joined` record what has been spawned and joined at any time; the program has
no such fields.

`Scanner.start_cases` says what a start does, from the attempts that it makes (`Scanner.attempts`).
It fails at the first fatal attempt, so that a port that is in use fails the scan
(`start_isOk_iff`). And it then drops the handles of the tasks that it has spawned, so that no stop
joins them; the invariant `Scanner.Inv` holds as long as this does not happen
(`stopped_all_joined`).
-/

namespace Uscan

open Attempts

/-! ## The selection of engines -/

/-- The names of the registry, in lower case. -/
def knownNames : List (List Char) := registry.map fun x => x.2.name.map toAsciiLowercase

/-- `select_entries`. The filter has names in lower case. -/
def selectEntries (filter : Option (List (List Char))) : Except Error (List (UInt16 × Engine)) :=
  match filter with
  | none => .ok registry
  | some wanted =>
    match wanted.find? fun w => !knownNames.contains w with
    | some w =>
      .error (.config (String.ofList ("unknown protocol: ".toList ++ w ++ "; available: ".toList ++
        ", ".toList.intercalate knownNames)))
    | none => .ok (registry.filter fun x => wanted.contains (x.2.name.map toAsciiLowercase))

/-- A filter, and the engines that it selects. -/
structure Selection where
  /-- The filter. -/
  filter : Option (List (List Char))
  /-- The engines. -/
  entries : List (UInt16 × Engine)
  /-- The filter selects these engines. -/
  select_eq : selectEntries filter = .ok entries

/-- The names that are given to `Scanner::new`. -/
def Selection.new (protocols : Option (List (List Char))) : Except Error Selection :=
  match h : selectEntries (protocols.map fun names => names.map (·.map toAsciiLowercase)) with
  | .ok entries => .ok ⟨_, entries, h⟩
  | .error e => .error e

/-! ## The scanner -/

/-- What a task does. -/
inductive Work where
  /-- A receive task. -/
  | receive (job : Job)
  /-- A sweep of an engine. -/
  | sweep (e : Engine)
  deriving DecidableEq, Repr

/-- A task. -/
structure Task where
  /-- Its number: tasks are numbered as they are spawned. -/
  id : ℕ
  /-- The number of the cancellation token that it ends on. -/
  token : ℕ
  /-- What it does. -/
  work : Work
  deriving DecidableEq, Repr

/-- `EngineContext`, of which a stop reads the handles of the sweeps. -/
structure Ctx where
  /-- The engine. -/
  engine : Engine
  /-- The number of the cancellation token. -/
  token : ℕ
  /-- The handles of the sweeps. -/
  sweeps : List Task
  deriving DecidableEq, Repr

/-- `Scanner`. -/
structure Scanner where
  /-- The configuration. -/
  config : Config
  /-- The engines. -/
  selection : Selection
  /-- The number of the cancellation token. -/
  token : ℕ
  /-- The contexts of the engines. -/
  ctxs : List Ctx
  /-- The handles of the receive tasks. -/
  handles : List Task
  /-- The tokens that are cancelled. -/
  cancelled : List ℕ
  /-- The tasks that have been spawned. -/
  spawned : List Task
  /-- The tasks whose end has been awaited. -/
  joined : List Task
  /-- No start since the last stop. -/
  stopped : Bool

/-- The tasks for some work, numbered from `n` on. -/
def numberTasks (token : ℕ) : ℕ → List Work → List Task
  | _, [] => []
  | n, w :: ws => ⟨n, token, w⟩ :: numberTasks token (n + 1) ws

/-- The sweeps that `scan` of an engine spawns. -/
def Engine.sweeps (config : Config) (e : Engine) : List Work :=
  if e = .arecont ∨ (e = .dahua2 ∧ config.dahuaNetScan = true) then [.sweep e] else []

/-- The engines that take their answers from the broker. -/
def Engine.consumesMdns (e : Engine) : Bool :=
  e.name == "Axis".toList || e.name == "Google".toList || e.name == "Arecont".toList

/-- The loop of `start` over the engines: an engine has a context once it listens. -/
def listenAll (os : Os) (config : Config) (nics : List Ipv4Addr) :
    List (UInt16 × Engine) → ListenM Unit :=
  Prog.each fun entry => do
    entry.2.listen os config nics
    Prog.onState fun l => ((), { l with ctxs := l.ctxs ++ [entry.2] })

/-- The part of `start` that starts the broker, if an engine needs it. -/
def listenBroker (os : Os) (nics : List Ipv4Addr) (entries : List (UInt16 × Engine)) :
    ListenM Unit :=
  if entries.any fun entry => entry.2.consumesMdns then brokerListen os nics else pure ()

/-- The part of `start` that listens. -/
def listenStart (os : Os) (config : Config) (nics : List Ipv4Addr)
    (entries : List (UInt16 × Engine)) : ListenM Unit := do
  listenBroker os nics entries
  listenAll os config nics entries

namespace Scanner

/-- `Scanner::new`. -/
def new (config : Config) (selection : Selection) : Scanner where
  config := config
  selection := selection
  token := 0
  ctxs := []
  handles := []
  cancelled := []
  spawned := []
  joined := []
  stopped := true

/-- The addresses of the interfaces. -/
def nicIps (ifaces : List Iface) : List Ipv4Addr := ifaces.flatMap Iface.ipv4Addrs

/-- The state that a start listens in: a new provider, the fixed ports of the engines reserved. -/
def listenFrom (s : Scanner) (os : Os) : Logged Listening Job :=
  ⟨⟨s.selection.entries.foldl (fun ports entry => ports.reserve entry.2.usedPorts) os.ports, []⟩,
    []⟩

/-- `Scanner::start`. The handles are stored only at its end. -/
def start (s : Scanner) (os : Os) (ifaces : List Iface) : Scanner × Except Error Unit :=
  if ifaces = [] then ({ s with stopped := false }, .error .noInterface)
  else
    let (result, l) :=
      listenStart os s.config (nicIps ifaces) s.selection.entries (s.listenFrom os)
    let tasks := numberTasks (s.token + 1) s.spawned.length (l.log.map .receive)
    let s' := { s with
      token := s.token + 1
      ctxs := l.state.ctxs.map fun e => ⟨e, s.token + 1, []⟩
      spawned := s.spawned ++ tasks
      stopped := false }
    match result with
    | .ok () => ({ s' with handles := tasks }, .ok ())
    -- The vector of the handles is dropped, which detaches the tasks.
    | .error e => (s', .error e)

/-- The loop of `scan` over the contexts: the contexts with the handles of their new sweeps, and
these sweeps, numbered from `n` on. -/
def scanCtxs (config : Config) : ℕ → List Ctx → List Ctx × List Task
  | _, [] => ([], [])
  | n, c :: cs =>
    let sweeps := numberTasks c.token n (c.engine.sweeps config)
    let (cs, tasks) := scanCtxs config (n + sweeps.length) cs
    ({ c with sweeps := c.sweeps ++ sweeps } :: cs, sweeps ++ tasks)

/-- `Scanner::scan`. No `scan` of an engine fails: the domains that it asks the broker for are
constants. -/
def scan (s : Scanner) : Scanner :=
  let (ctxs, sweeps) := scanCtxs s.config s.spawned.length s.ctxs
  { s with
    ctxs := ctxs
    spawned := s.spawned ++ sweeps }

/-- `Scanner::stop`. -/
def stop (s : Scanner) : Scanner :=
  { s with
    ctxs := s.ctxs.map fun c => { c with sweeps := [] }
    handles := []
    cancelled := s.token :: s.cancelled
    joined := s.joined ++ s.handles ++ s.ctxs.flatMap Ctx.sweeps
    stopped := true }

/-! ## What a start does -/

/-- The attempts of the loop of `start`. -/
def listenScript (os : Os) (config : Config) (nics : List Ipv4Addr)
    (entries : List (UInt16 × Engine)) : Script Listening Attempt :=
  Script.seq
    (if entries.any fun entry => entry.2.consumesMdns then brokerScript os nics else Script.nil)
    (Script.each (fun entry => Script.seq (entry.2.script os config nics)
      (Script.after (fun l : Listening => ((), { l with ctxs := l.ctxs ++ [entry.2] }))
        fun _ => Script.nil)) entries)

/-- The sockets that a start attempts to open, in order, were none of them fatal: where the search
of a free port finds none, there is no attempt. -/
def attempts (s : Scanner) (os : Os) (ifaces : List Iface) : List Attempt :=
  (listenScript os s.config (nicIps ifaces) s.selection.entries (s.listenFrom os).state).1

/-- The jobs that a start spawns: of the attempts up to the first fatal one. -/
def startJobs (s : Scanner) (os : Os) (ifaces : List Iface) : List Job :=
  (performed os.fatal (s.attempts os ifaces)).flatMap os.opened

/-- The tasks that a start spawns. -/
def startTasks (s : Scanner) (os : Os) (ifaces : List Iface) : List Task :=
  numberTasks (s.token + 1) s.spawned.length ((s.startJobs os ifaces).map .receive)

/-- The listening part of a start makes its attempts. -/
theorem listenStart_follows (os : Os) (config : Config) (nics : List Ipv4Addr)
    (entries : List (UInt16 × Engine)) :
    Follows os.fatal os.opened (listenStart os config nics entries)
      (listenScript os config nics entries) := by
  apply Follows.seq
  · unfold listenBroker
    split_ifs
    · exact brokerListen_follows
    · exact follows_pure
  · apply Follows.each
    exact fun entry => (entry.2.listen_follows).seq follows_onState

/-- What a start does: without an interface nothing, and otherwise it spawns its tasks, and stores
their handles if no attempt is fatal. -/
theorem start_cases (s : Scanner) (os : Os) (ifaces : List Iface) :
    (ifaces = [] ∧ s.start os ifaces = ({ s with stopped := false }, .error .noInterface)) ∨
    (ifaces ≠ [] ∧ ∃ (engines : List Engine) (result : Except Error Unit),
      s.start os ifaces =
        ({ s with
          token := s.token + 1
          ctxs := engines.map fun e => ⟨e, s.token + 1, []⟩
          handles := if (∀ a ∈ s.attempts os ifaces, os.fatal a = false)
            then s.startTasks os ifaces else s.handles
          spawned := s.spawned ++ s.startTasks os ifaces
          stopped := false }, result) ∧
      (result = .ok () ↔ ∀ a ∈ s.attempts os ifaces, os.fatal a = false)) := by
  by_cases hifaces : ifaces = []
  · exact .inl ⟨hifaces, if_pos hifaces⟩
  · refine .inr ⟨hifaces, ?_⟩
    have hfollows := listenStart_follows os s.config (nicIps ifaces) s.selection.entries
    have hlog := hfollows.log (s.listenFrom os)
    have hok : _ ↔ ∀ a ∈ s.attempts os ifaces, os.fatal a = false :=
      hfollows.isOk_iff (s.listenFrom os)
    rw [start, if_neg hifaces]
    cases hrun : listenStart os s.config (nicIps ifaces) s.selection.entries (s.listenFrom os) with
    | mk result l =>
      rw [hrun] at hlog hok
      have hjobs : l.log = s.startJobs os ifaces := hlog
      simp only [hjobs]
      -- The program ends with a value just when no attempt is fatal.
      cases result with
      | ok u =>
        have hall := hok.mp rfl
        exact ⟨l.state.ctxs, .ok (), by rw [if_pos hall]; rfl, iff_of_true rfl hall⟩
      | error e =>
        have hnot : ¬ ∀ a ∈ s.attempts os ifaces, os.fatal a = false := by
          intro hall
          cases hok.mpr hall
        refine ⟨l.state.ctxs, .error e, by rw [if_neg hnot]; rfl, iff_of_false ?_ hnot⟩
        intro h
        cases h

/-! ## Busy ports -/

/-- Numbering keeps the work. -/
theorem exists_mem_numberTasks {token n : ℕ} {w : Work} {ws : List Work} (h : w ∈ ws) :
    ∃ t ∈ numberTasks token n ws, t.work = w := by
  induction ws generalizing n with
  | nil => simp at h
  | cons v ws ih =>
    rcases List.mem_cons.mp h with rfl | h
    · exact ⟨_, List.mem_cons_self, rfl⟩
    · obtain ⟨t, ht, hw⟩ := ih (n := n + 1) h
      exact ⟨t, List.mem_cons_of_mem _ ht, hw⟩

/-- Without a fatal attempt, a start has a task for each attempt that opened its source. -/
theorem exists_mem_startTasks {s : Scanner} {os : Os} {ifaces : List Iface}
    (h : ∀ a ∈ s.attempts os ifaces, os.fatal a = false) {a : Attempt}
    (ha : a ∈ s.attempts os ifaces) (hbound : os.result a = .bound) :
    ∃ t ∈ s.startTasks os ifaces, t.work = .receive a.job := by
  apply exists_mem_numberTasks
  rw [startJobs, performed_eq_self h]
  refine List.mem_map_of_mem (List.mem_flatMap.mpr ⟨a, ha, ?_⟩)
  rw [Os.opened, if_pos hbound]
  exact List.mem_singleton_self _

/-- A start attempts to open every multicast socket of the engines. -/
theorem mem_attempts_multicast (s : Scanner) (os : Os) (ifaces : List Iface)
    {entry : UInt16 × Engine} (hentry : entry ∈ s.selection.entries) {group : Ipv4Addr}
    {port : UInt16} (hopening : .multicast group port ∈ entry.2.openings) :
    ⟨⟨some entry.2, .multicast group⟩, port⟩ ∈ s.attempts os ifaces := by
  have harp : entry.2 ≠ .arp := by
    intro heq
    rw [heq] at hopening
    cases hopening
  refine List.mem_append_right _ (Script.mem_each hentry (fun l => ?_) _)
  refine List.mem_append_left _ ?_
  rw [Engine.script, if_neg harp]
  exact Script.mem_each hopening (fun l => List.mem_singleton_self _) l

/-- One multicast port that is in use fails the start. -/
theorem start_fails_of_multicast (s : Scanner) (os : Os) {ifaces : List Iface}
    {entry : UInt16 × Engine} (hentry : entry ∈ s.selection.entries) {group : Ipv4Addr}
    {port : UInt16} (hopening : .multicast group port ∈ entry.2.openings)
    (hbind : os.bind ⟨⟨some entry.2, .multicast group⟩, port⟩ = .bindFailed) :
    (s.start os ifaces).2 ≠ .ok () := by
  obtain ⟨-, heq⟩ | ⟨-, engines, result, heq, hok⟩ := s.start_cases os ifaces
  · rw [heq]
    intro h
    cases h
  · rw [heq]
    intro h
    have hnot := hok.mp h _ (s.mem_attempts_multicast os ifaces hentry hopening)
    simp [Os.fatal, Os.result, hbind] at hnot

/-- A start with an interface succeeds, with a task for each socket that it has bound, exactly when
every multicast and interface socket of an engine that it attempts is bound and set up, and every
global socket that it binds is set up. -/
theorem start_isOk_iff (s : Scanner) (os : Os) (ifaces : List Iface) (h : ifaces ≠ []) :
    ((s.start os ifaces).2 = .ok () ∧ ∀ a ∈ s.attempts os ifaces, os.result a = .bound →
      ∃ t ∈ (s.start os ifaces).1.handles, t.work = .receive a.job) ↔
    ∀ a ∈ s.attempts os ifaces, os.fatal a = false := by
  obtain ⟨hnone, -⟩ | ⟨-, engines, result, heq, hok⟩ := s.start_cases os ifaces
  · exact absurd hnone h
  · rw [heq]
    constructor
    · exact fun hstart => hok.mp hstart.1
    · intro hall
      refine ⟨hok.mpr hall, fun a ha hbound => ?_⟩
      simp only [if_pos hall]
      exact exists_mem_startTasks hall ha hbound

end Scanner

/-- A selection for examples: the engines of the given names. -/
def exampleSelection : Selection :=
  ⟨some ["ssdp".toList, "wsdiscovery".toList], [(1, .ssdp), (2, .wsd)], by decide +kernel⟩

/-- A scanner for examples. -/
def exampleScanner : Scanner := Scanner.new { } exampleSelection

/-- An operating system for examples, which refuses the sockets on the given ports. -/
def exampleOs (busy : List UInt16) : Os where
  ports := ⟨∅, 0⟩
  inUse _ := false
  bind a := if busy.contains a.port then .bindFailed else .bound
  trial _ _ _ := true

/-- A prefix of three bytes. -/
theorem threeBytes_le : (24 : UInt8) ≤ 32 := by decide

/-- An interface for examples. -/
def exampleIface : Iface :=
  ⟨"eth0".toList, true, false, [.v4 ⟨192, 168, 1, 5⟩ 24 threeBytes_le]⟩

namespace Scanner

/-- A start with all ports free. -/
theorem start_isOk_free :
    (exampleScanner.start (exampleOs []) [exampleIface]).2 = .ok () ∧
      ∀ a ∈ exampleScanner.attempts (exampleOs []) [exampleIface],
        (exampleOs []).result a = .bound →
          ∃ t ∈ (exampleScanner.start (exampleOs []) [exampleIface]).1.handles,
            t.work = .receive a.job :=
  (start_isOk_iff exampleScanner (exampleOs []) [exampleIface] (by decide)).mpr (by decide +kernel)

/-- A start with the port of WSDiscovery in use fails. -/
theorem start_isOk_busy :
    (exampleScanner.start (exampleOs [3702]) [exampleIface]).2 ≠ .ok () := by
  have herror : (exampleScanner.start (exampleOs [3702]) [exampleIface]).2 = .error (.io "") := rfl
  rw [herror]
  intro h
  cases h

end Scanner

end Uscan
