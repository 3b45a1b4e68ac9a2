import Uscan.Cli.Setup
import Uscan.Pcap
import Uscan.SelfTest

/-!
# The commands for the fixtures

`run_selftest` and `run_selftest2pcap` of `commands.rs`. The first prints what the replays of all
protocols report, or those of one. A fixture that cannot be read is a message and an exit code of 1,
and the other ones are still replayed; only a parser can end the command early
(`runSelftest_spec`). Without a protocol it does what it does for each of them in turn
(`runSelftest_none`).

The second puts a fixture into a new capture file. A file that is there it does not touch, and the
capture that it writes is read back as the fixture, unless that is longer than a record can say
(`runSelftest2pcap_spec`).
-/

namespace Uscan

/-! ## The self test -/

/-- `SocketAddr`, `Display`. -/
def SocketAddr.text (addr : SocketAddr) : List Char :=
  match addr.ip with
  | .v4 ip => ip.text ++ ':' :: Nat.toDigits 10 addr.port.toNat
  | .v6 ip => '[' :: ip.text ++ "]:".toList ++ Nat.toDigits 10 addr.port.toNat

namespace Replay

variable (re : Replay)

/-- The lines that are printed for a replay. -/
def block (lib : Render) (devs : List Device) : List Char :=
  "== ".toList ++ re.engineName.toList ++ " [".toList ++ re.fixture.toList ++ "] (src ".toList ++
    re.source.text ++ ")\n".toList ++
    devs.flatMap fun d => "   ".toList ++ renderRow lib d .table true false ++ ['\n']

/-- The message about a replay that fails. -/
def failure (e : Error) : List Char :=
  "error: replay failed for ".toList ++ re.engineName.toList ++ " [".toList ++
    re.fixture.toList ++ "]: ".toList ++ e.text ++ ['\n']

/-- The name of the engine in lower case. -/
def lowerName : List Char := re.engineName.toList.map toAsciiLowercase

end Replay

/-- The replays of the protocol, or all. -/
def selectedReplays (protocol : Option (List Char)) : List Replay :=
  let want := protocol.map (·.map toAsciiLowercase)
  replays.filter fun re => want.elim true (re.lowerName == ·)

/-- The loop of `run_selftest`, after what it has printed so far. -/
def selftestLoop (lib : Render) (read : String → Except Error Slice) :
    List Replay → CommandOutcome → Res Empty CommandOutcome
  | [], soFar => .ok soFar
  | re :: res, soFar =>
    match replay read re with
    | .ok (.ok devs) =>
      selftestLoop lib read res { soFar with stdout := soFar.stdout ++ re.block lib devs }
    | .ok .panicked => .panicked
    | .ok (.err e) => .err e
    | .error e =>
      selftestLoop lib read res { soFar with stderr := soFar.stderr ++ re.failure e, code := 1 }

/-- `run_selftest`. -/
def runSelftest (lib : Render) (read : String → Except Error Slice)
    (protocol : Option (List Char)) : Res Empty CommandOutcome :=
  match protocol, selectedReplays protocol with
  | some p, [] => .ok (.failed ("unknown protocol: ".toList ++ p.map toAsciiLowercase))
  | _, selected => selftestLoop lib read selected ⟨[], [], 0⟩

/-- What a replay that does not panic prints, and the exit code that it asks for. -/
def Replay.outcome (lib : Render) (read : String → Except Error Slice) (re : Replay) :
    CommandOutcome :=
  match replay read re with
  | .ok (.ok devs) => ⟨re.block lib devs, [], 0⟩
  | .ok _ => ⟨[], [], 0⟩
  | .error e => ⟨[], re.failure e, 1⟩

/-- A parser panics in a replay. -/
def Replay.panics (read : String → Except Error Slice) (re : Replay) : Bool :=
  match replay read re with
  | .ok .panicked => true
  | _ => false

namespace CommandOutcome

/-- Nothing has been printed. -/
def empty : CommandOutcome := ⟨[], [], 0⟩

/-- One part of a command after another one, which fails if one of them does. -/
def andThen (out out' : CommandOutcome) : CommandOutcome :=
  ⟨out.stdout ++ out'.stdout, out.stderr ++ out'.stderr, max out.code out'.code⟩

@[simp] theorem empty_andThen (out : CommandOutcome) : empty.andThen out = out := by
  simp [empty, andThen]

@[simp] theorem andThen_empty (out : CommandOutcome) : out.andThen empty = out := by
  simp [empty, andThen]

theorem andThen_assoc (out out' out'' : CommandOutcome) :
    (out.andThen out').andThen out'' = out.andThen (out'.andThen out'') := by
  simp [andThen, max_assoc]

/-- A part that prints something on standard output. -/
theorem andThen_printed (out : CommandOutcome) (msg : List Char) :
    out.andThen ⟨msg, [], 0⟩ = { out with stdout := out.stdout ++ msg } := by
  simp [andThen]

/-- A part that fails. -/
theorem andThen_failure {out : CommandOutcome} (h : out.code ≤ 1) (msg : List Char) :
    out.andThen ⟨[], msg, 1⟩ = { out with stderr := out.stderr ++ msg, code := 1 } := by
  simp [andThen, h]

end CommandOutcome

section

variable (lib : Render) (read : String → Except Error Slice)

/-- What replays print one after the other. -/
def replaysOutcome : List Replay → CommandOutcome
  | [] => .empty
  | re :: res => (re.outcome lib read).andThen (replaysOutcome res)

/-- In two parts. -/
theorem replaysOutcome_append (res res' : List Replay) :
    replaysOutcome lib read (res ++ res') =
      (replaysOutcome lib read res).andThen (replaysOutcome lib read res') := by
  induction res with
  | nil => exact (CommandOutcome.empty_andThen _).symm
  | cons re res ih => rw [List.cons_append, replaysOutcome, replaysOutcome, ih,
      CommandOutcome.andThen_assoc]

/-- The exit code is 0 or 1, and it is 0 when no fixture fails to be read. -/
theorem replaysOutcome_code (res : List Replay) :
    (replaysOutcome lib read res).code ≤ 1 ∧
      ((replaysOutcome lib read res).code = 0 ↔
        ∀ re ∈ res, ∃ result, replay read re = .ok result) := by
  induction res with
  | nil => exact ⟨Nat.zero_le 1, iff_of_true rfl fun _ h => absurd h List.not_mem_nil⟩
  | cons re res ih =>
    obtain ⟨hle, hzero⟩ := ih
    rw [List.forall_mem_cons, ← hzero, replaysOutcome, Replay.outcome]
    cases hreplay : replay read re with
    | error e => simpa [CommandOutcome.andThen] using hle
    | ok result => cases result <;> simpa [CommandOutcome.andThen] using hle

/-- The loop ends early exactly when a replay panics. -/
theorem selftestLoop_eq (res : List Replay) {soFar : CommandOutcome} (h : soFar.code ≤ 1) :
    selftestLoop lib read res soFar =
      if res.any (Replay.panics read) then .panicked
      else .ok (soFar.andThen (replaysOutcome lib read res)) := by
  induction res generalizing soFar with
  | nil => simp [selftestLoop, replaysOutcome]
  | cons re res ih =>
    rw [selftestLoop, replaysOutcome, Replay.outcome, List.any_cons, Replay.panics]
    cases replay read re with
    | error e =>
      rw [← CommandOutcome.andThen_assoc, CommandOutcome.andThen_failure h]
      exact ih le_rfl
    | ok result =>
      cases result with
      | panicked => rfl
      | err e => exact e.elim
      | ok devs =>
        rw [← CommandOutcome.andThen_assoc, CommandOutcome.andThen_printed]
        exact ih h

end

/-- Every engine has a replay. -/
theorem exists_replay (e : Engine) : ∃ re ∈ replays, re.engineName.toList = e.name := by
  have hall : ∀ x ∈ registry, ∃ re ∈ replays, re.engineName.toList = x.2.name := by decide +kernel
  obtain ⟨id, hid⟩ := registry_complete e
  exact hall _ hid

/-- What is selected is a replay. -/
theorem mem_replays {protocol : Option (List Char)} {re : Replay}
    (h : re ∈ selectedReplays protocol) : re ∈ replays := by
  unfold selectedReplays at h
  exact List.mem_of_mem_filter h

/-- There are no replays just of what is the name of no engine, in upper and lower case. -/
theorem selectedReplays_eq_nil_iff (protocol : Option (List Char)) :
    selectedReplays protocol = [] ↔
      ∃ p, protocol = some p ∧
        ∀ e : Engine, e.name.map toAsciiLowercase ≠ p.map toAsciiLowercase := by
  rw [selectedReplays, List.filter_eq_nil_iff]
  cases protocol with
  | none =>
    refine iff_of_false (fun h => ?_) (by simp)
    exact h (.of "SSDP" "SSDP.selftest" 1 0) List.mem_cons_self rfl
  | some p =>
    simp only [Option.map_some, Option.elim_some, beq_iff_eq, Option.some.injEq, exists_eq_left']
    constructor
    · intro h e
      obtain ⟨re, hre, hname⟩ := exists_replay e
      rw [← hname]
      exact h re hre
    · intro h re hre
      rw [Replay.lowerName, (replays_engine re hre).1]
      exact h re.engine

/-- A replay fails only when its fixture cannot be read. -/
theorem exists_replay_iff (read : String → Except Error Slice) {re : Replay} (hre : re ∈ replays) :
    (∃ result, replay read re = .ok result) ↔ ∃ bytes, read re.fixture = .ok bytes := by
  rw [replay]
  cases read re.fixture with
  | error e =>
    refine iff_of_false ?_ ?_
    · rintro ⟨result, h⟩
      cases h
    · rintro ⟨bytes, h⟩
      cases h
  | ok bytes =>
    refine iff_of_true ?_ ⟨bytes, rfl⟩
    by_cases hdomains : re.engine.domains = []
    · exact ⟨_, run_of_domains hre hdomains bytes⟩
    · exact ⟨_, run_of_mdns hre hdomains bytes⟩

/-- Just a parser that may panic makes a replay panic. -/
theorem Replay.panics_of_mem {read : String → Except Error Slice} {re : Replay}
    (hre : re ∈ replays) (h : re.panics read = true) :
    re.engine.mayPanic = true ∧ ∃ bytes, read re.fixture = .ok bytes ∧
      re.engine.parse re.source bytes.bytes = .panicked := by
  rw [Replay.panics, replay] at h
  cases hread : read re.fixture with
  | error e =>
    rw [hread] at h
    cases h
  | ok bytes =>
    rw [hread] at h
    change (match re.run bytes with
      | .ok .panicked => true
      | _ => false) = true at h
    by_cases hdomains : re.engine.domains = []
    · rw [run_of_domains hre hdomains] at h
      cases hparse : re.engine.parse re.source bytes.bytes with
      | ok devs =>
        rw [hparse] at h
        cases h
      | err e => exact e.elim
      | panicked =>
        refine ⟨?_, bytes, rfl, hparse⟩
        by_contra hsafe
        exact (Engine.parse_safe (Bool.not_eq_true _ ▸ hsafe) _ _).ne_panicked hparse
    · obtain ⟨devs, hdevs⟩ := hear_ok { } {re.engine} bytes
      rw [run_of_mdns hre hdomains, hdevs] at h
      cases h

/-- What the command comes to when there are replays. -/
theorem runSelftest_eq (lib : Render) (read : String → Except Error Slice)
    {protocol : Option (List Char)} (h : selectedReplays protocol ≠ []) :
    runSelftest lib read protocol =
      if (selectedReplays protocol).any (Replay.panics read) then .panicked
      else .ok (replaysOutcome lib read (selectedReplays protocol)) := by
  have hloop : selftestLoop lib read (selectedReplays protocol) .empty = _ :=
    selftestLoop_eq lib read (selectedReplays protocol) (Nat.zero_le 1)
  rw [CommandOutcome.empty_andThen] at hloop
  rw [← hloop, runSelftest]
  · rfl
  · exact fun _ _ hnil => h hnil

/-- A protocol is known by the name of an engine, in upper or lower case. The command then replays
its fixtures: the exit code is 0 when all of them can be read, and 1 otherwise; what it prints is
what each of them prints alone, in order. A panic is one of the parser of Dahua2, 360Vision or Eaton
on a fixture of that engine. -/
theorem runSelftest_spec (lib : Render) (read : String → Except Error Slice)
    (protocol : Option (List Char)) :
    (selectedReplays protocol = [] ↔ ∃ p, protocol = some p ∧
        ∀ e : Engine, e.name.map toAsciiLowercase ≠ p.map toAsciiLowercase) ∧
      (∀ p, protocol = some p → selectedReplays protocol = [] →
        runSelftest lib read protocol =
          .ok (.failed ("unknown protocol: ".toList ++ p.map toAsciiLowercase))) ∧
      (selectedReplays protocol ≠ [] → ∀ out, runSelftest lib read protocol = .ok out →
        out = replaysOutcome lib read (selectedReplays protocol) ∧ out.code ≤ 1 ∧
          (out.code = 0 ↔
            ∀ re ∈ selectedReplays protocol, ∃ bytes, read re.fixture = .ok bytes)) ∧
      (runSelftest lib read protocol = .panicked →
        ∃ re ∈ selectedReplays protocol, re.engine.mayPanic = true ∧
          ∃ bytes, read re.fixture = .ok bytes ∧
            re.engine.parse re.source bytes.bytes = .panicked) := by
  have hunknown (p : List Char) (hp : protocol = some p) (h : selectedReplays protocol = []) :
      runSelftest lib read protocol =
        .ok (.failed ("unknown protocol: ".toList ++ p.map toAsciiLowercase)) := by
    subst hp
    rw [runSelftest]
    exact h
  refine ⟨selectedReplays_eq_nil_iff protocol, hunknown, fun h out hout => ?_, fun hpanic => ?_⟩
  · rw [runSelftest_eq lib read h] at hout
    split_ifs at hout
    cases hout
    obtain ⟨hle, hzero⟩ := replaysOutcome_code lib read (selectedReplays protocol)
    refine ⟨rfl, hle, hzero.trans (forall₂_congr fun re hre => ?_)⟩
    exact exists_replay_iff read (mem_replays hre)
  · by_cases h : selectedReplays protocol = []
    · -- An unknown name ends the command before any parser runs.
      obtain ⟨p, hp, -⟩ := (selectedReplays_eq_nil_iff protocol).mp h
      rw [hunknown p hp h] at hpanic
      cases hpanic
    · rw [runSelftest_eq lib read h] at hpanic
      split_ifs at hpanic with hany
      obtain ⟨re, hre, hpanics⟩ := List.any_eq_true.mp hany
      exact ⟨re, hre, Replay.panics_of_mem (mem_replays hre) hpanics⟩

/-- The names that the fixtures are selected by. -/
def fixtureNames : List (List Char) := (replays.map fun re => re.engineName.toList).dedup

/-- The replays are those of each name. -/
theorem replays_eq_flatMap :
    fixtureNames.flatMap (fun name => selectedReplays (some name)) = replays ∧
      ∀ name ∈ fixtureNames, selectedReplays (some name) ≠ [] := by
  decide +kernel

/-- The command with each of some names in turn. -/
theorem foldlM_runSelftest (lib : Render) (read : String → Except Error Slice)
    {names : List (List Char)} (h : ∀ name ∈ names, selectedReplays (some name) ≠ [])
    (soFar : CommandOutcome) :
    names.foldlM (fun out name => do
        let out' ← runSelftest lib read (some name)
        return out.andThen out') soFar =
      if (names.flatMap fun name => selectedReplays (some name)).any (Replay.panics read) then
        .panicked
      else
        .ok (soFar.andThen
          (replaysOutcome lib read (names.flatMap fun name => selectedReplays (some name)))) := by
  induction names generalizing soFar with
  | nil => simp [replaysOutcome]
  | cons name names ih =>
    obtain ⟨hname, hnames⟩ := List.forall_mem_cons.mp h
    rw [List.foldlM_cons, runSelftest_eq lib read hname, List.flatMap_cons, List.any_append,
      replaysOutcome_append, ← CommandOutcome.andThen_assoc]
    cases (selectedReplays (some name)).any (Replay.panics read) with
    | true => rfl
    | false =>
      rw [if_neg Bool.false_ne_true, Bool.false_or]
      exact ih hnames _

/-- Without a protocol the command does what it does for each protocol in turn, and it fails if it
fails for one of them. -/
theorem runSelftest_none (lib : Render) (read : String → Except Error Slice) :
    runSelftest lib read none =
      fixtureNames.foldlM (fun out name => do
        let out' ← runSelftest lib read (some name)
        return out.andThen out') .empty := by
  obtain ⟨hall, hne⟩ := replays_eq_flatMap
  have hnone : selectedReplays none = replays := List.filter_true _
  rw [foldlM_runSelftest lib read hne, hall, CommandOutcome.empty_andThen]
  have hsome : selectedReplays none ≠ [] := by
    rw [hnone]
    exact List.cons_ne_nil _ _
  have heq := runSelftest_eq lib read hsome
  rwa [hnone] at heq

/-! ## A fixture as a capture -/

/-- The answers of the operating system to `run_selftest2pcap`. -/
structure ConvertOs where
  /-- `exists`, of the output file. -/
  outExists : Bool
  /-- `read`, of the input file. -/
  read : Except (List Char) (List UInt8)
  /-- `modified`, of its metadata. -/
  modified : Except (List Char) SystemTime
  /-- `PcapWriter::new`; an error comes with what is left of the output file, if it was opened. -/
  create : Except (List Char × Option (List UInt8)) Unit
  /-- The write of the record. -/
  write : WriteAll

/-- The call of `append_udp`. -/
def fixtureCall (ts : SystemTime) (destPort : UInt16) (payload : List UInt8) : PcapWriter.Call :=
  ⟨ts, ⟨.v4 ⟨127, 0, 0, 1⟩, 1024⟩, ⟨.v4 ⟨127, 0, 0, 1⟩, destPort⟩, payload⟩

/-- The end of `run_selftest2pcap`, after the call of `append_udp`. -/
def finishPcap (outFile : PathText) (appended : PcapWriter × Res Empty (Option ℕ)) :
    Option (List UInt8) × Res Empty CommandOutcome :=
  (some appended.1.file,
    match appended.2 with
    | .ok (some n) =>
      let msg := "wrote ".toList ++ Nat.toDigits 10 n ++ " packet(s) to ".toList ++ outFile
      .ok ⟨msg ++ ['\n'], [], 0⟩
    | .ok none => .ok (.failed ("failed to append packet to ".toList ++ outFile))
    | .err e => .err e
    | .panicked => .panicked)

/-- `run_selftest2pcap`: the output file after it, if it was opened, and what it leaves behind
besides. -/
def runSelftest2pcap (profile : Profile) (os : ConvertOs) (inFile outFile : PathText)
    (destPort : UInt16) : Option (List UInt8) × Res Empty CommandOutcome :=
  if os.outExists then
    (none, .ok (.failed ("output file already exists: ".toList ++ outFile)))
  else
    match os.read with
    | .error e =>
      (none, .ok (.failed ("read fixture ".toList ++ inFile ++ ": ".toList ++ e)))
    | .ok payload =>
      match os.modified with
      | .error e =>
        (none, .ok (.failed ("read mtime ".toList ++ inFile ++ ": ".toList ++ e)))
      | .ok ts =>
        match os.create with
        | .error (e, left) =>
          (left, .ok (.failed ("create pcap ".toList ++ outFile ++ ": ".toList ++ e)))
        | .ok () =>
          let c := fixtureCall ts destPort payload
          finishPcap outFile
            (PcapWriter.new.appendUdp profile os.write c.ts c.src c.dst c.payload)

/-- What `append_udp` makes of a fixture. -/
theorem append_fixture (profile : Profile) (write : WriteAll) (ts : SystemTime) (destPort : UInt16)
    (payload : List UInt8) :
    let c := fixtureCall ts destPort payload
    let appended := PcapWriter.new.appendUdp profile write c.ts c.src c.dst c.payload
    (write = .ok ∧ (∃ l, lengths profile payload.length = .ok l) ∧
        appended.1.file = PcapWriter.fileHeader ++ c.bytes profile ∧ appended.2 = .ok (some 1)) ∨
      (appended.2 = .ok none ∧ write ≠ .ok) ∨
      (appended.2 = .panicked ∧ lengths profile payload.length = .panicked) := by
  dsimp only
  cases hl : lengths profile payload.length with
  | err e => exact e.elim
  | panicked =>
    refine .inr (.inr ⟨?_, rfl⟩)
    simp only [fixtureCall, PcapWriter.appendUdp, hl, PcapWriter.new, Bool.false_eq_true, if_false]
  | ok l =>
    cases write with
    | err written =>
      refine .inr (.inl ⟨?_, WriteAll.noConfusion⟩)
      simp only [fixtureCall, PcapWriter.appendUdp, hl, PcapWriter.new, Bool.false_eq_true,
        if_false]
    | ok =>
      have happend := @PcapWriter.append_of_isIpv4 profile .new rfl
        (fixtureCall ts destPort payload) rfl l hl
      rw [PcapWriter.append] at happend
      rw [happend]
      exact .inl ⟨rfl, ⟨l, rfl⟩, rfl, rfl⟩

/-- What the command does: it gets to the end of the capture, or it exits with another code. -/
theorem runSelftest2pcap_cases (profile : Profile) (os : ConvertOs) (inFile outFile : PathText)
    (destPort : UInt16) :
    let r := runSelftest2pcap profile os inFile outFile destPort
    (∃ payload ts l, os.outExists = false ∧ os.read = .ok payload ∧ os.modified = .ok ts ∧
        os.create = .ok () ∧ os.write = .ok ∧ lengths profile payload.length = .ok l ∧
        exitCode r.2 = 0 ∧
        r.1 = some (PcapWriter.fileHeader ++ (fixtureCall ts destPort payload).bytes profile)) ∨
      (exitCode r.2 ≠ 0 ∧
        (os.outExists = false → ∀ payload ts, os.read = .ok payload → os.modified = .ok ts →
          os.create = .ok () → os.write = .ok → lengths profile payload.length = .panicked)) := by
  obtain ⟨outExists, read, modified, create, write⟩ := os
  dsimp only
  -- Each call that fails is the end of the command.
  cases outExists with
  | true => exact .inr ⟨Nat.one_ne_zero, nofun⟩
  | false =>
    cases read with
    | error e => exact .inr ⟨Nat.one_ne_zero, nofun⟩
    | ok payload =>
      cases modified with
      | error e => exact .inr ⟨Nat.one_ne_zero, nofun⟩
      | ok ts =>
        cases create with
        | error e => exact .inr ⟨Nat.one_ne_zero, nofun⟩
        | ok _ =>
          -- What is left is the one record of the capture.
          let c := fixtureCall ts destPort payload
          have hrun (inFile : PathText) : runSelftest2pcap profile
              ⟨false, .ok payload, .ok ts, .ok (), write⟩ inFile outFile destPort =
              finishPcap outFile
                (PcapWriter.new.appendUdp profile write c.ts c.src c.dst c.payload) := rfl
          rw [hrun, finishPcap]
          obtain ⟨hwrite, ⟨l, hl⟩, hfile, hresult⟩ | ⟨hresult, hwrite⟩ | ⟨hresult, hl⟩ :=
            append_fixture profile write ts destPort payload
          · rw [hresult, hfile]
            exact .inl ⟨payload, ts, l, rfl, rfl, rfl, rfl, hwrite, hl, rfl, rfl⟩
          · rw [hresult]
            exact .inr ⟨Nat.one_ne_zero, fun _ _ _ _ _ _ h => absurd h hwrite⟩
          · rw [hresult]
            refine .inr ⟨(by decide : 101 ≠ 0), ?_⟩
            rintro - payload' ts' ⟨⟩ - - -
            exact hl

/-- An output file that exists is not touched. Otherwise the command exits with 0 exactly when the
operating system lets it, and in a development build when the length of the fixture leaves room for
the headers. The capture is then read back as the fixture exactly when the fixture has at most 65493
bytes, with the time of its file if that is not before 1970 and its seconds fit in four bytes. -/
theorem runSelftest2pcap_spec (profile : Profile) (os : ConvertOs) (inFile outFile : PathText)
    (destPort : UInt16) :
    let r := runSelftest2pcap profile os inFile outFile destPort
    (os.outExists = true → r.1 = none ∧ exitCode r.2 = 1) ∧
      (exitCode r.2 = 0 ↔ os.outExists = false ∧ ∃ payload ts, os.read = .ok payload ∧
        os.modified = .ok ts ∧ os.create = .ok () ∧ os.write = .ok ∧
          ¬ (profile = .dev ∧ 65493 < payload.length % 2 ^ 16)) ∧
      ∀ payload ts, os.read = .ok payload → os.modified = .ok ts → exitCode r.2 = 0 →
        ∃ file, r.1 = some file ∧
          (PcapReader.readFile file = some [⟨PcapReader.stampMicros ts.age,
              ⟨.v4 ⟨127, 0, 0, 1⟩, 1024⟩, ⟨.v4 ⟨127, 0, 0, 1⟩, destPort⟩, payload⟩] ↔
            payload.length ≤ 65493) ∧
          (0 ≤ ts.nanos → ts.nanos < 2 ^ 32 * 10 ^ 9 →
            PcapReader.stampMicros ts.age = (ts.nanos / 1000).toNat) := by
  intro r
  have hexists (h : os.outExists = true) : r.1 = none ∧ exitCode r.2 = 1 := by
    have hr : r = (none, .ok (.failed ("output file already exists: ".toList ++ outFile))) :=
      if_pos h
    rw [hr]
    exact ⟨rfl, rfl⟩
  refine ⟨hexists, ?_⟩
  obtain ⟨payload, ts, l, hnew, hread, hmodified, hcreate, hwrite, hl, hcode, hfile⟩ |
    ⟨hcode, hnot⟩ := runSelftest2pcap_cases profile os inFile outFile destPort
  · -- The lengths are there, so that they have not panicked.
    refine ⟨iff_of_true hcode ⟨hnew, payload, ts, hread, hmodified, hcreate, hwrite, ?_⟩, ?_⟩
    · rw [← lengths_panicked_iff, hl]
      exact nofun
    · intro payload' ts' hread' hmodified' _
      rw [hread] at hread'
      rw [hmodified] at hmodified'
      cases hread'
      cases hmodified'
      exact ⟨_, hfile,
        PcapWriter.Call.readFile_bytes_iff (c := fixtureCall ts destPort payload) rfl hl,
        PcapReader.stampMicros_age⟩
  · refine ⟨iff_of_false hcode ?_, fun _ _ _ _ h => absurd h hcode⟩
    rintro ⟨hnew, payload, ts, hread, hmodified, hcreate, hwrite, hroom⟩
    have hl := hnot hnew payload ts hread hmodified hcreate hwrite
    exact hroom ((lengths_panicked_iff profile _).mp hl)

end Uscan
