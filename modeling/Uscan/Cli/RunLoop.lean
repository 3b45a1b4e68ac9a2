import Uscan.Cli.Delimited
import Uscan.Config
import Uscan.Lib.Runs

/-!
# The scan loop

`run.rs`: after the scanner has started, the loop takes the devices that it reports, sends the
probes again when the rescan interval elapses, and ends at the timeout, at the first Ctrl-C, or when
no sender is left. The order of these events is arbitrary. `LoopState` has the device table and the
lines printed so far, and `loop_eq` says what they are after any events.

With `--batch` the rows are printed after the loop, but the branch of Ctrl-C returns from the middle
of it, without them (`batch_rows_iff`); and `batch_lines` has a header of its own, after the one
that was printed before the loop, so that the whole output is not one table (`one_header_iff`).
-/

namespace Uscan

/-- The arguments of a scan that the loop and its timers read. -/
structure ScanArgs where
  /-- The output format. -/
  format : OutputFormat
  /-- Rows are printed at the end. -/
  batch : Bool
  /-- The seconds between two rounds of probes. -/
  rescan : Option UInt64
  /-- The seconds after which the scan ends. -/
  timeout : Option UInt64
  /-- The table format has a column for the version. -/
  showVersion : Bool
  /-- Colours are disabled. -/
  noColor : Bool
  deriving DecidableEq, Repr

/-- What a run of the loop reads apart from its events. -/
structure Settings where
  /-- The arguments. -/
  args : ScanArgs
  /-- The configuration. -/
  config : Config
  /-- The environment has the variable `NO_COLOR`. -/
  noColorEnv : Bool
  deriving DecidableEq, Repr

/-- Colours are enabled. -/
def Settings.color (st : Settings) : Bool := !st.args.noColor && !st.noColorEnv

/-- A branch of the `select!` that stays in the loop. -/
inductive LoopEvent where
  /-- A device is received. -/
  | received (dev : Device)
  /-- The rescan interval elapses: the probes are sent again, and an error of it is ignored. -/
  | rescan
  deriving DecidableEq, Repr

/-- A branch of the `select!` that leaves the loop. -/
inductive LoopEnding where
  /-- All senders are closed. -/
  | closed
  /-- The timeout elapses. -/
  | timeout
  /-- The first Ctrl-C. -/
  | ctrlC
  deriving DecidableEq, Repr

/-- The state of the loop. -/
structure LoopState where
  /-- The device table. -/
  table : DeviceTable
  /-- The lines printed so far. -/
  stdout : List (List Char)

/-- What a run leaves behind. -/
structure ScanOutcome where
  /-- The lines printed. -/
  stdout : List (List Char)
  /-- The exit code. -/
  code : ℕ
  deriving DecidableEq, Repr

/-- What making the timers depends on. -/
structure Timers where
  /-- The seconds that the clock of `Instant` shows. -/
  now : ℕ
  /-- `tokio::time::interval`, or its first tick, panics for a period of so many seconds. -/
  interval : UInt64 → Bool
  /-- It panics for a period of zero. -/
  interval_zero : interval 0 = true

/-- The timers of a scan cannot be made: the interval panics, or the end of the scan is past the
last second that an `Instant` can stand for. -/
def Timers.panics (timers : Timers) (args : ScanArgs) : Bool :=
  args.rescan.any timers.interval || args.timeout.any fun s => 2 ^ 63 ≤ timers.now + s.toNat

section

variable (lib : Render) (st : Settings)

/-- The row of a device with the settings of the run. -/
def Settings.row (d : Device) : List Char :=
  renderRow lib d st.args.format st.args.showVersion st.color

/-- The state before the loop: the header is printed. -/
def loopStart : LoopState :=
  ⟨DeviceTable.new st.config.forceGenericProtocols, (header st.args.format).toList⟩

/-- A branch that stays in the loop. -/
def loopStep (s : LoopState) : LoopEvent → LoopState
  | .received dev =>
    let (table, row) := s.table.add dev st.config.enableIpv4 st.config.enableIpv6
    match row with
    | some d => ⟨table, if st.args.batch then s.stdout else s.stdout ++ [st.row lib d]⟩
    | none => ⟨table, s.stdout⟩
  | .rescan => s

/-- `run_scan_inner` after the scanner has started. The branch of Ctrl-C returns at once; the other
ones print the batch. -/
def runScanInner (events : List LoopEvent) (ending : LoopEnding) : ScanOutcome :=
  let s := Machine.run (loopStep lib st) (loopStart st) events
  match ending with
  | .ctrlC => ⟨s.stdout, 130⟩
  | .closed | .timeout =>
    let lines := batchLines lib s.table st.args.format st.args.showVersion st.color
    ⟨if st.args.batch then s.stdout ++ lines else s.stdout, 0⟩

/-- `run_scan`: an error of the configuration, of the start or of the first round of probes goes to
standard error. The header is printed before the timers are made, and a panic ends the program. -/
def runScan {ε : Type} (timers : Timers) (setup : Except ε Settings) (events : List LoopEvent)
    (ending : LoopEnding) : ScanOutcome :=
  match setup with
  | .ok st =>
    if timers.panics st.args then ⟨(loopStart st).stdout, 101⟩
    else runScanInner lib st events ending
  | .error _ => ⟨[], 1⟩

/-! ## What the loop has seen -/

/-- The reports to the table in a sequence of events. -/
def reports : List LoopEvent → List Report
  | [] => []
  | .received dev :: events =>
    ⟨dev, st.config.enableIpv4, st.config.enableIpv6⟩ :: reports events
  | .rescan :: events => reports events

/-- The device table built from the received devices, and the rows that it returned. -/
def received (events : List LoopEvent) : DeviceTable × List Device :=
  (DeviceTable.new st.config.forceGenericProtocols).run (reports st events)

/-- What the loop is for: after a sequence of events, the table is the one of the received devices,
and the lines are the header and, without `--batch`, the rows that the table returned. -/
def stateAfter (events : List LoopEvent) : LoopState :=
  ⟨(received st events).1, (header st.args.format).toList ++
    if st.args.batch then [] else (received st events).2.map (st.row lib)⟩

end

variable {lib : Render} {st : Settings}

/-- The reports of two sequences of events. -/
theorem reports_append (events events' : List LoopEvent) :
    reports st (events ++ events') = reports st events ++ reports st events' := by
  induction events with
  | nil => rfl
  | cons e events ih =>
    cases e with
    | received dev => simp [reports, ih]
    | rescan => simp [reports, ih]

/-- A received device is added to the table. -/
theorem received_append (events : List LoopEvent) (dev : Device) :
    received st (events ++ [.received dev]) =
      (((received st events).1.add dev st.config.enableIpv4 st.config.enableIpv6).1,
        (received st events).2 ++
          ((received st events).1.add dev st.config.enableIpv4 st.config.enableIpv6).2.toList) := by
  rw [received, reports_append, reports, reports, DeviceTable.run_append, DeviceTable.run_singleton]
  rfl

/-- A branch that stays in the loop does what it is for. -/
theorem loopStep_stateAfter (events : List LoopEvent) (e : LoopEvent) :
    loopStep lib st (stateAfter lib st events) e = stateAfter lib st (events ++ [e]) := by
  cases e with
  | rescan =>
    have hsame : received st (events ++ [.rescan]) = received st events := by
      rw [received, reports_append, reports, reports, List.append_nil]
      rfl
    rw [loopStep, stateAfter, stateAfter, hsame]
  | received dev =>
    simp only [loopStep, stateAfter, received_append]
    cases ((received st events).1.add dev st.config.enableIpv4 st.config.enableIpv6).2 with
    | none => simp
    | some d => cases hbatch : st.args.batch <;> simp

/-- The loop does what it is for, for any events. -/
theorem loop_eq (events : List LoopEvent) :
    Machine.run (loopStep lib st) (loopStart st) events = stateAfter lib st events := by
  have hstart : loopStart st = stateAfter lib st [] := by
    cases hbatch : st.args.batch <;>
      simp [loopStart, stateAfter, received, reports, DeviceTable.run, hbatch]
  have hstep : ∀ events s e, s = stateAfter lib st events →
      loopStep lib st s e = stateAfter lib st (events ++ [e]) := by
    rintro events s e rfl
    exact loopStep_stateAfter events e
  exact Machine.run_history hstep hstart events

/-- A received device is one of the reports. -/
theorem mem_reports {events : List LoopEvent} {r : Report} :
    r ∈ reports st events ↔ ∃ dev, .received dev ∈ events ∧
      r = ⟨dev, st.config.enableIpv4, st.config.enableIpv6⟩ := by
  induction events with
  | nil => simp [reports]
  | cons e events ih =>
    cases e with
    | rescan => simp [reports, ih]
    | received dev =>
      simp only [reports, List.mem_cons, ih, LoopEvent.received.injEq, or_and_right, exists_or,
        exists_eq_left]

/-- The table has no rows exactly when every received device is of a disabled family. -/
theorem received_all_eq_nil (events : List LoopEvent) :
    (received st events).1.all = [] ↔ ∀ dev, .received dev ∈ events →
      dev.familyOk st.config.enableIpv4 st.config.enableIpv6 = false := by
  rw [received, DeviceTable.new_run_all_eq_nil]
  constructor
  · exact fun h dev hdev => h _ (mem_reports.mpr ⟨dev, hdev, rfl⟩)
  · intro h r hr
    obtain ⟨dev, hdev, rfl⟩ := mem_reports.mp hr
    exact h dev hdev

/-! ## The batch -/

/-- The lines after the header, or after both headers where it is printed twice. -/
def linesAfterHeader (format : OutputFormat) (lines : List (List Char)) : List (List Char) :=
  lines.dropWhile fun line => header format == some line

/-- The header lines are dropped, and rows are kept. -/
theorem linesAfterHeader_rows (lib : Render) (st : Settings) (hs : List (List Char))
    (ds : List Device)
    (hhs : ∀ h ∈ hs, header st.args.format = some h) :
    linesAfterHeader st.args.format (hs ++ ds.map (st.row lib)) = ds.map (st.row lib) := by
  have hrow (d : Device) : ¬ (header st.args.format == some (st.row lib d)) = true := by
    rw [beq_iff_eq]
    exact fun heq => renderRow_ne_header heq rfl
  rw [linesAfterHeader, List.dropWhile_append_of_pos fun h hh => beq_iff_eq.mpr (hhs h hh)]
  cases ds with
  | nil => rfl
  | cons d ds => exact List.dropWhile_cons_of_neg (hrow d)

/-- The lines of a run with `--batch`. -/
theorem runScanInner_batch (lib : Render) (hbatch : st.args.batch = true) (events : List LoopEvent)
    (ending : LoopEnding) :
    (runScanInner lib st events ending).stdout = (header st.args.format).toList ++
      if ending = .ctrlC then []
      else (header st.args.format).toList ++ (received st events).1.all.map (st.row lib) := by
  cases ending <;> simp [runScanInner, loop_eq, stateAfter, batchLines, Settings.row, hbatch]

/-- The lines of a run without `--batch`. -/
theorem runScanInner_stream (lib : Render) (hbatch : st.args.batch = false)
    (events : List LoopEvent) (ending : LoopEnding) :
    (runScanInner lib st events ending).stdout =
      (header st.args.format).toList ++ (received st events).2.map (st.row lib) := by
  cases ending <;> simp [runScanInner, loop_eq, stateAfter, hbatch]

/-- With `--batch`, the lines after the header are the rows of the table of the received devices, in
the order of discovery, exactly when the loop does not end at Ctrl-C, or every received device is of
a disabled address family. -/
theorem batch_rows_iff (lib : Render) (st : Settings) (hbatch : st.args.batch = true)
    (events : List LoopEvent) (ending : LoopEnding) :
    linesAfterHeader st.args.format (runScanInner lib st events ending).stdout =
        (received st events).1.all.map (st.row lib) ↔
      (ending ≠ .ctrlC ∨ ∀ dev, .received dev ∈ events →
        dev.familyOk st.config.enableIpv4 st.config.enableIpv6 = false) := by
  have hheader : ∀ h ∈ (header st.args.format).toList, header st.args.format = some h :=
    fun h hh => Option.mem_toList.mp hh
  rw [runScanInner_batch lib hbatch]
  by_cases hend : ending = .ctrlC
  · -- The rows of the batch are lost.
    have hlines := linesAfterHeader_rows lib st _ [] hheader
    rw [List.map_nil] at hlines
    rw [if_pos hend, hlines, eq_comm, List.map_eq_nil_iff, received_all_eq_nil]
    exact ⟨.inr, fun h => h.resolve_left fun hne => hne hend⟩
  · have hheaders : ∀ h ∈ (header st.args.format).toList ++ (header st.args.format).toList,
        header st.args.format = some h := by
      intro h hh
      rcases List.mem_append.mp hh with hh | hh
      · exact hheader h hh
      · exact hheader h hh
    have hlines := linesAfterHeader_rows lib st _ (received st events).1.all hheaders
    rw [if_neg hend, ← List.append_assoc, hlines]
    exact iff_of_true rfl (.inl hend)

/-- A device for examples. -/
def exampleDevice : Device :=
  ⟨"SSDP".toList, 0, .v4 ⟨192, 168, 1, 7⟩, [], "Router".toList, "SN".toList⟩

/-- Settings for examples: `--format csv --rescan 2 --timeout 5`, with `--batch` or without. -/
def exampleSettings (batch : Bool) : Settings :=
  ⟨⟨.csv, batch, some 2, some 5, false, true⟩, { }, false⟩

/-- A rendering for examples, without JSON and colours. -/
def exampleRender : Render := ⟨fun _ => [], fun s _ _ _ => s⟩

/-- A batch that ends at the timeout. -/
theorem batch_rows_timeout :
    linesAfterHeader .csv (runScanInner exampleRender (exampleSettings true)
        [.received exampleDevice, .rescan] .timeout).stdout =
      (received (exampleSettings true) [.received exampleDevice, .rescan]).1.all.map
        ((exampleSettings true).row exampleRender) :=
  (batch_rows_iff exampleRender (exampleSettings true) rfl [.received exampleDevice, .rescan]
    .timeout).mpr (.inl (by decide))

/-- A batch that ends at Ctrl-C loses the device that was received. -/
theorem batch_rows_ctrlC :
    linesAfterHeader .csv (runScanInner exampleRender (exampleSettings true)
        [.received exampleDevice] .ctrlC).stdout = [] ∧
      (received (exampleSettings true) [.received exampleDevice]).1.all = [exampleDevice] := by
  decide +kernel

/-! ## The header -/

/-- The devices whose rows a run prints: with `--batch` the rows of the table, else those that the
table returned for the received devices. -/
def printed (st : Settings) (events : List LoopEvent) : List Device :=
  if st.args.batch then (received st events).1.all else (received st events).2

/-- The lines, joined with line feeds, are one table of the devices: the header is the first line,
the other lines are the rows of the devices, and the text is read back as the names of the columns
and then the fields of each device. The formats without a header have no reader. -/
structure OneTable (lib : Render) (st : Settings) (ds : List Device)
    (lines : List (List Char)) : Prop where
  /-- One header, if the format has one, and then rows of devices. -/
  lines_eq : lines = (header st.args.format).toList ++ ds.map (st.row lib)
  /-- What a reader of CSV files finds. -/
  csv : st.args.format = .csv →
    Csv.read (['\n'].intercalate lines) = some (columnNames :: ds.map Device.columns)
  /-- What stands between line feeds and tabs. -/
  tsv : st.args.format = .tsv →
    tsvRows (['\n'].intercalate lines) = columnNames :: ds.map Device.columns

/-- The header and the rows of devices are one table, in TSV exactly when no field has a tab or a
line feed. -/
theorem oneTable_rows_iff (lib : Render) (st : Settings) (ds : List Device) :
    OneTable lib st ds ((header st.args.format).toList ++ ds.map (st.row lib)) ↔
      (st.args.format = .tsv → ∀ d ∈ ds, d.Plain) := by
  constructor
  · intro h htsv
    have hrow : st.row lib = renderTsv := by
      funext d
      rw [Settings.row, htsv, renderRow]
    have hread := h.tsv htsv
    rw [htsv, hrow] at hread
    exact (tsvRows_rows_iff ds).mp hread
  · intro h
    refine ⟨rfl, fun hcsv => ?_, fun htsv => ?_⟩
    · have hrow : st.row lib = renderCsv := by
        funext d
        rw [Settings.row, hcsv, renderRow]
      rw [hcsv, hrow]
      exact csv_read_rows ds
    · have hrow : st.row lib = renderTsv := by
        funext d
        rw [Settings.row, htsv, renderRow]
      rw [htsv, hrow]
      exact tsvRows_rows (h htsv)

/-- The formats with a header. -/
theorem header_isSome_iff {format : OutputFormat} :
    (header format).isSome = true ↔ format = .csv ∨ format = .tsv := by
  cases format <;> simp [header]

/-- The lines of a run that ends at the timeout: with `--batch`, another header stands before the
rows. -/
theorem runScanInner_timeout (lib : Render) (st : Settings) (events : List LoopEvent) :
    (runScanInner lib st events .timeout).stdout = (header st.args.format).toList ++
      ((if st.args.batch then (header st.args.format).toList else []) ++
        (printed st events).map (st.row lib)) := by
  cases hbatch : st.args.batch with
  | false => simp [runScanInner_stream lib hbatch, printed, hbatch]
  | true => simp [runScanInner_batch lib hbatch, printed, hbatch]

/-- A run that ends at the timeout prints one table of its devices, exactly when it has no `--batch`
or its format has no header, and, in TSV, no field of a row that the table returned for a received
device has a tab or a line feed. -/
theorem one_header_iff (lib : Render) (st : Settings) (events : List LoopEvent) :
    OneTable lib st (printed st events) (runScanInner lib st events .timeout).stdout ↔
      ¬ (st.args.batch = true ∧ (st.args.format = .csv ∨ st.args.format = .tsv)) ∧
      (st.args.format = .tsv → ∀ d ∈ (received st events).2, d.Plain) := by
  rw [runScanInner_timeout]
  by_cases htwo : st.args.batch = true ∧ (st.args.format = .csv ∨ st.args.format = .tsv)
  · -- The header of the batch is one line too many.
    obtain ⟨hbatch, hformat⟩ := htwo
    obtain ⟨h, hheader⟩ := Option.isSome_iff_exists.mp (header_isSome_iff.mpr hformat)
    refine iff_of_false (fun hone => ?_) fun hnot => hnot.1 ⟨hbatch, hformat⟩
    have hlength := congrArg List.length hone.lines_eq
    simp [hheader, hbatch] at hlength
  · have hone : (if st.args.batch then (header st.args.format).toList else []) = [] := by
      by_cases hbatch : st.args.batch = true
      · have hheader : ¬ (header st.args.format).isSome = true :=
          fun h => htwo ⟨hbatch, header_isSome_iff.mp h⟩
        rw [if_pos hbatch, Option.not_isSome_iff_eq_none.mp hheader, Option.toList_none]
      · rw [if_neg hbatch]
    have hprinted (htsv : st.args.format = .tsv) : printed st events = (received st events).2 :=
      if_neg fun hbatch => htwo ⟨hbatch, .inr htsv⟩
    rw [hone, List.nil_append, oneTable_rows_iff]
    refine ⟨fun h => ⟨htwo, fun htsv => ?_⟩, fun h htsv => ?_⟩
    · rw [← hprinted htsv]
      exact h htsv
    · rw [hprinted htsv]
      exact h.2 htsv

/-- The header line is no row. -/
theorem header_cons_ne_rows {h : List Char} (hh : header st.args.format = some h)
    (lines : List (List Char)) (ds : List Device) : h :: lines ≠ ds.map (st.row lib) := by
  intro heq
  cases ds with
  | nil => cases heq
  | cons d ds => exact renderRow_ne_header hh (List.cons.inj heq).1.symm

/-- A batch in CSV is read back with two rows of column names, and is no table of any devices. -/
theorem one_header_batch :
    let lines := (runScanInner exampleRender (exampleSettings true) [.received exampleDevice]
      .timeout).stdout
    lines = [csvHeader, csvHeader, renderCsv exampleDevice] ∧
      Csv.read (['\n'].intercalate lines) =
        some [columnNames, columnNames, exampleDevice.columns] ∧
      ∀ ds, ¬ OneTable exampleRender (exampleSettings true) ds lines := by
  intro lines
  have hlines : lines = [csvHeader, csvHeader, renderCsv exampleDevice] := by decide +kernel
  refine ⟨hlines, by decide +kernel, fun ds hone => ?_⟩
  have hrows := hone.lines_eq
  have hheader : header (exampleSettings true).args.format = some csvHeader := rfl
  rw [hlines, hheader, Option.toList_some, List.singleton_append] at hrows
  exact header_cons_ne_rows hheader _ ds (List.cons.inj hrows).2

end Uscan
