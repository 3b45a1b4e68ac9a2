import Uscan.Cli.Output
import Uscan.Lib.Split
import Uscan.Net.AddrText

/-!
# Reading the CSV and TSV output back

The lines of `batch_lines`, joined with line feeds, as another program reads them. In CSV every
field is quoted, so that a reader of RFC 4180 files finds one row for each row of the table, with
its fields, whatever characters they have (`batchLines_csv_read`). In TSV no field is quoted: split
at line feeds and tabs, the text has the rows of the table precisely when no field has a tab or a
line feed, and only then is it certain that another table has another text
(`batchLines_tsv_iff`).
-/

namespace Uscan

/-- The names of the columns. -/
def columnNames : List (List Char) :=
  ["protocol".toList, "version".toList, "ip".toList, "mac".toList, "type".toList, "serial".toList]

/-- The fields of a row, as texts. -/
def Device.columns (d : Device) : List (List Char) :=
  [d.protocol, decimal d.version, d.ip.text, d.mac, d.deviceType, d.serial]

/-- The fields of a row determine it. -/
theorem Device.columns_inj {d e : Device} (h : d.columns = e.columns) : d = e := by
  obtain ⟨protocol, version, ip, mac, deviceType, serial⟩ := d
  obtain ⟨protocol', version', ip', mac', deviceType', serial'⟩ := e
  simp only [Device.columns, List.cons.injEq, and_true] at h
  obtain ⟨hprotocol, hversion, hip, hmac, htype, hserial⟩ := h
  have hversion' : version = version' :=
    UInt32.toNat_inj.mp (toDigits_inj (by decide) (by decide) hversion)
  rw [hprotocol, hversion', IpAddr.text_inj hip, hmac, htype, hserial]

/-! ## CSV -/

/-- The header line is read as the names of the columns. -/
theorem encodesRow_csvHeader : Csv.EncodesRow csvHeader columnNames := by
  have hall : (columnNames.all fun f => !f.isEmpty && f.all fun c => !Csv.special.contains c) =
      true := by decide +kernel
  refine ⟨columnNames, by decide +kernel, by simp [columnNames], ?_⟩
  rw [List.forall₂_same]
  intro f hf
  have hfield := List.all_eq_true.mp hall f hf
  rw [Bool.and_eq_true] at hfield
  obtain ⟨hne, hchars⟩ := hfield
  refine Csv.encodes_bare (by simpa using hne) fun c hc => ?_
  simpa using List.all_eq_true.mp hchars c hc

/-- A row is read as its fields. -/
theorem encodesRow_renderCsv (d : Device) : Csv.EncodesRow (renderCsv d) d.columns := by
  refine ⟨d.columns.map Csv.quote, rfl, by simp [Device.columns], ?_⟩
  rw [List.forall₂_map_left_iff, List.forall₂_same]
  exact fun f _ => Csv.encodes_quote f

/-- The rows of devices are read as their fields. -/
theorem encodesRows_renderCsv (ds : List Device) :
    List.Forall₂ Csv.EncodesRow (ds.map renderCsv) (ds.map Device.columns) := by
  rw [List.forall₂_map_left_iff, List.forall₂_map_right_iff, List.forall₂_same]
  exact fun d _ => encodesRow_renderCsv d

/-- The header and the rows of devices, as a reader of CSV takes them. -/
theorem csv_read_rows (ds : List Device) :
    Csv.read (['\n'].intercalate (csvHeader :: ds.map renderCsv)) =
      some (columnNames :: ds.map Device.columns) :=
  Csv.read_lines (List.cons_ne_nil _ _) (.cons encodesRow_csvHeader (encodesRows_renderCsv ds))

/-- The CSV output of a table is read back as the header and the rows of the table, one for each of
its keys in the order of their discovery. -/
theorem batchLines_csv_read (lib : Render) (g : Bool) (rs : List Report)
    (showVersion color : Bool) :
    let t := ((DeviceTable.new g).run rs).1
    Csv.read (['\n'].intercalate (batchLines lib t .csv showVersion color)) =
      some (columnNames :: t.all.map Device.columns) ∧
    t.all.map some = t.order.map t.entries.lookup ∧
    t.order = ((rs.filter Report.accepted).map (·.device.key g)).eraseDups := by
  intro t
  exact ⟨csv_read_rows t.all, ((DeviceTable.Inv.new g).run rs).all_eq,
    DeviceTable.run_order (DeviceTable.Inv.new g) rs⟩

/-! ## TSV -/

/-- The TSV output of a table. -/
def tsvText (lib : Render) (t : DeviceTable) (showVersion color : Bool) : List Char :=
  ['\n'].intercalate (batchLines lib t .tsv showVersion color)

/-- The rows of a text between line feeds, and their fields between tabs. -/
def tsvRows (text : List Char) : List (List (List Char)) :=
  (text.splitOn '\n').map (List.splitOn '\t')

/-- The TSV output of the table has the header row and then exactly one row of six fields for each
row of the table. -/
def SixFields (lib : Render) (t : DeviceTable) (showVersion color : Bool) : Prop :=
  ∃ rows, tsvRows (tsvText lib t showVersion color) = columnNames :: rows ∧
    rows.length = t.all.length ∧ ∀ row ∈ rows, row.length = 6

/-- No field of a row has a tab or a line feed. -/
def Device.Plain (d : Device) : Prop := ∀ f ∈ d.columns, '\t' ∉ f ∧ '\n' ∉ f

/-- The lines of the TSV output. -/
theorem batchLines_tsv (lib : Render) (t : DeviceTable) (showVersion color : Bool) :
    batchLines lib t .tsv showVersion color = tsvHeader :: t.all.map renderTsv := rfl

/-- The header is split into the names of the columns. -/
theorem tsvHeader_spec : '\n' ∉ tsvHeader ∧ tsvHeader.splitOn '\t' = columnNames := by
  constructor
  · decide +kernel
  · decide +kernel

/-- A row has no line feed exactly when none of its fields has one. -/
theorem lf_notMem_renderTsv (d : Device) :
    '\n' ∉ renderTsv d ↔ ∀ f ∈ d.columns, '\n' ∉ f := by
  constructor
  · intro h f hf hc
    exact h (mem_intercalate hf hc)
  · intro h hc
    rcases mem_of_mem_intercalate hc with hsep | ⟨f, hf, hcf⟩
    · exact absurd hsep (by decide)
    · exact h f hf hcf

/-- A row is split into six fields exactly when none of its fields has a tab. -/
theorem length_splitOn_renderTsv (d : Device) :
    ((renderTsv d).splitOn '\t').length = 6 ↔ ∀ f ∈ d.columns, '\t' ∉ f :=
  length_splitOn_intercalate (List.cons_ne_nil _ _)

/-- Rows without tabs and line feeds are read back as their fields. -/
theorem tsvRows_rows {ds : List Device} (h : ∀ d ∈ ds, d.Plain) :
    tsvRows (['\n'].intercalate (tsvHeader :: ds.map renderTsv)) =
      columnNames :: ds.map Device.columns := by
  have hlines : ∀ line ∈ tsvHeader :: ds.map renderTsv, '\n' ∉ line := by
    intro line hline
    rcases List.mem_cons.mp hline with rfl | hline
    · exact tsvHeader_spec.1
    · obtain ⟨d, hd, rfl⟩ := List.mem_map.mp hline
      exact (lf_notMem_renderTsv d).mpr fun f hf => (h d hd f hf).2
  unfold tsvRows
  rw [List.splitOn_intercalate '\n' hlines (List.cons_ne_nil _ _), List.map_cons,
    tsvHeader_spec.2, List.map_map]
  congr 1
  refine List.map_congr_left fun d hd => ?_
  exact List.splitOn_intercalate '\t' (fun f hf => (h d hd f hf).1) (by simp)

/-- Rows that are read back as many as they are, with six fields each, have no tab and no line
feed. -/
theorem plain_of_tsvRows {ds : List Device} {rows : List (List (List Char))}
    (hrows : tsvRows (['\n'].intercalate (tsvHeader :: ds.map renderTsv)) = columnNames :: rows)
    (hlength : rows.length = ds.length) (hsix : ∀ row ∈ rows, row.length = 6) :
    ∀ d ∈ ds, d.Plain := by
  have hparts : tsvHeader :: ds.map renderTsv ≠ [] := List.cons_ne_nil _ _
  -- As many lines as parts: no line feed is left inside a part.
  have hlines : ∀ line ∈ tsvHeader :: ds.map renderTsv, '\n' ∉ line := by
    rw [← length_splitOn_intercalate hparts]
    have hcount := congrArg List.length hrows
    rw [tsvRows, List.length_map, List.length_cons, hlength] at hcount
    rw [hcount, List.length_cons, List.length_map]
  rw [tsvRows, List.splitOn_intercalate '\n' hlines hparts, List.map_cons] at hrows
  obtain ⟨-, rfl⟩ := List.cons.inj hrows
  intro d hd f hf
  have hmem : renderTsv d ∈ ds.map renderTsv := List.mem_map_of_mem hd
  constructor
  · exact (length_splitOn_renderTsv d).mp (hsix _ (List.mem_map_of_mem hmem)) f hf
  · exact (lf_notMem_renderTsv d).mp (hlines _ (List.mem_cons_of_mem _ hmem)) f hf

/-- The header and the rows of devices are read as their fields exactly when no field has a tab or a
line feed. -/
theorem tsvRows_rows_iff (ds : List Device) :
    tsvRows (['\n'].intercalate (tsvHeader :: ds.map renderTsv)) =
      columnNames :: ds.map Device.columns ↔ ∀ d ∈ ds, d.Plain := by
  refine ⟨fun h => plain_of_tsvRows h (List.length_map _) ?_, tsvRows_rows⟩
  intro row hrow
  obtain ⟨d, -, rfl⟩ := List.mem_map.mp hrow
  rfl

/-- Rows without tabs and line feeds in the TSV output of a table. -/
theorem tsvRows_tsvText (lib : Render) {t : DeviceTable} (h : ∀ d ∈ t.all, d.Plain)
    (showVersion color : Bool) :
    tsvRows (tsvText lib t showVersion color) = columnNames :: t.all.map Device.columns := by
  rw [tsvText, batchLines_tsv]
  exact tsvRows_rows h

/-- The TSV output has one row of six fields for each row of the table exactly when no field has a
tab or a line feed. -/
theorem sixFields_iff (lib : Render) (t : DeviceTable) (showVersion color : Bool) :
    SixFields lib t showVersion color ↔ ∀ d ∈ t.all, d.Plain := by
  constructor
  · rintro ⟨rows, hrows, hlength, hsix⟩
    rw [tsvText, batchLines_tsv] at hrows
    exact plain_of_tsvRows hrows hlength hsix
  · intro h
    refine ⟨t.all.map Device.columns, tsvRows_tsvText lib h showVersion color,
      List.length_map _, ?_⟩
    intro row hrow
    obtain ⟨d, -, rfl⟩ := List.mem_map.mp hrow
    rfl

/-- The TSV outputs of two tables have the rows of their tables, and differ whenever the tables do,
exactly when no field of either has a tab or a line feed. -/
theorem batchLines_tsv_iff (lib : Render) (g g' : Bool) (rs rs' : List Report)
    (showVersion color : Bool) :
    let t := ((DeviceTable.new g).run rs).1
    let t' := ((DeviceTable.new g').run rs').1
    (SixFields lib t showVersion color ∧ SixFields lib t' showVersion color ∧
      (t.all ≠ t'.all → tsvText lib t showVersion color ≠ tsvText lib t' showVersion color)) ↔
    (∀ d ∈ t.all, d.Plain) ∧ ∀ d ∈ t'.all, d.Plain := by
  intro t t'
  rw [sixFields_iff, sixFields_iff]
  constructor
  · rintro ⟨h, h', -⟩
    exact ⟨h, h'⟩
  · rintro ⟨h, h'⟩
    refine ⟨h, h', fun hne heq => hne ?_⟩
    have hrows := congrArg tsvRows heq
    rw [tsvRows_tsvText lib h, tsvRows_tsvText lib h'] at hrows
    exact List.map_injective_iff.mpr (fun _ _ => Device.columns_inj) (List.cons.inj hrows).2

/-- An Advantech answer from an address of the local network. -/
def exampleReport (lastOctet : UInt8) (deviceType : List Char) : Report :=
  ⟨⟨"Advantech".toList, 1, .v4 ⟨192, 168, 1, lastOctet⟩, "00:D0:C9:AA:BB:CC".toList, deviceType,
    "00:D0:C9:AA:BB:CC".toList⟩, true, false⟩

/-- A type with a line feed makes a second row, so that one device and two have the same text. -/
theorem tsvText_forged :
    let lib : Render := ⟨fun _ => [], fun s _ _ _ => s⟩
    let deviceType :=
      "X\t00:D0:C9:AA:BB:CC\nAdvantech\t1\t192.168.1.10\t00:D0:C9:AA:BB:CC\tY".toList
    let one := ((DeviceTable.new false).run [exampleReport 9 deviceType]).1
    let two := ((DeviceTable.new false).run
      [exampleReport 9 "X".toList, exampleReport 10 "Y".toList]).1
    ¬ SixFields lib one false false ∧ one.all ≠ two.all ∧
      tsvText lib one false false = tsvText lib two false false := by
  intro lib deviceType one two
  refine ⟨?_, by decide +kernel, by decide +kernel⟩
  rw [sixFields_iff]
  intro h
  have hall : one.all = [(exampleReport 9 deviceType).device] := by decide +kernel
  rw [hall] at h
  have hmem (d : Device) : d.deviceType ∈ d.columns := by simp [Device.columns]
  have hlf := (h _ List.mem_cons_self _ (hmem _)).2
  exact hlf (by decide +kernel)

end Uscan
