import Uscan.Devices
import Uscan.Lib.Csv
import Uscan.Protocols.Registry

/-!
# Rendering

`output.rs`: the header and the rows of the four output formats. The text of a JSON object and the
escape codes of a colour come from other libraries; `Render` stands for them, and nothing is assumed
of it. A row is never the header line (`renderRow_ne_header`): a CSV row starts with a quotation
mark, and a TSV row has the digits of its version.
-/

namespace Uscan

/-- `OutputFormat`. -/
inductive OutputFormat where
  | table
  | csv
  | json
  | tsv
  deriving DecidableEq, Repr

/-- A value in a JSON object of a device. -/
inductive JsonValue where
  /-- A text. -/
  | text (s : List Char)
  /-- A number. -/
  | number (n : ℕ)
  deriving DecidableEq, Repr

/-- What the rendering takes from other libraries. -/
structure Render where
  /-- The text of a JSON object. -/
  json : List (List Char × JsonValue) → List Char
  /-- A text in a colour. -/
  truecolor : List Char → UInt8 → UInt8 → UInt8 → List Char

/-- `CSV_HEADER`. -/
def csvHeader : List Char := "protocol,version,ip,mac,type,serial".toList

/-- `TSV_HEADER`. -/
def tsvHeader : List Char := "protocol\tversion\tip\tmac\ttype\tserial".toList

/-- `header`. -/
def header (format : OutputFormat) : Option (List Char) :=
  match format with
  | .csv => some csvHeader
  | .tsv => some tsvHeader
  | .json => none
  | .table => none

/-- A number as text. -/
def decimal (n : UInt32) : List Char := Nat.toDigits 10 n.toNat

/-- `render_csv`. Its closure `q` puts a field in quotation marks, and doubles those inside. -/
def renderCsv (d : Device) : List Char :=
  [','].intercalate
    [Csv.quote d.protocol, Csv.quote (decimal d.version), Csv.quote d.ip.text, Csv.quote d.mac,
      Csv.quote d.deviceType, Csv.quote d.serial]

/-- `render_tsv`. -/
def renderTsv (d : Device) : List Char :=
  ['\t'].intercalate [d.protocol, decimal d.version, d.ip.text, d.mac, d.deviceType, d.serial]

/-- `render_json`. -/
def renderJson (lib : Render) (d : Device) : List Char :=
  lib.json
    [("protocol".toList, .text d.protocol), ("version".toList, .number d.version.toNat),
      ("ip".toList, .text d.ip.text), ("mac".toList, .text d.mac),
      ("type".toList, .text d.deviceType), ("serial".toList, .text d.serial)]

/-- `protocol_color`: the colour of the last engine with the name, or white. -/
def protocolColor (name : List Char) : ℕ :=
  ((registry.reverse.find? fun x => x.2.name == name).map fun x => x.2.color).getD 0xFFFFFF

/-- Both engines of a name have the same colour, so that every engine has its own. -/
theorem protocolColor_name (e : Engine) : protocolColor e.name = e.color := by
  have hall : ∀ x ∈ registry, protocolColor x.2.name = x.2.color := by decide +kernel
  obtain ⟨id, hid⟩ := registry_complete e
  exact hall _ hid

/-- `colorize`. -/
def colorize (lib : Render) (s : List Char) (color : Bool) (rgb : ℕ) : List Char :=
  if !color then s
  else
    lib.truecolor s (UInt8.ofNat (rgb >>> 16 &&& 0xff)) (UInt8.ofNat (rgb >>> 8 &&& 0xff))
      (UInt8.ofNat (rgb &&& 0xff))

/-- `render_table`. -/
def renderTable (lib : Render) (d : Device) (showVersion color : Bool) : List Char :=
  let proto := colorize lib d.protocol color (protocolColor d.protocol)
  " | ".toList.intercalate
    (if showVersion then [proto, decimal d.version, d.ip.text, d.mac, d.deviceType, d.serial]
    else [proto, d.ip.text, d.mac, d.deviceType, d.serial])

/-- `render_row`. -/
def renderRow (lib : Render) (d : Device) (format : OutputFormat) (showVersion color : Bool) :
    List Char :=
  match format with
  | .csv => renderCsv d
  | .tsv => renderTsv d
  | .json => renderJson lib d
  | .table => renderTable lib d showVersion color

/-- `batch_lines`: the header and the rows of the table, in the order of discovery. -/
def batchLines (lib : Render) (table : DeviceTable) (format : OutputFormat)
    (showVersion color : Bool) : List (List Char) :=
  (header format).toList ++ table.all.map fun d => renderRow lib d format showVersion color

/-- A CSV row starts with a quotation mark. -/
theorem head?_renderCsv (d : Device) : (renderCsv d).head? = some '"' := rfl

/-- A TSV row has the digits of its version. -/
theorem exists_digit_of_renderTsv (d : Device) : ∃ c ∈ renderTsv d, c.isDigit = true := by
  obtain ⟨c, hc⟩ := List.exists_mem_of_ne_nil (decimal d.version) Nat.toDigits_ne_nil
  have hdigit : c.isDigit = true := Nat.isDigit_of_mem_toDigits (by decide) (by decide) hc
  refine ⟨c, ?_, hdigit⟩
  simp [renderTsv, List.intercalate, List.intersperse, hc]

/-- A row is never the header line. -/
theorem renderRow_ne_header {lib : Render} {d : Device} {format : OutputFormat}
    {showVersion color : Bool} {h : List Char} (hh : header format = some h) :
    renderRow lib d format showVersion color ≠ h := by
  intro heq
  cases format with
  | csv =>
    cases hh
    have hhead : csvHeader.head? = some '"' := heq ▸ head?_renderCsv d
    exact absurd hhead (by decide +kernel)
  | tsv =>
    cases hh
    have hdigit : tsvHeader.any Char.isDigit = true :=
      List.any_eq_true.mpr (heq ▸ exists_digit_of_renderTsv d)
    exact absurd hdigit (by decide +kernel)
  | json => cases hh
  | table => cases hh

end Uscan
