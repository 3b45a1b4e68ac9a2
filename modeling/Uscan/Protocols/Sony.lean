import Uscan.Lib.LastWins
import Uscan.Lib.Split
import Uscan.Protocols.Common
import Uscan.Protocols.Requests

/-!
# Sony

An answer is a list of lines between two markers, each line closed by a third one. `Sony::parse`
cuts the lines with the index of the last marker in the packet and the index of the byte in the part
between the outer markers; the first one is always the length of what has been cut, less the start
marker (`cutLines_eq`). The lines with one colon are keys and values, and the last line of a key
counts.
-/

namespace Uscan.Sony

/-- `MARKER_START`. -/
def markerStart : UInt8 := 0x02

/-- `MARKER_END`. -/
def markerEnd : UInt8 := 0x03

/-- `MARKER_EOS`. -/
def markerEos : UInt8 := 0xFF

/-- The first loop of `parse`, at the byte `i` of the part between the markers: the lines. -/
def cutLines (data : List UInt8) : List UInt8 → ℕ → ℕ → Res Empty (List (List Char))
  | [], _, _ => .ok []
  | b :: rest, i, lastMarker =>
    if b = markerEos then do
      -- The indices count from the start marker: the byte `i` of the part is the byte `i + 1`.
      let line ← subslice data (lastMarker + 1) (i + 1)
      let lines ← cutLines data rest (i + 1) (i + 1)
      return fromUtf8Lossy line :: lines
    else cutLines data rest (i + 1) lastMarker

/-- The values of an answer. -/
structure Values where
  /-- The model. -/
  model : Option (List Char)
  /-- The serial number. -/
  serial : Option (List Char)
  /-- The hardware address. -/
  mac : Option (List Char)
  /-- The address. -/
  ipadr : Option (List Char)
  deriving DecidableEq, Repr

/-- The body of the second loop of `parse`. `splitn` gives two parts exactly if there is one
colon. -/
def readLine (v : Values) (line : List Char) : Values :=
  match line.splitOn ':' with
  | [name, value] =>
    let key := trim (name.map toAsciiLowercase)
    if key = "model".toList then { v with model := some value }
    else if key = "serial".toList then { v with serial := some value }
    else if key = "mac".toList then { v with mac := some value }
    else if key = "ipadr".toList then { v with ipadr := some value }
    else v
  | _ => v

/-- The device of an answer, if it has a model and an address. -/
def devices (src : SocketAddr) (v : Values) : List Device :=
  match v.ipadr, v.model with
  | some ipadr, some model =>
    [{
      protocol := "Sony".toList
      version := 1
      ip := (parseIpAddr ipadr).getD src.ip
      mac := v.mac.elim [] normalizeMac
      deviceType := model
      serial := (v.serial <|> v.mac).getD "unkonwn".toList }]
  | _, _ => []

/-- `Sony::parse`. -/
def parse (src : SocketAddr) (data : List UInt8) : Res Empty (List Device) :=
  if data.length < 2 then .ok []
  else do
    let first ← index data 0
    let last ← index data (data.length - 1)
    if first ≠ markerStart ∨ last ≠ markerEnd then return []
    else
      let body ← subslice data 1 (data.length - 1)
      let lines ← cutLines data body 0 0
      return devices src (lines.foldl readLine ⟨none, none, none, none⟩)

/-! ## The lines -/

/-- `sony_frame`: lines between the markers. -/
def frame (lines : List (List UInt8)) : List UInt8 :=
  markerStart :: lines.flatMap (· ++ [markerEos]) ++ [markerEnd]

/-- After the part `u` of a packet and the part `cur` of a line, the loop cuts that line and those
of the rest. What stands after the last marker is no line. -/
theorem cutLines_eq (a : UInt8) (u cur rest tail : List UInt8) (hcur : markerEos ∉ cur) :
    cutLines (a :: u ++ (cur ++ (rest ++ tail))) rest (u.length + cur.length) u.length =
      .ok (((cur ++ rest).splitOn markerEos).dropLast.map fromUtf8Lossy) := by
  induction rest generalizing u cur with
  | nil => rw [cutLines, List.append_nil, List.splitOn_eq_singleton hcur]; rfl
  | cons b rest ih =>
    unfold cutLines
    split_ifs with hb
    · -- The line ends here, and the next one starts.
      have hline := subslice_append (ε := Empty) (a :: u) cur (b :: rest ++ tail)
      have hrest := ih (u ++ (cur ++ [b])) [] List.not_mem_nil
      have hlen : (u ++ (cur ++ [b])).length = u.length + cur.length + 1 := by simp; omega
      have hpacket : a :: (u ++ (cur ++ [b])) ++ ([] ++ (rest ++ tail)) =
          a :: u ++ (cur ++ (b :: rest ++ tail)) := by simp
      rw [hpacket, hlen, List.length_nil, Nat.add_zero, List.nil_append] at hrest
      rw [List.length_cons, Nat.add_right_comm] at hline
      rw [hline, Res.ok_bind, hrest, Res.ok_bind, hb, List.splitOn_append_cons_self,
        List.splitOn_eq_singleton hcur, List.singleton_append,
        List.dropLast_cons_of_ne_nil (List.splitOn_ne_nil _ _), List.map_cons]
      rfl
    · -- Any other byte belongs to the line.
      have hcur' : markerEos ∉ cur ++ [b] := by simp [hcur, Ne.symm hb]
      have hrest := ih u (cur ++ [b]) hcur'
      rw [List.length_append, List.length_singleton, ← Nat.add_assoc, List.append_assoc cur,
        List.append_assoc cur, List.singleton_append, List.singleton_append] at hrest
      exact hrest

/-- In a packet between the markers, the loop cuts the lines that are closed. -/
theorem readPacket_eq (body : List UInt8) :
    cutLines (markerStart :: body ++ [markerEnd]) body 0 0 =
      .ok ((body.splitOn markerEos).dropLast.map fromUtf8Lossy) :=
  cutLines_eq markerStart [] [] body [markerEnd] List.not_mem_nil

/-- Closed lines are cut apart again. -/
theorem splitOn_lines {lines : List (List UInt8)} (h : ∀ line ∈ lines, markerEos ∉ line) :
    (lines.flatMap (· ++ [markerEos])).splitOn markerEos = lines ++ [[]] := by
  induction lines with
  | nil => rfl
  | cons line lines ih =>
    have hlines := ih fun l hl => h l (List.mem_cons_of_mem _ hl)
    rw [List.flatMap_cons, List.append_assoc, List.singleton_append,
      List.splitOn_append_cons_self, List.splitOn_eq_singleton (h line List.mem_cons_self), hlines,
      List.singleton_append, List.cons_append]

/-! ## The values -/

/-- The key and the value of a line with one colon. -/
def lineEntry (line : List Char) : Option (List Char × List Char) :=
  match line.splitOn ':' with
  | [name, value] => some (trim (name.map toAsciiLowercase), value)
  | _ => none

/-- What a line does to a value: it replaces it if it has its key. -/
theorem readLine_eq (v : Values) (line : List Char) :
    readLine v line =
      ⟨(valueFor lineEntry "model".toList line).or v.model,
        (valueFor lineEntry "serial".toList line).or v.serial,
        (valueFor lineEntry "mac".toList line).or v.mac,
        (valueFor lineEntry "ipadr".toList line).or v.ipadr⟩ := by
  unfold readLine valueFor lineEntry
  split
  · next name value _ =>
    dsimp only [Option.bind_some]
    generalize trim (name.map toAsciiLowercase) = key
    -- The keys are different from each other.
    by_cases hmodel : key = "model".toList
    · subst hmodel
      rfl
    by_cases hserial : key = "serial".toList
    · subst hserial
      rfl
    by_cases hmac : key = "mac".toList
    · subst hmac
      rfl
    by_cases hipadr : key = "ipadr".toList
    · subst hipadr
      rfl
    · simp only [if_neg hmodel, if_neg hserial, if_neg hmac, if_neg hipadr, Option.none_or]
  · rfl

/-- The values after all lines are those of the last line of each key. -/
theorem foldl_readLine (lines : List (List Char)) :
    lines.foldl readLine ⟨none, none, none, none⟩ =
      ⟨lastValue lineEntry lines "model".toList, lastValue lineEntry lines "serial".toList,
        lastValue lineEntry lines "mac".toList, lastValue lineEntry lines "ipadr".toList⟩ := by
  have hfield (key : List Char) (get : Values → Option (List Char))
      (hstep : ∀ v line, get (readLine v line) = (valueFor lineEntry key line).or (get v)) :
      get (lines.foldl readLine ⟨none, none, none, none⟩) =
        (lastValue lineEntry lines key).or (get ⟨none, none, none, none⟩) :=
    foldl_eq_lastValue get hstep lines _
  have hmodel := hfield "model".toList Values.model fun v line => by rw [readLine_eq]
  have hserial := hfield "serial".toList Values.serial fun v line => by rw [readLine_eq]
  have hmac := hfield "mac".toList Values.mac fun v line => by rw [readLine_eq]
  have hipadr := hfield "ipadr".toList Values.ipadr fun v line => by rw [readLine_eq]
  rw [Option.or_none] at hmodel hserial hmac hipadr
  rw [← hmodel, ← hserial, ← hmac, ← hipadr]

/-- A packet between the markers is read line by line. -/
theorem parse_between (src : SocketAddr) (body : List UInt8) :
    parse src (markerStart :: body ++ [markerEnd]) = .ok (devices src
      (((body.splitOn markerEos).dropLast.map fromUtf8Lossy).foldl readLine
        ⟨none, none, none, none⟩)) := by
  have hbody := subslice_append (ε := Empty) [markerStart] body [markerEnd]
  have hlen : (markerStart :: body ++ [markerEnd]).length - 1 = body.length + 1 := by simp
  have hlast : (markerStart :: body ++ [markerEnd])[body.length + 1]? = some markerEnd := by simp
  have hfirst : (markerStart :: body ++ [markerEnd])[0]? = some markerStart := rfl
  rw [List.length_singleton, Nat.add_comm 1, List.singleton_append, ← List.cons_append] at hbody
  unfold parse
  rw [if_neg (by simp), index_of_getElem? hfirst, Res.ok_bind, hlen, index_of_getElem? hlast,
    Res.ok_bind, if_neg (by simp), hbody, Res.ok_bind, readPacket_eq, Res.ok_bind]
  rfl

/-- `Sony::parse` returns. -/
theorem parse_ok (src : SocketAddr) (data : List UInt8) :
    ∃ devs, parse src data = .ok devs := by
  by_cases hlen : data.length < 2
  · exact ⟨[], if_pos hlen⟩
  · -- The packet has two ends and a part between them.
    obtain ⟨first, rest, rfl⟩ := List.exists_cons_of_length_pos (show 0 < data.length by omega)
    obtain ⟨body, last, rfl⟩ : ∃ body last, rest = body ++ [last] := by
      rcases List.eq_nil_or_concat rest with rfl | ⟨body, last, rfl⟩
      · simp at hlen
      · exact ⟨body, last, List.concat_eq_append⟩
    by_cases hmarkers : first = markerStart ∧ last = markerEnd
    · obtain ⟨rfl, rfl⟩ := hmarkers
      exact ⟨_, parse_between src body⟩
    · have hlast : (first :: (body ++ [last]))[body.length + 1]? = some last := by simp
      have hend : (first :: (body ++ [last])).length - 1 = body.length + 1 := by simp
      refine ⟨[], ?_⟩
      unfold parse
      rw [if_neg hlen, index_of_getElem? (c := first) rfl, Res.ok_bind, hend,
        index_of_getElem? hlast, Res.ok_bind, if_pos (by rwa [← not_and_or])]
      rfl

/-- The value of the last line with a key. -/
def lastLine (lines : List (List UInt8)) (key : String) : Option (List Char) :=
  lastValue lineEntry (lines.map fromUtf8Lossy) key.toList

/-- Some line has the key. -/
def HasKey (lines : List (List UInt8)) (key : String) : Prop :=
  ∃ line ∈ lines, ∃ value, lineEntry (fromUtf8Lossy line) = some (key.toList, value)

/-- There is a last line with a key exactly if there is a line with it. -/
theorem lastLine_ne_none_iff {lines : List (List UInt8)} {key : String} :
    lastLine lines key ≠ none ↔ HasKey lines key := by
  simp only [lastLine, lastValue_ne_none_iff, HasKey, List.mem_map, exists_exists_and_eq_and]

/-- For every list of lines without the marker that closes them, the answer is read back line by
line: a device is reported exactly if there are an address and a model, with the values of the last
line of each key. For every packet, the parser returns. -/
theorem parse_frame (src : SocketAddr) (lines : List (List UInt8))
    (h : ∀ line ∈ lines, markerEos ∉ line) (data : List UInt8) :
    (parse src (frame lines) ≠ .ok [] ↔ HasKey lines "ipadr" ∧ HasKey lines "model") ∧
      (∀ ipadr model, lastLine lines "ipadr" = some ipadr → lastLine lines "model" = some model →
        parse src (frame lines) = .ok [{
          protocol := "Sony".toList
          version := 1
          ip := (parseIpAddr ipadr).getD src.ip
          mac := (lastLine lines "mac").elim [] normalizeMac
          deviceType := model
          serial := (lastLine lines "serial" <|> lastLine lines "mac").getD "unkonwn".toList }]) ∧
      ∃ devs, parse src data = .ok devs := by
  have hparse : parse src (frame lines) = .ok (devices src
      ⟨lastLine lines "model", lastLine lines "serial", lastLine lines "mac",
        lastLine lines "ipadr"⟩) := by
    rw [frame, parse_between, splitOn_lines h, List.dropLast_concat, foldl_readLine]
    rfl
  refine ⟨?_, ?_, parse_ok src data⟩
  · rw [hparse, ← lastLine_ne_none_iff, ← lastLine_ne_none_iff]
    -- Both values are needed, and nothing else.
    unfold devices
    cases lastLine lines "ipadr" <;> cases lastLine lines "model" <;> simp
  · intro ipadr model hipadr hmodel
    rw [hparse, hipadr, hmodel]
    rfl

/-- Lines with two models, and an address that is none. -/
def twoModels : List (List UInt8) :=
  [utf8 "MODEL:a".toList, utf8 " Model :b".toList, utf8 "IPADR:x".toList]

/-- The last model counts, and the address is that of the sender. -/
theorem parse_frame_twoModels :
    (∀ line ∈ twoModels, markerEos ∉ line) ∧
      parse ⟨.v4 .unspecified, 2380⟩ (frame twoModels) = .ok [{
        protocol := "Sony".toList
        version := 1
        ip := .v4 .unspecified
        mac := []
        deviceType := "b".toList
        serial := "unkonwn".toList }] := by
  have hlines : ∀ line ∈ twoModels, markerEos ∉ line := by decide
  have hlast (key : String) : lastLine twoModels key =
      lastValue lineEntry ["MODEL:a".toList, " Model :b".toList, "IPADR:x".toList] key.toList := by
    simp only [lastLine, twoModels, List.map_cons, List.map_nil, fromUtf8Lossy_utf8]
  refine ⟨hlines, ?_⟩
  rw [(parse_frame _ twoModels hlines []).2.1 "x".toList "b".toList (by rw [hlast]; decide)
    (by rw [hlast]; decide), hlast, hlast]
  decide

end Uscan.Sony
