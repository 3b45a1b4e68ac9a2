import Uscan.Lib.Interleave
import Uscan.Mdns.Report
import Uscan.Mdns.Wire
import Uscan.Protocols.Common

/-!
# The devices of an mDNS answer

`axis_convert`, `arecont_convert`, and `googlecast_convert`: each goes over the records of an answer
once and fills slots from them, and then makes devices of the slots. Axis and Google Cast give up on
a text record without strings, in the middle of the loop.

A device orders the records of an answer as it likes. What one record does to the slots does not
depend on records of another kind, and so the devices do not depend on how the kinds are interleaved
(`convert_interleaved`).
-/

namespace Uscan

open Mdns

/-- The part of a name before its first dot. -/
def firstLabel (name : List Char) : List Char := (name.splitOn '.').headD name

/-! ## Axis -/

namespace Axis

/-- The variables of the loop of `axis_convert`. -/
structure Slots where
  /-- The addresses, in order. -/
  addresses : List IpAddr := []
  /-- The model, from the first name. -/
  model : Option (List Char) := none
  /-- The serial number, from the first text record. -/
  serial : Option (List Char) := none
  /-- The hardware address, from the first text record that has one. -/
  mac : Option (List Char) := none
  deriving DecidableEq, Repr

/-- The value of the first string with the key `macaddress`, in any case. -/
def macAddress : List (List Char) → Option (List Char)
  | [] => none
  | e :: rest =>
    match splitOnce '=' e with
    | some (k, v) =>
      if eqIgnoreAsciiCase (trim k) "macaddress".toList then some (trim v) else macAddress rest
    | none => macAddress rest

/-- What a text record does to the slots. The first one must have a string. -/
def visitTxt (s : Slots) (txt : List (List Char)) : Option Slots :=
  let s := if s.mac.isNone then { s with mac := macAddress txt } else s
  if s.serial.isNone then
    match txt with
    | [] => none
    | first :: _ => some { s with serial := some (((splitOnce '=' first).map (·.2)).getD first) }
  else some s

/-- The body of the loop of `axis_convert`, which ends it with no devices where it is `none`. -/
def visit (s : Slots) (answer : MdnsAnswer) : Option Slots :=
  match answer.data with
  | .a ip => some { s with addresses := s.addresses ++ [ip] }
  | .aaaa ip => some { s with addresses := s.addresses ++ [ip] }
  | .ptr n => some (if s.model.isNone then { s with model := some (firstLabel n) } else s)
  | .txt txt => visitTxt s txt
  | .srv .. => some s

/-- The parts of a model before and after its first dash between blanks, if it has one. -/
def splitDash (model : List Char) : Res Empty (List Char × Option (List Char)) :=
  match strFind " - ".toList model with
  | some pos => do
    let after ← strFrom model (pos + byteLen " - ".toList)
    let before ← strSlice model 0 pos
    return (trim before, some (trim after))
  | none => .ok (model, none)

/-- The rest of `axis_convert`, after its loop. The end of a model with a dash stands in for a
serial number that is missing, and then for a hardware address. -/
def finish (s : Slots) (cfg : Config) : Res Empty (List Device) :=
  if s.addresses = [] then .ok []
  else do
    let (model, after) ← splitDash (s.model.getD "unknown".toList)
    let dashSerial := if s.serial.isNone then after else none
    return reportAddresses "Axis".toList 1 s.addresses model
      ((s.serial <|> dashSerial).getD "unknown".toList)
      (((s.mac <|> dashSerial).map normalizeMac).getD []) cfg

/-- `axis_convert`. -/
def axisConvert (answers : List MdnsAnswer) (cfg : Config) : Res Empty (List Device) :=
  match answers.foldlM visit {} with
  | some s => finish s cfg
  | none => .ok []

end Axis

/-! ## Arecont -/

namespace Arecont

/-- The variables of the loop of `arecont_convert`. -/
structure Slots where
  /-- The addresses, in order. -/
  addresses : List IpAddr := []
  /-- The model, from the first name. -/
  model : Option (List Char) := none
  /-- The variables of the text records, the first one of each name. -/
  vars : List (List Char × List Char) := []
  deriving DecidableEq, Repr

/-- A string of a text record. -/
def addVariable (vars : List (List Char × List Char)) (entry : List Char) :
    List (List Char × List Char) :=
  match splitOnce '=' entry with
  | some (name, value) =>
    if vars.any (·.1 == name) then vars else vars ++ [(name, value)]
  | none => vars

/-- The body of the loop of `arecont_convert`. -/
def visit (s : Slots) (answer : MdnsAnswer) : Slots :=
  match answer.data with
  | .a ip => { s with addresses := s.addresses ++ [ip] }
  | .aaaa ip => { s with addresses := s.addresses ++ [ip] }
  | .ptr n => if s.model.isNone then { s with model := some (firstLabel n) } else s
  | .txt txt => { s with vars := txt.foldl addVariable s.vars }
  | .srv .. => s

/-- The first method of `arecont_convert`: a model with a dash is a model and a serial number. -/
def splitModel (model : List Char) : Res Empty (List Char × Option (List Char)) :=
  match strFind ['-'] model with
  | some pos => do
    let after ← strFrom model (pos + 1)
    let before ← strSlice model 0 pos
    return (trim before, some (trim after))
  | none => .ok (model, none)

/-- The part of the variable `MAC` after its slash is the end of a model. -/
def slashModel (mac model : List Char) : Res Empty (List Char) :=
  match strFind ['/'] mac with
  | some slash => do
    let after ← strFrom mac (slash + 1)
    return 'A' :: 'V' :: after
  | none => .ok model

/-- Where there is no serial number, the part of the variable `MAC` before its dash becomes the
model, and not the serial number. -/
def dashModel (mac model : List Char) (serial : Option (List Char)) : Res Empty (List Char) :=
  match serial, strFind ['-'] mac with
  | none, some dash => strSlice mac 0 dash
  | _, _ => .ok model

/-- The second method of `arecont_convert`, with the variable `MAC`. -/
def macModel (vars : List (List Char × List Char)) (model : List Char)
    (serial : Option (List Char)) : Res Empty (List Char) :=
  match vars.find? (·.1 == "MAC".toList) with
  | some (_, mac) => do
    let model ← slashModel mac model
    dashModel mac model serial
  | none => .ok model

/-- The rest of `arecont_convert`, after its loop. -/
def finish (s : Slots) (cfg : Config) : Res Empty (List Device) :=
  if s.addresses = [] then .ok []
  else do
    let (model, serial) ← splitModel (s.model.getD "unknown".toList)
    let model ← macModel s.vars model serial
    return reportAddresses "Arecont".toList 1 s.addresses model
      ((serial.map (strReplace "AV".toList "001A07".toList)).getD []) [] cfg

/-- `arecont_convert`. -/
def arecontConvert (answers : List MdnsAnswer) (cfg : Config) : Res Empty (List Device) :=
  finish (answers.foldl visit {}) cfg

end Arecont

/-! ## Google Cast -/

namespace GoogleCast

/-- The variables of the loop of `googlecast_convert`. -/
structure Slots where
  /-- The first IPv4 address. -/
  ipv4 : Option IpAddr := none
  /-- The first IPv6 address. -/
  ipv6 : Option IpAddr := none
  /-- The type. -/
  deviceType : List Char := "unknown".toList
  /-- The name. -/
  deviceId : List Char := "unknown".toList
  deriving DecidableEq, Repr

/-- A string of a text record, which counts if it has just one equals sign. -/
def visitEntry (s : Slots) (entry : List Char) : Slots :=
  match entry.splitOn '=' with
  | [k, v] =>
    if trim k = "fn".toList then { s with deviceId := trim v }
    else if trim k = "md".toList then { s with deviceType := trim v }
    else s
  | _ => s

/-- What a text record does to the slots. It must have a string. -/
def visitTxt (s : Slots) : List (List Char) → Option Slots
  | [] => none
  | first :: rest => some (if first.contains '=' then (first :: rest).foldl visitEntry s else s)

/-- The body of the loop of `googlecast_convert`, which ends it with no devices where it is
`none`. -/
def visit (s : Slots) (answer : MdnsAnswer) : Option Slots :=
  match answer.data with
  | .a ip => some (if s.ipv4.isNone then { s with ipv4 := some ip } else s)
  | .aaaa ip => some (if s.ipv6.isNone then { s with ipv6 := some ip } else s)
  | .txt txt => visitTxt s txt
  | .ptr _ => some s
  | .srv .. => some s

/-- A device of this engine. -/
def device (s : Slots) (ip : IpAddr) : Device :=
  ⟨"Google".toList, 1, ip, [], s.deviceType, s.deviceId⟩

/-- `googlecast_convert`. -/
def googlecastConvert (answers : List MdnsAnswer) : List Device :=
  match answers.foldlM visit {} with
  | some s => (s.ipv4.toList ++ s.ipv6.toList).map (device s)
  | none => []

end GoogleCast

/-! ## Totality -/

/-- A model is split at a dash without a panic. -/
theorem Axis.splitDash_ok (model : List Char) : ∃ parts, splitDash model = .ok parts := by
  unfold splitDash
  cases hfind : strFind " - ".toList model with
  | none => exact ⟨_, rfl⟩
  | some pos =>
    obtain ⟨u, w, -, hbefore, hafter⟩ := exists_cut_of_strFind (ε := Empty) hfind
    refine ⟨(trim u, some (trim w)), ?_⟩
    simp only [hbefore, hafter, Res.ok_bind, Res.pure_eq]

/-- `axis_convert` returns. -/
theorem Axis.axisConvert_ok (answers : List MdnsAnswer) (cfg : Config) :
    ∃ devs, axisConvert answers cfg = .ok devs := by
  unfold axisConvert
  cases answers.foldlM visit {} with
  | none => exact ⟨[], rfl⟩
  | some s =>
    obtain ⟨⟨model, after⟩, hsplit⟩ := splitDash_ok (s.model.getD "unknown".toList)
    dsimp only
    unfold finish
    by_cases haddresses : s.addresses = []
    · exact ⟨[], if_pos haddresses⟩
    · simp only [if_neg haddresses, hsplit, Res.ok_bind]
      exact ⟨_, rfl⟩

/-- A model is split at a dash without a panic. -/
theorem Arecont.splitModel_ok (model : List Char) : ∃ parts, splitModel model = .ok parts := by
  unfold splitModel
  cases hfind : strFind ['-'] model with
  | none => exact ⟨_, rfl⟩
  | some pos =>
    obtain ⟨u, w, -, hbefore, hafter⟩ := exists_cut_of_strFind (ε := Empty) hfind
    have hone : byteLen ['-'] = 1 := rfl
    refine ⟨(trim u, some (trim w)), ?_⟩
    rw [hone] at hafter
    simp only [hbefore, hafter, Res.ok_bind, Res.pure_eq]

/-- The variable `MAC` is cut without a panic. -/
theorem Arecont.macModel_ok (vars : List (List Char × List Char)) (model : List Char)
    (serial : Option (List Char)) : ∃ model', macModel vars model serial = .ok model' := by
  have hone : byteLen ['/'] = 1 := rfl
  have hslash (mac : List Char) : ∃ model', slashModel mac model = .ok model' := by
    unfold slashModel
    cases hfind : strFind ['/'] mac with
    | none => exact ⟨_, rfl⟩
    | some slash =>
      obtain ⟨u, w, -, -, hafter⟩ := exists_cut_of_strFind (ε := Empty) hfind
      rw [hone] at hafter
      exact ⟨'A' :: 'V' :: w, by simp only [hafter, Res.ok_bind, Res.pure_eq]⟩
  have hdash (mac model : List Char) : ∃ model', dashModel mac model serial = .ok model' := by
    unfold dashModel
    split
    · next dash hfind =>
      obtain ⟨u, w, -, hbefore, -⟩ := exists_cut_of_strFind (ε := Empty) hfind
      exact ⟨u, hbefore⟩
    · exact ⟨_, rfl⟩
  unfold macModel
  split
  · next mac _ =>
    obtain ⟨model', hmodel⟩ := hslash mac
    rw [hmodel, Res.ok_bind]
    exact hdash mac model'
  · exact ⟨_, rfl⟩

/-- `arecont_convert` returns. -/
theorem Arecont.arecontConvert_ok (answers : List MdnsAnswer) (cfg : Config) :
    ∃ devs, arecontConvert answers cfg = .ok devs := by
  unfold arecontConvert finish
  obtain ⟨⟨model, serial⟩, hsplit⟩ :=
    splitModel_ok ((answers.foldl visit {}).model.getD "unknown".toList)
  obtain ⟨model', hmac⟩ := macModel_ok (answers.foldl visit {}).vars model serial
  split_ifs
  · exact ⟨[], rfl⟩
  · simp only [hsplit, hmac, Res.ok_bind]
    exact ⟨_, rfl⟩

/-! ## Interleavings -/

/-- The kinds of records that a converter may look at. -/
inductive RecordKind where
  /-- An address, of either family. -/
  | address
  /-- A name. -/
  | ptr
  /-- A text record. -/
  | txt
  deriving DecidableEq, Repr

/-- The kind of a record. -/
def recordKind (answer : MdnsAnswer) : Option RecordKind :=
  match answer.data with
  | .a _ => some .address
  | .aaaa _ => some .address
  | .ptr _ => some .ptr
  | .txt _ => some .txt
  | .srv .. => none

/-- The records of a kind. -/
def recordsOf (kind : RecordKind) (answers : List MdnsAnswer) : List MdnsAnswer :=
  answers.filter fun answer => recordKind answer = some kind

/-- A record of the kind of `i` comes before one of the kind of `j` in the list of kinds. -/
inductive KindsBefore (i j : MdnsAnswer) : Prop where
  /-- An address and a name. -/
  | addressPtr (hi : recordKind i = some .address) (hj : recordKind j = some .ptr)
  /-- An address and a text record. -/
  | addressTxt (hi : recordKind i = some .address) (hj : recordKind j = some .txt)
  /-- A name and a text record. -/
  | ptrTxt (hi : recordKind i = some .ptr) (hj : recordKind j = some .txt)

/-- Two records of different kinds are in the order of the list of kinds, or the other way round. -/
theorem kindsBefore_or {i j : MdnsAnswer} (hi : recordKind i ≠ none) (hj : recordKind j ≠ none)
    (hne : recordKind i ≠ recordKind j) : KindsBefore i j ∨ KindsBefore j i := by
  obtain ⟨ki, hki⟩ := Option.ne_none_iff_exists'.mp hi
  obtain ⟨kj, hkj⟩ := Option.ne_none_iff_exists'.mp hj
  rw [hki, hkj] at hne
  cases ki with
  | address =>
    cases kj with
    | address => exact absurd rfl hne
    | ptr => exact .inl (.addressPtr hki hkj)
    | txt => exact .inl (.addressTxt hki hkj)
  | ptr =>
    cases kj with
    | address => exact .inr (.addressPtr hkj hki)
    | ptr => exact absurd rfl hne
    | txt => exact .inl (.ptrTxt hki hkj)
  | txt =>
    cases kj with
    | address => exact .inr (.addressTxt hkj hki)
    | ptr => exact .inr (.ptrTxt hkj hki)
    | txt => exact absurd rfl hne

/-- Steps change places if they do so in the order of the list of kinds. -/
theorem commutes_of_kindsBefore {σ : Type} {m : Type → Type} [Monad m] {step : σ → MdnsAnswer → m σ}
    (hswap : ∀ s i j, KindsBefore i j →
      (step s i >>= fun s => step s j) = (step s j >>= fun s => step s i))
    (hskip : ∀ s i, recordKind i = none → step s i = pure s) : Commutes recordKind step where
  swap s i j hi hj hne :=
    (kindsBefore_or hi hj hne).elim (hswap s i j) fun h => (hswap s j i h).symm
  skip := hskip

/-- The data of a record of each kind. -/
theorem data_of_recordKind (answer : MdnsAnswer) :
    match recordKind answer with
    | some .address => ∃ ip, answer.data = .a ip ∨ answer.data = .aaaa ip
    | some .ptr => ∃ n, answer.data = .ptr n
    | some .txt => ∃ txt, answer.data = .txt txt
    | none => ∃ priority weight port target, answer.data = .srv priority weight port target := by
  unfold recordKind
  cases answer.data with
  | a ip => exact ⟨ip, .inl rfl⟩
  | aaaa ip => exact ⟨ip, .inr rfl⟩
  | ptr n => exact ⟨n, rfl⟩
  | txt txt => exact ⟨txt, rfl⟩
  | srv priority weight port target => exact ⟨priority, weight, port, target, rfl⟩

/-- The data of an address record. -/
theorem exists_address {answer : MdnsAnswer} (h : recordKind answer = some .address) :
    ∃ ip, answer.data = .a ip ∨ answer.data = .aaaa ip := by
  have hdata := data_of_recordKind answer
  rwa [h] at hdata

/-- The data of a name record. -/
theorem exists_ptr {answer : MdnsAnswer} (h : recordKind answer = some .ptr) :
    ∃ n, answer.data = .ptr n := by
  have hdata := data_of_recordKind answer
  rwa [h] at hdata

/-- The data of a text record. -/
theorem exists_txt {answer : MdnsAnswer} (h : recordKind answer = some .txt) :
    ∃ txt, answer.data = .txt txt := by
  have hdata := data_of_recordKind answer
  rwa [h] at hdata

/-- The data of a record of no kind. -/
theorem exists_srv {answer : MdnsAnswer} (h : recordKind answer = none) :
    ∃ priority weight port target, answer.data = .srv priority weight port target := by
  have hdata := data_of_recordKind answer
  rwa [h] at hdata

/-! ### Axis -/

namespace Axis

/-- An address is put after the others. -/
theorem visit_address {answer : MdnsAnswer} (h : recordKind answer = some .address) :
    ∃ ip, ∀ s, visit s answer = some { s with addresses := s.addresses ++ [ip] } := by
  obtain ⟨ip, hdata | hdata⟩ := exists_address h <;>
    exact ⟨ip, fun s => by rw [visit, hdata]⟩

/-- The first name becomes the model. -/
theorem visit_ptr {answer : MdnsAnswer} (h : recordKind answer = some .ptr) :
    ∃ n, ∀ s, visit s answer = some { s with model := s.model.or (some (firstLabel n)) } := by
  obtain ⟨n, hdata⟩ := exists_ptr h
  refine ⟨n, fun s => ?_⟩
  obtain ⟨_, _ | model, _, _⟩ := s <;> simp only [visit, hdata] <;> rfl

/-- A text record does not look at the addresses and at the model. -/
theorem visitTxt_slots (f : List IpAddr → List IpAddr)
    (g : Option (List Char) → Option (List Char)) (s : Slots) (txt : List (List Char)) :
    visitTxt { s with addresses := f s.addresses, model := g s.model } txt =
      (visitTxt s txt).map fun s => { s with addresses := f s.addresses, model := g s.model } := by
  obtain ⟨_, _, serial, mac⟩ := s
  cases serial <;> cases mac <;> cases txt <;> rfl

/-- Records of different kinds fill different slots. -/
theorem commutes_visit : Commutes recordKind visit := by
  refine commutes_of_kindsBefore (fun s i j hkinds => ?_) fun s i hi => ?_
  · cases hkinds with
    | addressPtr hi hj =>
      obtain ⟨ip, hip⟩ := visit_address hi
      obtain ⟨n, hn⟩ := visit_ptr hj
      simp only [hip, hn, Option.bind_eq_bind, Option.bind_some]
    | addressTxt hi hj =>
      obtain ⟨ip, hip⟩ := visit_address hi
      obtain ⟨txt, hdata⟩ := exists_txt hj
      have htxt (s : Slots) : visit s j = visitTxt s txt := by rw [visit, hdata]
      simp only [hip, htxt]
      exact (visitTxt_slots (· ++ [ip]) id s txt).trans (Option.map_eq_bind ..)
    | ptrTxt hi hj =>
      obtain ⟨n, hn⟩ := visit_ptr hi
      obtain ⟨txt, hdata⟩ := exists_txt hj
      have htxt (s : Slots) : visit s j = visitTxt s txt := by rw [visit, hdata]
      simp only [hn, htxt]
      exact (visitTxt_slots id (·.or (some (firstLabel n))) s txt).trans (Option.map_eq_bind ..)
  · obtain ⟨_, _, _, _, hdata⟩ := exists_srv hi
    rw [visit, hdata]
    rfl

end Axis

/-! ### Arecont -/

namespace Arecont

/-- An address is put after the others. -/
theorem visit_address {answer : MdnsAnswer} (h : recordKind answer = some .address) :
    ∃ ip, ∀ s, visit s answer = { s with addresses := s.addresses ++ [ip] } := by
  obtain ⟨ip, hdata | hdata⟩ := exists_address h <;>
    exact ⟨ip, fun s => by rw [visit, hdata]⟩

/-- The first name becomes the model. -/
theorem visit_ptr {answer : MdnsAnswer} (h : recordKind answer = some .ptr) :
    ∃ n, ∀ s, visit s answer = { s with model := s.model.or (some (firstLabel n)) } := by
  obtain ⟨n, hdata⟩ := exists_ptr h
  refine ⟨n, fun s => ?_⟩
  obtain ⟨_, _ | model, _⟩ := s <;> simp only [visit, hdata] <;> rfl

/-- The strings of a text record become variables. -/
theorem visit_txt {answer : MdnsAnswer} (h : recordKind answer = some .txt) :
    ∃ txt : List (List Char),
      ∀ s, visit s answer = { s with vars := txt.foldl addVariable s.vars } := by
  obtain ⟨txt, hdata⟩ := exists_txt h
  exact ⟨txt, fun s => by rw [visit, hdata]⟩

/-- Records of different kinds fill different slots. -/
theorem commutes_visit : Commutes (m := Id) recordKind visit := by
  refine commutes_of_kindsBefore (fun s i j hkinds => ?_) fun s i hi => ?_
  · cases hkinds with
    | addressPtr hi hj =>
      obtain ⟨ip, hip⟩ := visit_address hi
      obtain ⟨n, hn⟩ := visit_ptr hj
      simp only [hip, hn, bind]
    | addressTxt hi hj =>
      obtain ⟨ip, hip⟩ := visit_address hi
      obtain ⟨txt, htxt⟩ := visit_txt hj
      simp only [hip, htxt, bind]
    | ptrTxt hi hj =>
      obtain ⟨n, hn⟩ := visit_ptr hi
      obtain ⟨txt, htxt⟩ := visit_txt hj
      simp only [hn, htxt, bind]
  · obtain ⟨_, _, _, _, hdata⟩ := exists_srv hi
    rw [visit, hdata]
    rfl

end Arecont

/-! ### Google Cast -/

namespace GoogleCast

/-- The first address of each family is kept. -/
theorem visit_address {answer : MdnsAnswer} (h : recordKind answer = some .address) :
    ∃ f g : Option IpAddr → Option IpAddr,
      ∀ s, visit s answer = some { s with ipv4 := f s.ipv4, ipv6 := g s.ipv6 } := by
  obtain ⟨ip, hdata | hdata⟩ := exists_address h
  · refine ⟨fun ipv4 => ipv4.or (some ip), id, fun s => ?_⟩
    obtain ⟨_ | ipv4, _, _, _⟩ := s <;> simp only [visit, hdata] <;> rfl
  · refine ⟨id, fun ipv6 => ipv6.or (some ip), fun s => ?_⟩
    obtain ⟨_, _ | ipv6, _, _⟩ := s <;> simp only [visit, hdata] <;> rfl

/-- A name is not looked at. -/
theorem visit_ptr {answer : MdnsAnswer} (h : recordKind answer = some .ptr) (s : Slots) :
    visit s answer = some s := by
  obtain ⟨n, hdata⟩ := exists_ptr h
  rw [visit, hdata]

/-- A string of a text record does not look at the addresses. -/
theorem visitEntry_slots (s : Slots) (ipv4 ipv6 : Option IpAddr) (entry : List Char) :
    visitEntry { s with ipv4 := ipv4, ipv6 := ipv6 } entry =
      { visitEntry s entry with ipv4 := ipv4, ipv6 := ipv6 } := by
  unfold visitEntry
  split
  · split_ifs <;> rfl
  · rfl

/-- Strings of a text record do not look at the addresses. -/
theorem foldl_visitEntry_slots (txt : List (List Char)) (s : Slots) (ipv4 ipv6 : Option IpAddr) :
    txt.foldl visitEntry { s with ipv4 := ipv4, ipv6 := ipv6 } =
      { txt.foldl visitEntry s with ipv4 := ipv4, ipv6 := ipv6 } := by
  induction txt generalizing s with
  | nil => rfl
  | cons entry txt ih => rw [List.foldl_cons, visitEntry_slots, ih, List.foldl_cons]

/-- Strings of a text record keep the addresses. -/
theorem foldl_visitEntry_addresses (txt : List (List Char)) (s : Slots) :
    (txt.foldl visitEntry s).ipv4 = s.ipv4 ∧ (txt.foldl visitEntry s).ipv6 = s.ipv6 := by
  have hslots := foldl_visitEntry_slots txt s s.ipv4 s.ipv6
  rw [hslots]
  exact ⟨rfl, rfl⟩

/-- A text record does not look at the addresses. -/
theorem visitTxt_slots (f g : Option IpAddr → Option IpAddr) (s : Slots)
    (txt : List (List Char)) :
    visitTxt { s with ipv4 := f s.ipv4, ipv6 := g s.ipv6 } txt =
      (visitTxt s txt).map fun s => { s with ipv4 := f s.ipv4, ipv6 := g s.ipv6 } := by
  cases txt with
  | nil => rfl
  | cons first rest =>
    obtain ⟨hipv4, hipv6⟩ := foldl_visitEntry_addresses (first :: rest) s
    simp only [visitTxt]
    split_ifs
    · rw [foldl_visitEntry_slots, Option.map_some, hipv4, hipv6]
    · rfl

/-- Records of different kinds fill different slots. -/
theorem commutes_visit : Commutes recordKind visit := by
  refine commutes_of_kindsBefore (fun s i j hkinds => ?_) fun s i hi => ?_
  · cases hkinds with
    | addressPtr hi hj =>
      obtain ⟨f, g, hfg⟩ := visit_address hi
      simp only [hfg, visit_ptr hj, Option.bind_eq_bind, Option.bind_some]
    | addressTxt hi hj =>
      obtain ⟨f, g, hfg⟩ := visit_address hi
      obtain ⟨txt, hdata⟩ := exists_txt hj
      have htxt (s : Slots) : visit s j = visitTxt s txt := by rw [visit, hdata]
      simp only [hfg, htxt]
      exact (visitTxt_slots f g s txt).trans (Option.map_eq_bind ..)
    | ptrTxt hi hj =>
      simp only [visit_ptr hi, Option.bind_eq_bind, Option.bind_some, Option.bind_fun_some]
  · obtain ⟨_, _, _, _, hdata⟩ := exists_srv hi
    rw [visit, hdata]
    rfl

end GoogleCast

/-- The devices of an answer do not depend on how its addresses, names, and text records are
interleaved, and not on its other records. -/
theorem convert_interleaved (answers answers' : List MdnsAnswer) (cfg : Config)
    (haddress : recordsOf .address answers = recordsOf .address answers')
    (hptr : recordsOf .ptr answers = recordsOf .ptr answers')
    (htxt : recordsOf .txt answers = recordsOf .txt answers') :
    (∃ devs, Axis.axisConvert answers cfg = .ok devs ∧
      Axis.axisConvert answers' cfg = .ok devs) ∧
    (∃ devs, Arecont.arecontConvert answers cfg = .ok devs ∧
      Arecont.arecontConvert answers' cfg = .ok devs) ∧
    GoogleCast.googlecastConvert answers = GoogleCast.googlecastConvert answers' := by
  have hsub (kind : RecordKind) :
      (answers.filter fun answer => recordKind answer = some kind) =
        answers'.filter fun answer => recordKind answer = some kind := by
    cases kind
    · exact haddress
    · exact hptr
    · exact htxt
  -- What each loop collects is the same, and the devices are made of it.
  have haxis : Axis.axisConvert answers cfg = Axis.axisConvert answers' cfg := by
    rw [Axis.axisConvert, Axis.axisConvert, Axis.commutes_visit.foldlM_eq hsub]
  have harecont : Arecont.arecontConvert answers cfg = Arecont.arecontConvert answers' cfg := by
    rw [Arecont.arecontConvert, Arecont.arecontConvert,
      foldl_eq_of_commutes Arecont.commutes_visit hsub]
  have hgoogle : GoogleCast.googlecastConvert answers = GoogleCast.googlecastConvert answers' := by
    rw [GoogleCast.googlecastConvert, GoogleCast.googlecastConvert,
      GoogleCast.commutes_visit.foldlM_eq hsub]
  obtain ⟨devs, hdevs⟩ := Axis.axisConvert_ok answers cfg
  obtain ⟨devs', hdevs'⟩ := Arecont.arecontConvert_ok answers cfg
  exact ⟨⟨devs, hdevs, haxis ▸ hdevs⟩, ⟨devs', hdevs', harecont ▸ hdevs'⟩, hgoogle⟩

/-- An answer in two orders, with a service in one of them. -/
theorem convert_interleaved_swapped :
    let address : MdnsAnswer := ⟨1, "cam".toList, .a (.v4 ⟨192, 168, 1, 5⟩)⟩
    let name : MdnsAnswer := ⟨12, "cam".toList, .ptr "m.local".toList⟩
    let text : MdnsAnswer := ⟨16, "cam".toList, .txt ["SN=7".toList]⟩
    let service : MdnsAnswer := ⟨33, "cam".toList, .srv 0 0 80 "cam".toList⟩
    recordsOf .address [address, name, text] = recordsOf .address [text, service, address, name] ∧
    ∃ devs, Axis.axisConvert [address, name, text] {} = .ok devs ∧
      Axis.axisConvert [text, service, address, name] {} = .ok devs := by
  intro address name text service
  have haddress :
      recordsOf .address [address, name, text] =
        recordsOf .address [text, service, address, name] := by decide
  exact ⟨haddress, (convert_interleaved [address, name, text] [text, service, address, name] {}
    haddress (by decide) (by decide)).1⟩

end Uscan
