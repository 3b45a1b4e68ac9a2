import Uscan.Lib.Itemized
import Uscan.Protocols.Requests
import Uscan.Protocols.Stream

/-!
# Answers that are lists of items

Ubiquiti and Vivotek answer with a list of items, most of which have a type, a size, and a value.
For each engine there is the grammar of its answers, and the theorem that the parser reports a
device for just these and takes its fields from the right items: the first one that has them
(`Ubiquiti.parse_ubiquiti_exact`), or the last one (`Vivotek.parse_vivotek_exact`). Both parsers ask
for one more byte after the start of an item, so that neither accepts an answer that ends in an
empty value. Vivotek has an item of two bytes without a size, whose second byte is its value.
-/

namespace Uscan

/-! ## Vivotek -/

namespace Vivotek

/-- `HEADER_SIZE`. -/
def headerSize : ℕ := 5

/-- What the items read so far have set. -/
structure Found where
  /-- The hardware address, or an empty text. -/
  mac : List Char
  /-- The short name, or an empty text. -/
  model : List Char
  /-- The address. -/
  ip : Option IpAddr
  deriving DecidableEq, Repr

/-- The match of `parse` on the type of an item: `none` where it drops the answer. The last value of
each kind counts. -/
def Found.read (f : Found) (vtype : UInt8) (value : List UInt8) : Res Empty (Option Found) :=
  if vtype = 0x00 then .ok none
  else if vtype = 0x03 then
    if value.length = 4 then do
      let ip ← ipv4At value 0
      return some { f with ip := some (.v4 ip) }
    else if value.length = 16 then do
      let ip ← Ipv6Addr.ofSlice value
      return some { f with ip := some (.v6 ip) }
    else .ok none
  else if vtype = 0x02 then
    if value.length < 6 then .ok none
    else do
      let mac ← macAt value 0
      return some { f with mac := mac }
  else if vtype = 0x09 then .ok (some { f with model := fromUtf8Lossy value })
  -- The long name, `0x01`, is not used, like all other types.
  else .ok (some f)

/-- The loop of `parse` over the items, from `position` on: `none` where it drops the answer. -/
def readItems (data : List UInt8) (position : ℕ) (f : Found) : Res Empty (Option Found) :=
  if position < data.length then
    if position + 2 ≥ data.length then .ok none
    else do
      let vtype ← index data position
      let size ← index data (position + 1)
      -- The second byte of this item is its value, and nothing follows it.
      if vtype = 0x04 then readItems data (position + 2) f
      else if position + 2 + size.toNat > data.length then return none
      else
        let value ← subslice data (position + 2) (position + 2 + size.toNat)
        let f ← f.read vtype value
        match f with
        | none => return none
        | some f => readItems data (position + 2 + size.toNat) f
  else .ok (some f)
termination_by data.length - position

/-- `Vivotek::parse`. -/
def parse (_src : SocketAddr) (data : List UInt8) : Res Empty (List Device) :=
  if data.length < headerSize then .ok []
  else do
    let m ← be32At data 1
    if m ≠ magic then return []
    else
      let found ← readItems data headerSize ⟨[], [], none⟩
      match found with
      | none => return []
      | some f =>
        match f.ip with
        | none => return []
        | some ip =>
          return [{
            protocol := "Vivotek".toList
            version := 1
            ip := ip
            mac := f.mac
            deviceType := f.model
            serial := f.mac }]

end Vivotek

/-! ## The device of an answer -/

/-- A parser that reports the device of an answer, and nothing for data that are no answer, reports
a device for just the answers that have one. What an answer consists of need not be unique. -/
theorem exists_reported {ι : Type} {result : Res Empty (List Device)} {isAnswer : ι → Prop}
    {report : ι → Option Device} (hyes : ∀ i, isAnswer i → result = .ok (report i).toList)
    (hno : (∀ i, ¬ isAnswer i) → result = .ok []) :
    ∃ reported : Option Device, result = .ok reported.toList ∧
      ∀ device, reported = some device ↔ ∃ i, isAnswer i ∧ report i = some device := by
  by_cases h : ∃ i, isAnswer i
  · obtain ⟨i, hi⟩ := h
    refine ⟨report i, hyes i hi, fun device => ⟨fun hd => ⟨i, hi, hd⟩, ?_⟩⟩
    rintro ⟨i', hi', hd⟩
    have heq := (hyes i hi).symm.trans (hyes i' hi')
    rw [hd] at heq
    exact Option.toList_eq_singleton_iff.mp (Res.ok.inj heq)
  · refine ⟨none, hno fun i hi => h ⟨i, hi⟩, fun device => ?_⟩
    exact iff_of_false nofun fun ⟨i, hi, _⟩ => h ⟨i, hi⟩

/-- Four bytes are an address. -/
theorem exists_octets {x : List UInt8} (h : x.length = 4) : ∃ ip : Ipv4Addr, x = ip.octets := by
  match x, h with
  | [a, b, c, d], _ => exact ⟨⟨a, b, c, d⟩, rfl⟩

/-! ## The grammar of Ubiquiti -/

namespace Ubiquiti

/-- A field of an answer. -/
structure Tlv where
  /-- The type. -/
  vtype : UInt16
  /-- The value. -/
  value : List UInt8
  /-- Its size fits in a byte. -/
  length_le : value.length ≤ 255

namespace Tlv

/-- A field on the wire: the type, the low byte first, the size, and the value. -/
def bytes (t : Tlv) : List UInt8 :=
  (toBe16 t.vtype).reverse ++ UInt8.ofNat t.value.length :: t.value

/-- The hardware address in a field. -/
def mac (t : Tlv) : Option (List UInt8) :=
  if (t.vtype = 0x0001 ∨ t.vtype = 0x0013) ∧ t.value.length = 6 then some t.value
  else if t.vtype = 0x0002 ∧ t.value.length = 10 then some (t.value.take 6)
  else none

/-- The address in a field. -/
def ip (t : Tlv) : Option Ipv4Addr :=
  match t.value.drop 6 with
  | [a, b, c, d] => if t.vtype = 0x0002 then some ⟨a, b, c, d⟩ else none
  | _ => none

/-- The model in a field. -/
def model (t : Tlv) : Option (List Char) :=
  if (t.vtype = 0x000C ∨ t.vtype = 0x0015) ∧ t.value ≠ [] then some (fromUtf8Lossy t.value)
  else none

/-- A field that can be taken when `rest` follows it. -/
def Readable (t : Tlv) (rest : List UInt8) : Prop := t.vtype ≠ 0 ∧ t.value ++ rest ≠ []

/-- What a field sets: what was not set before. -/
def update (f : Found) (t : Tlv) : Found := ⟨f.mac <|> t.mac, f.ip <|> t.ip, f.model <|> t.model⟩

end Tlv

/-- The answers with fields `ts`: two bytes, the length of the rest, and the fields, of which none
has the type zero and the last one has a value. -/
structure IsAnswer (data : List UInt8) (ts : List Tlv) : Prop where
  /-- What an answer consists of. -/
  bytes_eq : ∃ b0 b1 size, data = [b0, b1] ++ (toBe16 size ++ ts.flatMap Tlv.bytes) ∧
    size.toNat = (ts.flatMap Tlv.bytes).length
  /-- No field has the type zero. -/
  vtype_ne : ∀ t ∈ ts, t.vtype ≠ 0
  /-- The last value is not empty. -/
  last_ne : ∀ t ∈ ts.getLast?, t.value ≠ []

/-- The device of an answer: each of its fields is that of the first field that has one. -/
def report (src : SocketAddr) (ts : List Tlv) : Option Device :=
  (ts.findSome? Tlv.mac).map fun mac =>
    { protocol := "Ubiquiti".toList
      version := 1
      ip := (ts.findSome? Tlv.ip).elim src.ip .v4
      mac := macText [':'] mac
      deviceType := (ts.findSome? Tlv.model).getD "unknown".toList
      serial := macText [':'] mac }

/-- The first of two settings counts. -/
theorem orElse_findSome? {α β : Type} (x : Option β) (g : α → Option β) (a : α) (as : List α) :
    ((x <|> g a) <|> as.findSome? g) = (x <|> (a :: as).findSome? g) := by
  rw [List.findSome?_cons]
  cases x <;> cases g a <;> rfl

/-- The fields together set what the first ones set that can. -/
theorem foldl_update (ts : List Tlv) (f : Found) :
    ts.foldl Tlv.update f = ⟨f.mac <|> ts.findSome? Tlv.mac, f.ip <|> ts.findSome? Tlv.ip,
      f.model <|> ts.findSome? Tlv.model⟩ := by
  induction ts generalizing f with
  | nil => simp
  | cons t ts ih =>
    rw [List.foldl_cons, ih]
    simp only [Tlv.update, orElse_findSome?]

namespace Tlv

variable {t : Tlv}

/-- Only a field of type 2 has an address. -/
theorem ip_of_ne (h : t.vtype ≠ 2) : t.ip = none := by
  unfold ip
  split
  · exact if_neg h
  · rfl

/-- Only a value of ten bytes has an address. -/
theorem ip_of_length_ne (h : t.value.length ≠ 10) : t.ip = none := by
  unfold ip
  split
  · next hdrop =>
    have hlen := congrArg List.length hdrop
    rw [List.length_drop] at hlen
    simp only [List.length_cons, List.length_nil] at hlen
    omega
  · rfl

/-- The address in a value of ten bytes. -/
theorem exists_ip (hvtype : t.vtype = 2) (hlen : t.value.length = 10) :
    ∃ ip : Ipv4Addr, ipv4At t.value 6 = .ok ip ∧ t.ip = some ip := by
  obtain ⟨ip, hip⟩ := exists_octets (x := t.value.drop 6) (by rw [List.length_drop, hlen])
  have hstands : Stands t.value 6 ip.octets := by
    rw [Stands, hip]
  refine ⟨ip, ipv4At_stands hstands, ?_⟩
  simp only [Tlv.ip, hip, Ipv4Addr.octets]
  exact if_pos hvtype

end Tlv

/-- The match on the type of a field sets what the field sets. -/
theorem read_eq (f : Found) (t : Tlv) : f.read t.vtype t.value = .ok (Tlv.update f t) := by
  by_cases htwo : t.vtype = 2
  · have hmacType : ¬ (t.vtype = 0x0001 ∨ t.vtype = 0x0013) := by rw [htwo]; decide
    have hmodelType : ¬ (t.vtype = 0x000C ∨ t.vtype = 0x0015) := by rw [htwo]; decide
    have hmodel : t.model = none := if_neg fun h => hmodelType h.1
    by_cases hlen : t.value.length = 10
    · obtain ⟨ip, hread, hip⟩ := Tlv.exists_ip htwo hlen
      have hmac : t.mac = some (t.value.take 6) := by
        rw [Tlv.mac, if_neg fun h => hmacType h.1, if_pos ⟨htwo, hlen⟩]
      rw [Found.read, if_neg fun h => hmacType h.1, if_pos ⟨htwo, hlen⟩, hread]
      simp [Tlv.update, hmac, hip, hmodel]
    · have hmac : t.mac = none := by
        rw [Tlv.mac, if_neg fun h => hmacType h.1, if_neg fun h => hlen h.2]
      rw [Found.read, if_neg fun h => hmacType h.1, if_neg fun h => hlen h.2,
        if_neg fun h => hmodelType h.1]
      simp [Tlv.update, hmac, Tlv.ip_of_length_ne hlen, hmodel]
  · have hip := Tlv.ip_of_ne htwo
    obtain ⟨mac, ip, model⟩ := f
    by_cases hmacType : t.vtype = 0x0001 ∨ t.vtype = 0x0013
    · have hmodelType : ¬ (t.vtype = 0x000C ∨ t.vtype = 0x0015) := by
        rcases hmacType with h | h <;> rw [h] <;> decide
      by_cases hlen : t.value.length = 6 <;> cases mac <;>
        simp [Found.read, Tlv.update, Tlv.mac, Tlv.model, hip, htwo, hmacType, hmodelType, hlen]
    · by_cases hmodelType : t.vtype = 0x000C ∨ t.vtype = 0x0015
      · by_cases hempty : t.value = [] <;> cases model <;>
          simp [Found.read, Tlv.update, Tlv.mac, Tlv.model, hip, htwo, hmacType, hmodelType, hempty]
      · simp [Found.read, Tlv.update, Tlv.mac, Tlv.model, hip, htwo, hmacType, hmodelType]

/-! ### The loop -/

/-- A field is three bytes and its value. -/
theorem Tlv.length_bytes (t : Tlv) : t.bytes.length = 3 + t.value.length := by
  rw [Tlv.bytes, List.length_append, List.length_reverse, toBe16_length, List.length_cons]
  omega

/-- What the loop reads where a field stands. -/
theorem Tlv.stands {data : List UInt8} {pos : ℕ} {t : Tlv} (h : Stands data pos t.bytes) :
    ∃ t0 t1 size, data[pos]? = some t0 ∧ data[pos + 1]? = some t1 ∧ data[pos + 2]? = some size ∧
      le16 t0 t1 = t.vtype ∧ size.toNat = t.value.length ∧ Stands data (pos + 3) t.value := by
  obtain ⟨htype, hrest⟩ := stands_append.mp h
  obtain ⟨hsize, hvalue⟩ := stands_append (x := [UInt8.ofNat t.value.length]).mp hrest
  have hhigh := htype.getElem? (i := 1) (Nat.lt_succ_self 1)
  exact ⟨_, _, _, htype.head?, hhigh, hsize.head?, be16_toBe16 t.vtype,
    toNat_ofNat_of_lt (Nat.lt_succ_of_le t.length_le), hvalue⟩

/-- Three bytes, the third of which is a size within the data, start a field. -/
theorem exists_tlv {data : List UInt8} {pos : ℕ} {t0 t1 size : UInt8} (h0 : data[pos]? = some t0)
    (h1 : data[pos + 1]? = some t1) (h2 : data[pos + 2]? = some size)
    (hle : pos + 3 + size.toNat ≤ data.length) :
    ∃ (t : Tlv) (rest : List UInt8), data.drop pos = t.bytes ++ rest ∧ t.vtype = le16 t0 t1 := by
  obtain ⟨value, rest, hsplit, hlen⟩ := exists_append_of_le hle
  have hsize := size.toNat_lt
  have htype : (toBe16 (le16 t0 t1)).reverse = [t0, t1] := by
    rw [le16, toBe16_be16]
    rfl
  refine ⟨⟨le16 t0 t1, value, by omega⟩, rest, ?_, rfl⟩
  show data.drop pos = (toBe16 (le16 t0 t1)).reverse ++ UInt8.ofNat value.length :: value ++ rest
  rw [hlen, htype, UInt8.ofNat_toNat, drop_of_getElem? h0, drop_of_getElem? h1,
    drop_of_getElem? h2, hsplit]
  rfl

/-- The loop takes a field with a type, if something follows its size. -/
theorem readFields_field {data rest : List UInt8} {pos : ℕ} {t : Tlv}
    (hd : data.drop pos = t.bytes ++ rest) (ht : t.Readable rest) (f : Found) :
    readFields data pos f = readFields data (pos + t.bytes.length) (Tlv.update f t) := by
  obtain ⟨htype, hnext⟩ := ht
  have hpos := List.length_pos_iff.mpr hnext
  have hlen := congrArg List.length hd
  rw [List.length_drop, List.length_append, t.length_bytes] at hlen
  rw [List.length_append] at hpos
  obtain ⟨t0, t1, size, h0, h1, h2, hvtype, hsize, hvalue⟩ := Tlv.stands ⟨rest, hd.symm⟩
  rw [readFields, if_pos (by omega), if_neg (by omega), index_of_getElem? h0,
    index_of_getElem? h1, index_of_getElem? h2]
  simp only [Res.ok_bind, hsize]
  rw [if_neg (by omega), hvalue.subslice_of_le (by omega), hvtype, Res.ok_bind, if_neg htype,
    read_eq, Res.ok_bind, t.length_bytes, Nat.add_assoc]

/-- Where no such field stands, the loop drops the answer. -/
theorem readFields_stuck {data : List UInt8} {pos : ℕ} (hlt : pos < data.length)
    (hno : ∀ (t : Tlv) rest, data.drop pos = t.bytes ++ rest → ¬ t.Readable rest) (f : Found) :
    readFields data pos f = .ok none := by
  rw [readFields, if_pos hlt]
  split_ifs with hend
  · rfl
  · have h0 := List.getElem?_eq_getElem hlt
    have h1 := List.getElem?_eq_getElem (l := data) (i := pos + 1) (by omega)
    have h2 := List.getElem?_eq_getElem (l := data) (i := pos + 2) (by omega)
    rw [index_of_getElem? h0, index_of_getElem? h1, index_of_getElem? h2]
    simp only [Res.ok_bind]
    by_cases hsize : pos + 3 + data[pos + 2].toNat > data.length
    · rw [if_pos hsize]
      rfl
    · rw [if_neg hsize, subslice_eq (Nat.le_add_right _ _) (Nat.not_lt.mp hsize), Res.ok_bind]
      split_ifs with htype
      · rfl
      · -- There is a field with a type, and a byte after its size.
        obtain ⟨t, rest, hd, hvtype⟩ := exists_tlv h0 h1 h2 (Nat.not_lt.mp hsize)
        refine absurd ⟨hvtype ▸ htype, ?_⟩ (hno t rest hd)
        have hlen := congrArg List.length hd
        rw [List.length_drop, List.length_append, t.length_bytes] at hlen
        apply List.ne_nil_of_length_pos
        rw [List.length_append]
        omega

/-- The loop of `parse` reads fields. -/
theorem itemLoop_readFields (data : List UInt8) :
    ItemLoop data Tlv.bytes Tlv.Readable Tlv.update (readFields data) (fun f => .ok (some f))
      (.ok none) where
  enc_ne t := by
    apply List.ne_nil_of_length_pos
    rw [Tlv.length_bytes]
    omega
  done pos f h := by
    rw [readFields, if_neg (Nat.not_lt.mpr h)]
  item _ f _ _ hd ht := readFields_field hd ht f
  stuck _ f hlt hno := readFields_stuck hlt hno f

/-! ### The answers -/

/-- A field is not empty on the wire. -/
theorem Tlv.bytes_ne (t : Tlv) : t.bytes ≠ [] := (itemLoop_readFields []).enc_ne t

/-- The fields that the loop takes are those of the grammar. -/
theorem itemized_iff {s : List UInt8} {ts : List Tlv} :
    Itemized Tlv.bytes Tlv.Readable s ts ↔
      s = ts.flatMap Tlv.bytes ∧ (∀ t ∈ ts, t.vtype ≠ 0) ∧ ∀ t ∈ ts.getLast?, t.value ≠ [] := by
  constructor
  · intro h
    refine ⟨h.eq_flatMap, ?_⟩
    induction h with
    | nil => simp
    | @cons t rest ts ht hrest ih =>
      refine ⟨List.forall_mem_cons.mpr ⟨ht.1, ih.1⟩, ?_⟩
      cases hrest with
      | nil => simpa using ht.2
      | cons => simpa using ih.2
  · rintro ⟨rfl, htype, hlast⟩
    induction ts with
    | nil => exact .nil
    | cons t ts ih =>
      obtain ⟨ht, hts⟩ := List.forall_mem_cons.mp htype
      rw [List.flatMap_cons]
      cases ts with
      | nil => exact .cons ⟨ht, by simpa using hlast⟩ .nil
      | cons t' ts =>
        refine .cons ⟨ht, ?_⟩ (ih hts (by simpa using hlast))
        rw [List.flatMap_cons]
        exact List.append_ne_nil_of_right_ne_nil _ (List.append_ne_nil_of_left_ne_nil t'.bytes_ne _)

/-- What `parse` makes of what the fields have set. -/
def reportFound (src : SocketAddr) (f : Found) : Option Device :=
  f.mac.map fun mac =>
    { protocol := "Ubiquiti".toList
      version := 1
      ip := f.ip.elim src.ip .v4
      mac := macText [':'] mac
      deviceType := f.model.getD "unknown".toList
      serial := macText [':'] mac }

/-- A header with the length of the rest is followed by the fields. -/
theorem parse_of_header {data : List UInt8} {s0 s1 : UInt8} (h0 : data[2]? = some s0)
    (h1 : data[3]? = some s1) (hsize : (be16 s0 s1).toNat = data.length - headerSize)
    (src : SocketAddr) :
    parse src data = (readFields data headerSize ⟨none, none, none⟩ >>= fun found =>
      .ok (found.bind (reportFound src)).toList) := by
  obtain ⟨hlt, -⟩ := List.getElem?_eq_some_iff.mp h1
  have hlen : headerSize ≤ data.length := hlt
  rw [parse, if_neg (Nat.not_lt.mpr hlen), index_of_getElem? h0, index_of_getElem? h1]
  simp only [Res.ok_bind]
  rw [if_neg (not_not.mpr hsize)]
  congr 1
  funext found
  cases found with
  | none => rfl
  | some f => cases hmac : f.mac <;> simp [reportFound, hmac]

/-- The answers are the data with a header that has the length of the rest, and with fields. -/
theorem isAnswer_iff {data : List UInt8} {ts : List Tlv} :
    IsAnswer data ts ↔
      (∃ s0 s1, data[2]? = some s0 ∧ data[3]? = some s1 ∧
        (be16 s0 s1).toNat = data.length - headerSize) ∧
      Itemized Tlv.bytes Tlv.Readable (data.drop headerSize) ts := by
  rw [itemized_iff]
  constructor
  · rintro ⟨⟨b0, b1, size, rfl, hsize⟩, htype, hlast⟩
    refine ⟨⟨_, _, rfl, rfl, ?_⟩, rfl, htype, hlast⟩
    rw [be16_toBe16, hsize]
    simp [headerSize]
  · rintro ⟨⟨s0, s1, h0, h1, hsize⟩, hfields, htype, hlast⟩
    obtain ⟨hlt, -⟩ := List.getElem?_eq_some_iff.mp h1
    have hb0 := List.getElem?_eq_getElem (l := data) (i := 0) (by omega)
    have hb1 := List.getElem?_eq_getElem (l := data) (i := 1) (by omega)
    refine ⟨⟨data[0], data[1], be16 s0 s1, ?_, ?_⟩, htype, hlast⟩
    · rw [toBe16_be16, ← hfields]
      calc data = data.drop 0 := rfl
        _ = _ := by
          rw [drop_of_getElem? hb0, drop_of_getElem? hb1, drop_of_getElem? h0, drop_of_getElem? h1]
          rfl
    · rw [hsize, ← hfields, List.length_drop]

/-- An answer is reported. -/
theorem parse_of_isAnswer {data : List UInt8} {ts : List Tlv} (h : IsAnswer data ts)
    (src : SocketAddr) : parse src data = .ok (report src ts).toList := by
  obtain ⟨⟨s0, s1, h0, h1, hsize⟩, hitems⟩ := isAnswer_iff.mp h
  rw [parse_of_header h0 h1 hsize, (itemLoop_readFields data).of_itemized hitems, foldl_update]
  simp [report, reportFound]

/-- Anything else is not. -/
theorem parse_of_not_isAnswer {data : List UInt8} (h : ∀ ts, ¬ IsAnswer data ts)
    (src : SocketAddr) : parse src data = .ok [] := by
  by_cases hlen : data.length < headerSize
  · exact if_pos hlen
  · have hle : 4 ≤ data.length := Nat.not_lt.mp hlen
    have h0 := List.getElem?_eq_getElem (l := data) (i := 2) (by omega)
    have h1 := List.getElem?_eq_getElem (l := data) (i := 3) (by omega)
    by_cases hsize : (be16 data[2] data[3]).toNat = data.length - headerSize
    · have hitems : ∀ ts, ¬ Itemized Tlv.bytes Tlv.Readable (data.drop headerSize) ts :=
        fun ts hts => h ts (isAnswer_iff.mpr ⟨⟨_, _, h0, h1, hsize⟩, hts⟩)
      rw [parse_of_header h0 h1 hsize, (itemLoop_readFields data).of_not_itemized hitems]
      rfl
    · rw [parse, if_neg hlen, index_of_getElem? h0, index_of_getElem? h1]
      simp only [Res.ok_bind]
      rw [if_pos hsize]
      rfl

/-- The parser reports a device for just the answers of the grammar that have a hardware address,
and takes each field of the device from the first field that has it. It returns on all data. -/
theorem parse_ubiquiti_exact (src : SocketAddr) (data : List UInt8) :
    ∃ reported : Option Device, parse src data = .ok reported.toList ∧
      ∀ device, reported = some device ↔ ∃ ts, IsAnswer data ts ∧ report src ts = some device :=
  exists_reported (fun _ h => parse_of_isAnswer h src) fun h => parse_of_not_isAnswer h src

end Ubiquiti

/-! ## The grammar of Vivotek -/

namespace Vivotek

/-- An item of an answer. -/
inductive Item where
  /-- The item without a size: its second byte is its value. -/
  | type04 (value : UInt8)
  /-- A type, a size, and a value. -/
  | tlv (vtype : UInt8) (value : List UInt8)

namespace Item

/-- An item on the wire. -/
def bytes : Item → List UInt8
  | type04 value => [0x04, value]
  | tlv vtype value => vtype :: UInt8.ofNat value.length :: value

/-- The items that the parser knows how to take: the size fits in a byte, an address has 4 or 16
bytes, and a hardware address 6 at least. -/
def Valid : Item → Prop
  | type04 _ => True
  | tlv vtype value =>
    vtype ≠ 0x00 ∧ vtype ≠ 0x04 ∧ value.length ≤ 255 ∧
      (vtype = 0x03 → value.length = 4 ∨ value.length = 16) ∧ (vtype = 0x02 → 6 ≤ value.length)

/-- An item that can be taken when `rest` follows it: there is a byte after its first two. -/
def Readable (i : Item) (rest : List UInt8) : Prop := i.Valid ∧ 2 < (i.bytes ++ rest).length

/-- Sixteen bytes are eight segments. -/
theorem segments_length {value : List UInt8} (h : value.length = 16) :
    (be16s value).length = 8 :=
  be16s_length h

/-- The address that four or sixteen bytes are. -/
def ipOf (value : List UInt8) : Option IpAddr :=
  match value with
  | [a, b, c, d] => some (.v4 ⟨a, b, c, d⟩)
  | _ => if h : value.length = 16 then some (.v6 ⟨be16s value, segments_length h⟩) else none

/-- The address in an item. -/
def ip : Item → Option IpAddr
  | type04 _ => none
  | tlv vtype value => if vtype = 0x03 then ipOf value else none

/-- The hardware address in an item. -/
def mac : Item → Option (List Char)
  | type04 _ => none
  | tlv vtype value => if vtype = 0x02 then some (macText [':'] (value.take 6)) else none

/-- The short name in an item. -/
def model : Item → Option (List Char)
  | type04 _ => none
  | tlv vtype value => if vtype = 0x09 then some (fromUtf8Lossy value) else none

/-- What an item sets. -/
def update (f : Found) (i : Item) : Found :=
  ⟨i.mac.getD f.mac, i.model.getD f.model, i.ip <|> f.ip⟩

end Item

/-- The answers with items `is`: the session, the magic, and the items, of which each is known and
has a byte after its first two. -/
def IsAnswer (data : List UInt8) (is : List Item) : Prop :=
  ∃ session body, data = session :: (toBe32 magic ++ body) ∧
    Itemized Item.bytes Item.Readable body is

/-- The last value of a kind that items have. -/
def lastOf {α : Type} (g : Item → Option α) (is : List Item) : Option α :=
  (is.filterMap g).getLast?

/-- The device of an answer: each of its fields is that of the last item that has one. -/
def report (is : List Item) : Option Device :=
  (lastOf Item.ip is).map fun ip =>
    { protocol := "Vivotek".toList
      version := 1
      ip := ip
      mac := (lastOf Item.mac is).getD []
      deviceType := (lastOf Item.model is).getD []
      serial := (lastOf Item.mac is).getD [] }

/-- The last of the values comes before a value from before them. -/
theorem lastOf_cons {α : Type} (g : Item → Option α) (i : Item) (is : List Item) :
    lastOf g (i :: is) = (lastOf g is <|> g i) := by
  rw [lastOf, lastOf, List.filterMap_cons]
  cases g i with
  | none => simp
  | some a => cases h : (is.filterMap g).getLast? <;> simp [List.getLast?_cons, h]

/-- The items together set what the last ones set that can. -/
theorem foldl_update (is : List Item) (f : Found) :
    is.foldl Item.update f = ⟨(lastOf Item.mac is).getD f.mac, (lastOf Item.model is).getD f.model,
      lastOf Item.ip is <|> f.ip⟩ := by
  induction is generalizing f with
  | nil => rfl
  | cons i is ih =>
    rw [List.foldl_cons, ih]
    simp only [Item.update, lastOf_cons]
    cases lastOf Item.mac is <;> cases lastOf Item.model is <;> cases lastOf Item.ip is <;> rfl

/-- The address of an item is read. -/
theorem ipOf_spec {value : List UInt8} (h : value.length = 4 ∨ value.length = 16) :
    ∃ ip, Item.ipOf value = some ip ∧
      (value.length = 4 → ∃ v4, ipv4At value 0 = .ok v4 ∧ ip = .v4 v4) ∧
      (value.length = 16 →
        ∃ v6, (Ipv6Addr.ofSlice value : Res Empty _) = .ok v6 ∧ ip = .v6 v6) := by
  rcases h with h | h
  · obtain ⟨v4, rfl⟩ := exists_octets h
    refine ⟨.v4 v4, rfl, fun _ => ⟨v4, ipv4At_stands List.prefix_rfl, rfl⟩, fun h16 => ?_⟩
    cases h16
  · refine ⟨.v6 ⟨be16s value, Item.segments_length h⟩, ?_, fun h4 => ?_,
      fun _ => ⟨_, dif_pos h, rfl⟩⟩
    · unfold Item.ipOf
      split
      · cases h
      · exact dif_pos h
    · omega

/-- The match on the type of an item sets what the item sets, if the item is known. -/
theorem read_eq (f : Found) {vtype : UInt8} {value : List UInt8}
    (h : (Item.tlv vtype value).Valid) :
    f.read vtype value = .ok (some (Item.update f (.tlv vtype value))) := by
  obtain ⟨hzero, -, -, hip, hmac⟩ := h
  rw [Found.read, if_neg hzero]
  by_cases h3 : vtype = 0x03
  · obtain ⟨ip, hipOf, hv4, hv6⟩ := ipOf_spec (hip h3)
    have hupdate : Item.update f (.tlv vtype value) = { f with ip := some ip } := by
      simp [Item.update, Item.ip, Item.mac, Item.model, h3, hipOf]
    rw [if_pos h3, hupdate]
    rcases hip h3 with hlen | hlen
    · obtain ⟨v4, hread, rfl⟩ := hv4 hlen
      rw [if_pos hlen, hread]
      rfl
    · obtain ⟨v6, hread, rfl⟩ := hv6 hlen
      rw [if_neg (by omega), if_pos hlen, hread]
      rfl
  · rw [if_neg h3]
    by_cases h2 : vtype = 0x02
    · have hle := hmac h2
      have hstands : Stands value 0 (value.take 6) := List.take_prefix 6 value
      have hread := macAt_stands (List.length_take_of_le hle) hstands
      rw [if_pos h2, if_neg (Nat.not_lt.mpr hle), hread]
      simp [Item.update, Item.ip, Item.mac, Item.model, h2]
    · rw [if_neg h2]
      split_ifs with h9 <;> simp [Item.update, Item.ip, Item.mac, Item.model, h3, h2, h9]

/-- An item that is not known drops the answer. -/
theorem read_none (f : Found) {vtype : UInt8} {value : List UInt8} (hfour : vtype ≠ 0x04)
    (hle : value.length ≤ 255) (h : ¬ (Item.tlv vtype value).Valid) :
    f.read vtype value = .ok none := by
  by_contra hread
  refine h ⟨?_, hfour, hle, ?_, ?_⟩
  · rintro rfl
    exact hread rfl
  · intro h3
    by_contra hlen
    rw [not_or] at hlen
    exact hread (by
      rw [Found.read, h3, if_neg (by decide), if_pos rfl, if_neg hlen.1, if_neg hlen.2])
  · intro h2
    by_contra hlen
    exact hread (by
      rw [Found.read, h2, if_neg (by decide), if_neg (by decide), if_pos rfl,
        if_pos (Nat.lt_of_not_le hlen)])

/-! ### The loop -/

/-- Two bytes, of which the second is a size within the data, start an item. -/
theorem exists_tlv {data : List UInt8} {pos : ℕ} {vtype size : UInt8}
    (h0 : data[pos]? = some vtype) (h1 : data[pos + 1]? = some size)
    (hle : pos + 2 + size.toNat ≤ data.length) :
    ∃ value rest, data.drop pos = (Item.tlv vtype value).bytes ++ rest ∧
      value.length = size.toNat := by
  obtain ⟨value, rest, hsplit, hlen⟩ := exists_append_of_le hle
  refine ⟨value, rest, ?_, hlen⟩
  rw [Item.bytes, hlen, UInt8.ofNat_toNat, drop_of_getElem? h0, drop_of_getElem? h1, hsplit]
  rfl

/-- The loop takes an item, if there is a byte after its first two. The item without a size is
recognised first, and its second byte is no size. -/
theorem readItems_item {data rest : List UInt8} {pos : ℕ} {i : Item}
    (hd : data.drop pos = i.bytes ++ rest) (hi : i.Readable rest) (f : Found) :
    readItems data pos f = readItems data (pos + i.bytes.length) (Item.update f i) := by
  obtain ⟨hvalid, hnext⟩ := hi
  have hlen := congrArg List.length hd
  rw [List.length_drop] at hlen
  have hstands : Stands data pos i.bytes := ⟨rest, hd.symm⟩
  have hsecond (h : 1 < i.bytes.length) := hstands.getElem? h
  rw [readItems, if_pos (by omega), if_neg (by omega)]
  cases i with
  | type04 x =>
    rw [index_of_getElem? hstands.head?, index_of_getElem? (hsecond (Nat.lt_succ_self 1))]
    rfl
  | tlv vtype value =>
    have hsize : (UInt8.ofNat value.length).toNat = value.length :=
      toNat_ofNat_of_lt (Nat.lt_succ_of_le hvalid.2.2.1)
    have hvalue : Stands data (pos + 2) value :=
      (stands_append (x := [vtype, UInt8.ofNat value.length]).mp hstands).2
    have hbytes : (Item.tlv vtype value).bytes.length = 2 + value.length := by
      rw [Item.bytes, List.length_cons, List.length_cons]
      omega
    rw [List.length_append, hbytes] at hlen
    have hsizeAt : data[pos + 1]? = some (UInt8.ofNat value.length) := hsecond (by omega)
    rw [index_of_getElem? hstands.head?, index_of_getElem? hsizeAt]
    simp only [Res.ok_bind, hsize]
    rw [if_neg hvalid.2.1, if_neg (by omega), hvalue.subslice_of_le (by omega), Res.ok_bind,
      read_eq f hvalid, Res.ok_bind, hbytes, Nat.add_assoc]

/-- Where no such item stands, the loop drops the answer. -/
theorem readItems_stuck {data : List UInt8} {pos : ℕ} (hlt : pos < data.length)
    (hno : ∀ (i : Item) rest, data.drop pos = i.bytes ++ rest → ¬ i.Readable rest) (f : Found) :
    readItems data pos f = .ok none := by
  rw [readItems, if_pos hlt]
  split_ifs with hend
  · rfl
  · have h0 := List.getElem?_eq_getElem hlt
    have h1 := List.getElem?_eq_getElem (l := data) (i := pos + 1) (by omega)
    -- An item that stands here would have a byte after its first two.
    have hnot (i : Item) (rest : List UInt8) (hd : data.drop pos = i.bytes ++ rest) :
        ¬ i.Valid := by
      intro hvalid
      refine hno i rest hd ⟨hvalid, ?_⟩
      rw [← hd, List.length_drop]
      omega
    rw [index_of_getElem? h0, index_of_getElem? h1]
    simp only [Res.ok_bind]
    by_cases hfour : data[pos] = 0x04
    · have hd : data.drop pos = (Item.type04 data[pos + 1]).bytes ++ data.drop (pos + 2) := by
        rw [drop_of_getElem? h0, drop_of_getElem? h1, hfour]
        rfl
      exact absurd trivial (hnot _ _ hd)
    · rw [if_neg hfour]
      by_cases hsize : pos + 2 + data[pos + 1].toNat > data.length
      · rw [if_pos hsize]
        rfl
      · obtain ⟨value, rest, hd, hlen⟩ := exists_tlv h0 h1 (Nat.not_lt.mp hsize)
        have hle : value.length ≤ 255 := by
          rw [hlen]
          exact Nat.le_of_lt_succ data[pos + 1].toNat_lt
        have hvalue : Stands data (pos + 2) value := by
          have hstands : Stands data pos (Item.tlv data[pos] value).bytes := ⟨rest, hd.symm⟩
          exact (stands_append (x := [data[pos], UInt8.ofNat value.length]).mp hstands).2
        rw [if_neg hsize, ← hlen, hvalue.subslice_of_le (by omega), Res.ok_bind,
          read_none f hfour hle (hnot _ _ hd)]
        rfl

/-- The loop of `parse` reads items. -/
theorem itemLoop_readItems (data : List UInt8) :
    ItemLoop data Item.bytes Item.Readable Item.update (readItems data) (fun f => .ok (some f))
      (.ok none) where
  enc_ne i := by cases i <;> exact List.cons_ne_nil _ _
  done pos f h := by
    rw [readItems, if_neg (Nat.not_lt.mpr h)]
  item _ f _ _ hd hi := readItems_item hd hi f
  stuck _ f hlt hno := readItems_stuck hlt hno f

/-! ### The answers -/

/-- What `parse` makes of what the items have set. -/
def reportFound (f : Found) : Option Device :=
  f.ip.map fun ip =>
    { protocol := "Vivotek".toList
      version := 1
      ip := ip
      mac := f.mac
      deviceType := f.model
      serial := f.mac }

/-- The magic is followed by the items. -/
theorem parse_of_magic {data : List UInt8} (h : Stands data 1 (toBe32 magic)) (src : SocketAddr) :
    parse src data = (readItems data headerSize ⟨[], [], none⟩ >>= fun found =>
      .ok (found.bind reportFound).toList) := by
  have hle : headerSize ≤ data.length := h.le (List.cons_ne_nil _ _)
  rw [parse, if_neg (Nat.not_lt.mpr hle), be32At_stands h, Res.ok_bind, if_neg (not_not.mpr rfl)]
  congr 1
  funext found
  cases found with
  | none => rfl
  | some f => cases hip : f.ip <;> simp [reportFound, hip]

/-- The answers are the data with the magic and with items. -/
theorem isAnswer_iff {data : List UInt8} {is : List Item} :
    IsAnswer data is ↔
      Stands data 1 (toBe32 magic) ∧
        Itemized Item.bytes Item.Readable (data.drop headerSize) is := by
  constructor
  · rintro ⟨session, body, rfl, hitems⟩
    exact ⟨⟨body, rfl⟩, hitems⟩
  · rintro ⟨hmagic, hitems⟩
    have hle := hmagic.le (List.cons_ne_nil _ _)
    rw [toBe32_length] at hle
    have h0 := List.getElem?_eq_getElem (l := data) (i := 0) (by omega)
    obtain ⟨body, hbody⟩ := hmagic
    have hdrop : data.drop headerSize = body := by
      rw [headerSize, show 5 = 1 + (toBe32 magic).length from rfl, ItemLoop.drop_add hbody.symm]
    refine ⟨data[0], body, ?_, hdrop ▸ hitems⟩
    rw [hbody]
    exact drop_of_getElem? h0

/-- An answer is reported. -/
theorem parse_of_isAnswer {data : List UInt8} {is : List Item} (h : IsAnswer data is)
    (src : SocketAddr) : parse src data = .ok (report is).toList := by
  obtain ⟨hmagic, hitems⟩ := isAnswer_iff.mp h
  rw [parse_of_magic hmagic, (itemLoop_readItems data).of_itemized hitems, foldl_update]
  simp [report, reportFound]

/-- Anything else is not. -/
theorem parse_of_not_isAnswer {data : List UInt8} (h : ∀ is, ¬ IsAnswer data is)
    (src : SocketAddr) : parse src data = .ok [] := by
  by_cases hlen : data.length < headerSize
  · exact if_pos hlen
  · have hle : 5 ≤ data.length := Nat.not_lt.mp hlen
    obtain ⟨x, rest, hsplit, hx⟩ := exists_append_of_le (b := data) (p := 1) (n := 4) (by omega)
    obtain ⟨m, rfl⟩ := exists_toBe32 hx
    have hstands : Stands data 1 (toBe32 m) := ⟨rest, hsplit.symm⟩
    by_cases hm : m = magic
    · subst hm
      have hitems : ∀ is, ¬ Itemized Item.bytes Item.Readable (data.drop headerSize) is :=
        fun is his => h is (isAnswer_iff.mpr ⟨hstands, his⟩)
      rw [parse_of_magic hstands, (itemLoop_readItems data).of_not_itemized hitems]
      rfl
    · rw [parse, if_neg hlen, be32At_stands hstands, Res.ok_bind, if_pos hm]
      rfl

/-- The parser reports a device for just the answers of the grammar that have an address, and takes
each field of the device from the last item that has it. It returns on all data. -/
theorem parse_vivotek_exact (src : SocketAddr) (data : List UInt8) :
    ∃ reported : Option Device, parse src data = .ok reported.toList ∧
      ∀ device, reported = some device ↔ ∃ is, IsAnswer data is ∧ report is = some device :=
  exists_reported (fun _ h => parse_of_isAnswer h src) fun h => parse_of_not_isAnswer h src

end Vivotek

end Uscan
