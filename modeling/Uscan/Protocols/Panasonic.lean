import Uscan.Protocols.Items

/-!
# Panasonic

An answer has a head of 53 bytes and a list of fields, each with a key and a size of two bytes.
`Panasonic::parse` reads a field only if at least one byte follows it, and looks for the next one
only if more than four bytes are left. So it reads all fields of an answer in which one to four
bytes follow the last one (`readTlvs_eq`), and keeps the first field of each key.
-/

namespace Uscan.Panasonic

/-- `HEADER_SIZE`. -/
def headerSize : ℕ := 52

/-- `TLV_START`. -/
def tlvStart : ℕ := 53

/-- `TLV_IPV4`. -/
def tlvIpv4 : UInt16 := 0x0020

/-- `TLV_FULLNAME`. -/
def tlvFullname : UInt16 := 0x00A7

/-- `TLV_SHORTNAME`. -/
def tlvShortname : UInt16 := 0x00A8

/-- The fields that have been read: their keys and values. -/
abbrev Fields := List (UInt16 × List UInt8)

/-- The push of `parse`: a field whose key is new. -/
def pushField (data : List UInt8) (tlv : Fields) (key : UInt16) (i length : ℕ) : Res Empty Fields :=
  if tlv.any (·.1 == key) then .ok tlv
  else do
    let value ← subslice data i (i + length)
    return tlv ++ [(key, value)]

/-- The loop of `parse` over the fields, from `i` on. -/
def readTlvs (data : List UInt8) (i : ℕ) (tlv : Fields) : Res Empty Fields :=
  -- A difference below zero panics.
  if data.length < 4 then .panicked
  else if i < data.length - 4 then do
    let k0 ← index data i
    let k1 ← index data (i + 1)
    let l0 ← index data (i + 2)
    let l1 ← index data (i + 3)
    -- A field that ends with the packet is not read.
    if i + 4 + (be16 l0 l1).toNat ≥ data.length then return tlv
    else
      let tlv ← pushField data tlv (be16 k0 k1) (i + 4) (be16 l0 l1).toNat
      readTlvs data (i + 4 + (be16 l0 l1).toNat) tlv
  else .ok tlv
termination_by data.length - i

/-- `get`: the value of a field. -/
def get (tlv : Fields) (key : UInt16) : Option (List UInt8) := (tlv.find? (·.1 == key)).map (·.2)

/-- The address in a value of four or sixteen bytes. -/
def readIp (value : Option (List UInt8)) : Res Empty (Option IpAddr) :=
  match value with
  | some v =>
    if v.length = 4 then do
      let ip ← ipv4At v 0
      return some (.v4 ip)
    else if v.length = 16 then do
      let ip ← Ipv6Addr.ofSlice v
      return some (.v6 ip)
    else .ok none
  | none => .ok none

/-- The device of an answer, if it has a model and an address. -/
def devices (serial : List Char) (model : Option (List UInt8)) (ip : Option IpAddr) :
    List Device :=
  match model, ip with
  | some model, some ip =>
    [{
      protocol := "Panasonic".toList
      version := 1
      ip := ip
      mac := serial
      deviceType := fromUtf8Lossy model
      serial := serial }]
  | _, _ => []

/-- `Panasonic::parse`. -/
def parse (_src : SocketAddr) (data : List UInt8) : Res Empty (List Device) :=
  if data.length ≤ headerSize then .ok []
  else do
    let serial ← macAt data 6
    let tlv ← readTlvs data tlvStart []
    let ip ← readIp (get tlv tlvIpv4)
    return devices serial (get tlv tlvFullname <|> get tlv tlvShortname) ip

/-! ## The fields -/

/-- A field of an answer. -/
structure Tlv where
  /-- The key. -/
  key : UInt16
  /-- The value. -/
  value : List UInt8
  /-- Its size fits in two bytes. -/
  length_le : value.length ≤ 65535

namespace Tlv

/-- A field on the wire: the key, the size, and the value. -/
def bytes (t : Tlv) : List UInt8 := toBe16 t.key ++ toBe16 (UInt16.ofNat t.value.length) ++ t.value

/-- A field after other ones: it is kept if its key is new. -/
def push (tlv : Fields) (t : Tlv) : Fields :=
  if tlv.any (·.1 == t.key) then tlv else tlv ++ [(t.key, t.value)]

/-- The size of a field on the wire. -/
theorem toNat_length (t : Tlv) : (UInt16.ofNat t.value.length).toNat = t.value.length :=
  UInt16.toNat_ofNat_of_lt' (Nat.lt_succ_of_le t.length_le)

end Tlv

/-- The value of the first field with a key. -/
def firstValue (tlvs : List Tlv) (key : UInt16) : Option (List UInt8) :=
  (tlvs.find? (·.key == key)).map Tlv.value

/-- The value of a field for a key. -/
def valueOf (t : Tlv) (key : UInt16) : Option (List UInt8) :=
  if t.key = key then some t.value else none

/-- The first field counts if it has the key. -/
theorem firstValue_cons (t : Tlv) (tlvs : List Tlv) (key : UInt16) :
    firstValue (t :: tlvs) key = (valueOf t key).or (firstValue tlvs key) := by
  unfold firstValue valueOf
  by_cases h : t.key = key
  · rw [List.find?_cons_of_pos (by simpa using h), if_pos h]
    rfl
  · rw [List.find?_cons_of_neg (by simpa using h), if_neg h, Option.none_or]

/-- A field counts after the fields that were kept before. -/
theorem get_push (tlv : Fields) (t : Tlv) (key : UInt16) :
    get (Tlv.push tlv t) key = (get tlv key).or (valueOf t key) := by
  unfold Tlv.push get valueOf
  split_ifs with hany h h
  · -- The key is not new, so that there is a value already.
    obtain ⟨e, he⟩ := Option.isSome_iff_exists.mp (List.find?_isSome.mpr (List.any_eq_true.mp hany))
    subst h
    rw [he]
    rfl
  · rw [Option.or_none]
  · rw [List.find?_append, List.find?_cons_of_pos (by simpa using h), Option.map_or]
    rfl
  · rw [List.find?_append, List.find?_cons_of_neg (by simpa using h), Option.map_or]
    rfl

/-- Of the fields with a key, the first one is kept. -/
theorem get_foldl_push (tlvs : List Tlv) (tlv : Fields) (key : UInt16) :
    get (tlvs.foldl Tlv.push tlv) key = (get tlv key).or (firstValue tlvs key) := by
  induction tlvs generalizing tlv with
  | nil => exact (Option.or_none).symm
  | cons t tlvs ih => rw [List.foldl_cons, ih, get_push, firstValue_cons, Option.or_assoc]

/-! ## The loop -/

/-- A field in the packet is pushed. -/
theorem pushField_eq (u v w : List UInt8) (tlv : Fields) (t : Tlv) (h : t.value = v) :
    pushField (u ++ (v ++ w)) tlv t.key u.length v.length = .ok (Tlv.push tlv t) := by
  unfold pushField Tlv.push
  split_ifs
  · rfl
  · rw [subslice_append, h]
    rfl

/-- The loop takes a field that more than zero bytes follow. -/
theorem readTlvs_cons (u : List UInt8) (t : Tlv) {w : List UInt8} (hw : w ≠ []) (tlv : Fields) :
    readTlvs (u ++ (t.bytes ++ w)) u.length tlv =
      readTlvs (u ++ t.bytes ++ w) (u ++ t.bytes).length (Tlv.push tlv t) := by
  have hpos := List.length_pos_iff.mpr hw
  -- The four bytes before the value.
  have hindex (i : ℕ) {x : UInt8} (hx : (t.bytes ++ w)[i]? = some x) :
      (index (u ++ (t.bytes ++ w)) (u.length + i) : Res Empty UInt8) = .ok x := by
    apply index_of_getElem?
    rw [List.getElem?_append_right (Nat.le_add_right _ _), Nat.add_sub_cancel_left, hx]
  have hlen : (u ++ (t.bytes ++ w)).length = u.length + 4 + t.value.length + w.length := by
    simp [Tlv.bytes]
    omega
  have hvalue := pushField_eq (u ++ toBe16 t.key ++ toBe16 (UInt16.ofNat t.value.length)) t.value w
    tlv t rfl
  have hhead : (u ++ toBe16 t.key ++ toBe16 (UInt16.ofNat t.value.length)).length =
      u.length + 4 := by simp
  have hpacket : u ++ toBe16 t.key ++ toBe16 (UInt16.ofNat t.value.length) ++ (t.value ++ w) =
      u ++ (t.bytes ++ w) := by simp [Tlv.bytes]
  have hnext : u.length + 4 + t.value.length = (u ++ t.bytes).length := by
    simp [Tlv.bytes]
    omega
  rw [hhead, hpacket] at hvalue
  rw [readTlvs, if_neg (by omega), if_pos (by omega), show u.length = u.length + 0 from rfl,
    hindex 0 rfl, Res.ok_bind, Nat.add_zero, hindex 1 rfl, Res.ok_bind, hindex 2 rfl, Res.ok_bind,
    hindex 3 rfl, Res.ok_bind, be16_toBe16, be16_toBe16, t.toNat_length, if_neg (by omega), hvalue,
    Res.ok_bind, hnext, List.append_assoc u]

/-- Where one to four bytes follow the last field, the loop takes all fields. -/
theorem readTlvs_eq (tlvs : List Tlv) (u : List UInt8) {tail : List UInt8} (htail : tail ≠ [])
    (hle : tail.length ≤ 4) (tlv : Fields) (hu : 4 ≤ u.length) :
    readTlvs (u ++ (tlvs.flatMap Tlv.bytes ++ tail)) u.length tlv =
      .ok (tlvs.foldl Tlv.push tlv) := by
  induction tlvs generalizing u tlv with
  | nil =>
    -- No more than four bytes are left.
    rw [List.flatMap_nil, List.nil_append, readTlvs, if_neg (by simp; omega),
      if_neg (by simp; omega), List.foldl_nil]
  | cons t tlvs ih =>
    -- At least the last bytes follow a field.
    rw [List.flatMap_cons, List.append_assoc, readTlvs_cons u t (by simp [htail]), List.foldl_cons,
      ih (u ++ t.bytes) _ (by simp; omega)]

/-- A push inside the packet returns. -/
theorem pushField_ok {data : List UInt8} {i length : ℕ} (h : i + length ≤ data.length)
    (tlv : Fields) (key : UInt16) : ∃ tlv', pushField data tlv key i length = .ok tlv' := by
  unfold pushField
  split_ifs
  · exact ⟨tlv, rfl⟩
  · rw [subslice_eq (Nat.le_add_right _ _) h]
    exact ⟨_, rfl⟩

/-- On a packet of four bytes or more, the loop returns. The induction is on how much is left. -/
theorem readTlvs_ok {data : List UInt8} (hlen : 4 ≤ data.length) (i : ℕ) (tlv : Fields) :
    ∃ tlv', readTlvs data i tlv = .ok tlv' := by
  induction hn : data.length - i using Nat.strongRecOn generalizing i tlv with
  | ind n ih =>
    rw [readTlvs, if_neg (by omega)]
    split_ifs with hi
    · rw [index_eq (show i < data.length by omega), Res.ok_bind,
        index_eq (show i + 1 < data.length by omega), Res.ok_bind,
        index_eq (show i + 2 < data.length by omega), Res.ok_bind,
        index_eq (show i + 3 < data.length by omega), Res.ok_bind]
      split_ifs with hover
      · exact ⟨tlv, rfl⟩
      · obtain ⟨tlv', hpush⟩ := pushField_ok (Nat.le_of_lt (Nat.lt_of_not_le hover)) tlv
          (be16 data[i] data[i + 1])
        rw [hpush, Res.ok_bind]
        exact ih _ (by omega) _ _ rfl
    · exact ⟨tlv, rfl⟩

/-! ## The device -/

/-- The octets of an address. -/
def octets : IpAddr → List UInt8
  | .v4 ip => ip.octets
  | .v6 ip => ip.octets

/-- The values of four or sixteen bytes are the octets of the addresses. -/
theorem exists_ip_iff {value : List UInt8} :
    (∃ ip, value = octets ip) ↔ value.length = 4 ∨ value.length = 16 := by
  constructor
  · rintro ⟨ip | ip, rfl⟩
    · exact .inl rfl
    · exact .inr ip.octets_length
  · rintro (h | h)
    · obtain ⟨ip, rfl⟩ := exists_octets h
      exact ⟨.v4 ip, rfl⟩
    · obtain ⟨ip, rfl⟩ := Ipv6Addr.exists_octets h
      exact ⟨.v6 ip, rfl⟩

/-- The octets of an address are read as the address. -/
theorem readIp_octets (ip : IpAddr) : readIp (some (octets ip)) = .ok (some ip) := by
  cases ip with
  | v4 ip =>
    have hread : ipv4At ip.octets 0 = .ok ip := ipv4At_stands List.prefix_rfl
    rw [readIp, octets, if_pos (show ip.octets.length = 4 from rfl), hread]
    rfl
  | v6 ip =>
    rw [readIp, octets, if_neg (by rw [ip.octets_length]; decide), if_pos ip.octets_length,
      Ipv6Addr.ofSlice_octets]
    rfl

/-- A value that is no octets is no address. -/
theorem readIp_none {value : Option (List UInt8)} (h : ∀ ip, value ≠ some (octets ip)) :
    readIp value = .ok none := by
  unfold readIp
  split
  · next v =>
    have hlen : ¬ (v.length = 4 ∨ v.length = 16) := fun hlen => by
      obtain ⟨ip, rfl⟩ := exists_ip_iff.mpr hlen
      exact h ip rfl
    rw [not_or] at hlen
    rw [if_neg hlen.1, if_neg hlen.2]
  · rfl

/-- Reading an address returns. -/
theorem readIp_ok (value : Option (List UInt8)) : ∃ ip, readIp value = .ok ip := by
  by_cases h : ∃ ip, value = some (octets ip)
  · obtain ⟨ip, rfl⟩ := h
    exact ⟨_, readIp_octets ip⟩
  · exact ⟨_, readIp_none (not_exists.mp h)⟩

/-- `Panasonic::parse` returns. -/
theorem parse_ok (src : SocketAddr) (data : List UInt8) :
    ∃ devs, parse src data = .ok devs := by
  unfold parse
  split_ifs with hlen
  · exact ⟨[], rfl⟩
  · have hlen' : 52 < data.length := Nat.lt_of_not_le hlen
    obtain ⟨tlv, htlv⟩ := readTlvs_ok (show 4 ≤ data.length by omega) tlvStart []
    obtain ⟨ip, hip⟩ := readIp_ok (get tlv tlvIpv4)
    rw [macAt_eq (show 6 + 6 ≤ data.length by omega), Res.ok_bind, htlv, Res.ok_bind, hip]
    exact ⟨_, rfl⟩

/-- The packet of a head, fields, and some more bytes. -/
def packet (head : List UInt8) (tlvs : List Tlv) (tail : List UInt8) : List UInt8 :=
  head ++ (tlvs.flatMap Tlv.bytes ++ tail)

/-- The name of a device: its full name, or else its short name. -/
def name (tlvs : List Tlv) : Option (List UInt8) :=
  firstValue tlvs tlvFullname <|> firstValue tlvs tlvShortname

/-- There is a first value exactly if there is a field with the key. -/
theorem firstValue_ne_none_iff {tlvs : List Tlv} {key : UInt16} :
    firstValue tlvs key ≠ none ↔ ∃ t ∈ tlvs, t.key = key := by
  simp [firstValue]

/-- There is a name exactly if there is a field with one. -/
theorem name_ne_none_iff {tlvs : List Tlv} :
    name tlvs ≠ none ↔ ∃ t ∈ tlvs, t.key = tlvFullname ∨ t.key = tlvShortname := by
  have hname : name tlvs ≠ none ↔
      firstValue tlvs tlvFullname ≠ none ∨ firstValue tlvs tlvShortname ≠ none := by
    unfold name
    cases firstValue tlvs tlvFullname <;> simp
  rw [hname, firstValue_ne_none_iff, firstValue_ne_none_iff, ← exists_or]
  simp only [and_or_left]

/-- What the parser makes of a packet. -/
theorem parse_packet_eq (src : SocketAddr) {head tail : List UInt8} (hhead : head.length = 53)
    (htail : 1 ≤ tail.length ∧ tail.length ≤ 4) (tlvs : List Tlv) :
    parse src (packet head tlvs tail) =
      readIp (firstValue tlvs tlvIpv4) >>= fun ip =>
        .ok (devices (macText [':'] ((head.drop 6).take 6)) (name tlvs) ip) := by
  have hne : tail ≠ [] := List.length_pos_iff.mp htail.1
  have hread := readTlvs_eq tlvs head hne htail.2 [] (by omega)
  have hlen : ¬ (packet head tlvs tail).length ≤ headerSize := by
    simp [packet, headerSize]
    omega
  have hmac : macAt (packet head tlvs tail) 6 = .ok (macText [':'] ((head.drop 6).take 6)) := by
    rw [macAt_eq (by simp [packet]; omega), packet, List.drop_append_of_le_length (by omega),
      List.take_append_of_le_length (by simp; omega)]
  have hget (key : UInt16) : get (tlvs.foldl Tlv.push []) key = firstValue tlvs key := by
    rw [get_foldl_push]
    exact Option.none_or
  rw [hhead] at hread
  unfold parse
  rw [if_neg hlen, hmac, Res.ok_bind, packet, show tlvStart = 53 from rfl, hread, Res.ok_bind,
    hget, hget, hget]
  rfl

/-- For every head, every list of fields, and one to four bytes after them, the parser sees the
first field of every key: it reports a device exactly if there is a name and the address has four or
sixteen bytes. For every packet, it returns. -/
theorem parse_packet (src : SocketAddr) (head : List UInt8) (tlvs : List Tlv) (tail : List UInt8)
    (hhead : head.length = 53) (htail : 1 ≤ tail.length ∧ tail.length ≤ 4) (data : List UInt8) :
    (parse src (packet head tlvs tail) ≠ .ok [] ↔
      (∃ t ∈ tlvs, t.key = tlvFullname ∨ t.key = tlvShortname) ∧
        ∃ value, firstValue tlvs tlvIpv4 = some value ∧
          (value.length = 4 ∨ value.length = 16)) ∧
      (∀ model ip, name tlvs = some model → firstValue tlvs tlvIpv4 = some (octets ip) →
        parse src (packet head tlvs tail) = .ok [{
          protocol := "Panasonic".toList
          version := 1
          ip := ip
          mac := macText [':'] ((head.drop 6).take 6)
          deviceType := fromUtf8Lossy model
          serial := macText [':'] ((head.drop 6).take 6) }]) ∧
      ∃ devs, parse src data = .ok devs := by
  have hparse := parse_packet_eq src hhead htail tlvs
  refine ⟨?_, ?_, parse_ok src data⟩
  · rw [hparse, ← name_ne_none_iff]
    by_cases hvalue : ∃ ip, firstValue tlvs tlvIpv4 = some (octets ip)
    · obtain ⟨ip, hip⟩ := hvalue
      -- With an address, the name decides.
      rw [hip, readIp_octets, Res.ok_bind]
      have hsize := exists_ip_iff.mp ⟨ip, rfl⟩
      cases name tlvs <;> simp [devices, hsize]
    · -- Without an address of four or sixteen bytes there is no device.
      rw [readIp_none (not_exists.mp hvalue), Res.ok_bind]
      refine iff_of_false ?_ ?_
      · unfold devices
        cases name tlvs <;> simp
      · rintro ⟨-, value, hfirst, hsize⟩
        obtain ⟨ip, rfl⟩ := exists_ip_iff.mpr hsize
        exact hvalue ⟨ip, hfirst⟩
  · intro model ip hmodel hip
    rw [hparse, hip, readIp_octets, Res.ok_bind, hmodel]
    rfl

/-- A field with a short name, one with a full name, and two with an address. -/
def twoNames : List Tlv :=
  [⟨tlvShortname, utf8 "S".toList, by decide⟩, ⟨tlvFullname, utf8 "F".toList, by decide⟩,
    ⟨tlvIpv4, [10, 0, 0, 7], by decide⟩, ⟨tlvIpv4, [], by decide⟩]

/-- The full name and the first address count. -/
theorem parse_packet_twoNames :
    (List.replicate 53 (0xA0 : UInt8)).length = 53 ∧
      (1 ≤ [(0 : UInt8)].length ∧ [(0 : UInt8)].length ≤ 4) ∧
      parse ⟨.v4 .unspecified, 10669⟩ (packet (List.replicate 53 0xA0) twoNames [0]) = .ok [{
        protocol := "Panasonic".toList
        version := 1
        ip := .v4 ⟨10, 0, 0, 7⟩
        mac := "A0:A0:A0:A0:A0:A0".toList
        deviceType := "F".toList
        serial := "A0:A0:A0:A0:A0:A0".toList }] := by
  have hhead : (List.replicate 53 (0xA0 : UInt8)).length = 53 := List.length_replicate
  have htail : 1 ≤ [(0 : UInt8)].length ∧ [(0 : UInt8)].length ≤ 4 := by decide
  refine ⟨hhead, htail, ?_⟩
  rw [(parse_packet _ _ twoNames _ hhead htail []).2.1 (utf8 "F".toList) (.v4 ⟨10, 0, 0, 7⟩)
    (by decide) (by decide), fromUtf8Lossy_utf8]
  decide

end Uscan.Panasonic
