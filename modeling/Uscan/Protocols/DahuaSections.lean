import Uscan.Lib.LastWins
import Uscan.Protocols.Dahua

/-!
# The sections of a Dahua answer

An answer of the first Dahua engine is a header, a second section with a hardware address and
possibly a type, and a third section of lines. `Dahua1::parse` reports devices exactly for the
packets that are as long as the header says (`Framed`), and returns for all others. The sections are
parts of the packet without a gap: an index of the parser always is the end of the part before.
-/

namespace Uscan.Dahua1

/-! ## The lines of the third section -/

/-- The loop collects the keys and the values of the lines with a colon, the last one first. -/
theorem readLines_eq (ls : List (List Char)) (out : List (List Char × List Char)) :
    readLines ls out = .ok ((ls.filterMap (splitOnce ':')).reverse ++ out) := by
  induction ls generalizing out with
  | nil => rfl
  | cons line ls ih =>
    unfold readLines
    by_cases h : ':' ∈ line
    · obtain ⟨u, v, rfl, hu⟩ := List.eq_append_cons_of_mem h
      obtain ⟨hkey, hvalue⟩ := cut_at (ε := Empty) (show ':'.toNat < 128 by decide) u v
      rw [strFind_singleton_append hu v,
        List.filterMap_cons_some (splitOnce_append hu v)]
      dsimp only
      rw [hkey, Res.ok_bind, hvalue, Res.ok_bind, ih, List.reverse_cons, List.append_assoc,
        List.singleton_append]
    · rw [strFind_eq_none h, List.filterMap_cons_none (splitOnce_eq_none h)]
      exact ih out

/-- The value of the last line of a section with a key. -/
def lastLine (section3 : List UInt8) (key : String) : Option (List Char) :=
  lastValue (splitOnce ':') (lines (fromUtf8Lossy section3)) key.toList

/-- An empty section has no lines. -/
theorem lastLine_nil (key : String) : lastLine [] key = none := by
  rw [lastLine, show ([] : List UInt8) = utf8 [] from rfl, fromUtf8Lossy_utf8]
  rfl

/-- The map of a section has the value of the last line with a key. -/
theorem parseSection3_eq (section3 : List UInt8) :
    ∃ values, parseSection3 section3 = .ok values ∧
      ∀ key : String, get values key.toList = lastLine section3 key := by
  refine ⟨_, readLines_eq _ [], fun key => ?_⟩
  have htest : (fun e : List Char × List Char => e.1 == key.toList) =
      fun e => decide (e.1 = key.toList) := by
    funext e
    rw [Bool.eq_iff_iff, beq_iff_eq, decide_eq_true_iff]
  rw [get, htest, find?_eq_lookup, List.append_nil, lastLine, lastValue]

/-! ## The sections -/

/-- The packet is as long as its header says: the second section has `s2` bytes, and the third one
`s3`. -/
structure Framed (data : List UInt8) (s2 s3 : ℕ) : Prop where
  /-- The header is complete. -/
  length_le : 0x78 ≤ data.length
  /-- It is that of an answer. -/
  magic_eq : data[0]? = some 0xb3
  /-- It has the length of the second section. -/
  section2_eq : ∃ b, data[2]? = some b ∧ b.toNat = s2
  /-- It has the length of the third section, the low byte first. -/
  section3_eq : ∃ l0 l1, data[0x14]? = some l0 ∧ data[0x15]? = some l1 ∧ (le16 l0 l1).toNat = s3
  /-- Nothing follows. -/
  length_eq : data.length = 0x78 + s2 + s3

/-- The second section. -/
def section2 (data : List UInt8) (s2 : ℕ) : List UInt8 := (data.drop 0x78).take s2

/-- The third section. -/
def section3 (data : List UInt8) (s2 : ℕ) : List UInt8 := data.drop (0x78 + s2)

/-- The hardware address of an answer: the first bytes of the second section, at most 17. -/
def macOf (section2 : List UInt8) : List Char := fromUtf8Lossy (section2.take 17)

/-- The type of an answer: the other bytes of the second section, or else that of the header. -/
def typeOf (field section2 : List UInt8) : List Char :=
  if section2.drop 17 = [] then cstring field else fromUtf8Lossy (section2.drop 17)

/-- The serial number of an answer: that of the third section, or else the hardware address. -/
def serialOf (section2 section3 : List UInt8) : List Char :=
  (lastLine section3 "SerialNo").getD (macOf section2)

/-- The IPv6 address of an answer, without what follows a semicolon or a slash. -/
def ipv6Of (section3 : List UInt8) : Option IpAddr :=
  (lastLine section3 "IPv6Addr").bind fun v6 =>
    parseIpAddr ((v6.takeWhile (· != ';')).takeWhile (· != '/'))

/-- The address of an answer: the one in the header, or that of the sender if there is none. -/
def ipOf (src : SocketAddr) : List UInt8 → IpAddr
  | [a, b, c, d] => if [a, b, c, d] = [0, 0, 0, 0] then src.ip else .v4 ⟨a, b, c, d⟩
  | _ => src.ip

/-- The bytes of a packet from `i` on, before `j`. -/
theorem subslice_drop {data : List UInt8} {i j : ℕ} (hij : i ≤ j) (hj : j ≤ data.length) :
    (subslice data i j : Res Empty (List UInt8)) = .ok ((data.drop i).take (j - i)) := by
  rw [subslice_eq hij hj, List.drop_take]

/-- An integer is zero exactly if its bytes are. -/
theorem le32_eq_zero_iff {a b c d : UInt8} : le32 a b c d = 0 ↔ [a, b, c, d] = [0, 0, 0, 0] := by
  constructor
  · intro h
    have hbytes := toBe32_be32 d c b a
    rw [show be32 d c b a = 0 from h, show toBe32 0 = [0, 0, 0, 0] from rfl] at hbytes
    obtain ⟨rfl, rfl, rfl, rfl⟩ : 0 = d ∧ 0 = c ∧ 0 = b ∧ 0 = a := by simpa using hbytes
    rfl
  · intro h
    obtain ⟨rfl, rfl, rfl, rfl⟩ : a = 0 ∧ b = 0 ∧ c = 0 ∧ d = 0 := by simpa using h
    rfl

/-- The address is read from the header. -/
theorem answerIp_eq (src : SocketAddr) {data : List UInt8} (h : 0x3C ≤ data.length) :
    answerIp src data = .ok (ipOf src ((data.drop 0x38).take 4)) := by
  obtain ⟨x, y, hdrop, hx⟩ := exists_append_of_le (show 0x38 + 4 ≤ data.length from h)
  have hstands : Stands data 0x38 x := ⟨y, hdrop.symm⟩
  match x, hx with
  | [a, b, c, d], _ =>
    have hget (i : ℕ) (hi : i < 4) : data[0x38 + i]? = some [a, b, c, d][i] := hstands.getElem? hi
    have hraw : le32At data 0x38 = (.ok (le32 a b c d) : Res Empty UInt32) := by
      rw [le32At, index_of_getElem? (hget 0 (by decide)), Res.ok_bind,
        index_of_getElem? (hget 1 (by decide)), Res.ok_bind,
        index_of_getElem? (hget 2 (by decide)), Res.ok_bind,
        index_of_getElem? (hget 3 (by decide))]
      rfl
    have hip : ipv4At data 0x38 = (.ok ⟨a, b, c, d⟩ : Res Empty Ipv4Addr) :=
      @ipv4At_stands data 0x38 ⟨a, b, c, d⟩ hstands
    have htake : (data.drop 0x38).take 4 = [a, b, c, d] := by
      rw [hdrop]
      rfl
    rw [answerIp, hraw, Res.ok_bind, htake, ipOf, hip]
    by_cases hzero : le32 a b c d = 0
    · rw [if_neg (not_not.mpr hzero), if_pos (le32_eq_zero_iff.mp hzero)]
      rfl
    · rw [if_pos hzero, if_neg (mt le32_eq_zero_iff.mpr hzero)]
      rfl

/-! ## The devices -/

/-- The devices of an answer: one for its address, and one for its IPv6 address. -/
def report (src : SocketAddr) (data : List UInt8) (s2 : ℕ) : List Device :=
  let device (version : UInt32) (ip : IpAddr) : Device :=
    { protocol := "Dahua".toList
      version := version
      ip := ip
      mac := normalizeMac (macOf (section2 data s2))
      deviceType := typeOf ((data.drop 0x28).take 0x10) (section2 data s2)
      serial := serialOf (section2 data s2) (section3 data s2) }
  device 1 (ipOf src ((data.drop 0x38).take 4)) ::
    ((ipv6Of (section3 data s2)).map (device 2)).toList

/-- The values of the third section. -/
theorem readSection3_eq {data : List UInt8} {s2 s3 : ℕ} (h : data.length = 0x78 + s2 + s3)
    (ip : IpAddr) (macRaw model : List Char) :
    readSection3 data (section1Len + s2) s3 ip macRaw model =
      .ok (dahuaDevices 1 ip
        ((lastLine (section3 data s2) "IPv6Addr").map fun v6 =>
          (v6.takeWhile (· != ';')).takeWhile (· != '/'))
        (normalizeMac macRaw) model ((lastLine (section3 data s2) "SerialNo").getD macRaw)) := by
  obtain ⟨values, hparse, hget⟩ := parseSection3_eq (section3 data s2)
  -- The third section is the rest of the packet.
  have hsection : (subslice data (section1Len + s2) (section1Len + s2 + s3) :
      Res Empty (List UInt8)) = .ok (section3 data s2) := by
    rw [show section1Len = 0x78 from rfl, subslice_drop (by omega) (by omega), section3,
      List.take_of_length_le (by rw [List.length_drop]; omega)]
  have hcut (v6 : List Char) :
      cutIpv6 v6 = .ok ((v6.takeWhile (· != ';')).takeWhile (· != '/')) := by
    rw [cutIpv6, splitFirst_eq (by decide), Res.ok_bind, splitFirst_eq (by decide)]
  unfold readSection3
  dsimp only
  split_ifs with hs3
  · rw [hsection, Res.ok_bind, hparse, Res.ok_bind, hget, hget]
    cases lastLine (section3 data s2) "IPv6Addr" with
    | none => rfl
    | some v6 =>
      dsimp only
      rw [hcut]
      rfl
  · -- There are no lines.
    have hnil : section3 data s2 = [] := List.drop_eq_nil_of_le (by omega)
    rw [hnil, lastLine_nil, lastLine_nil]
    rfl

/-- The parts of the second section are cut where the address ends. -/
theorem section2_parts {data : List UInt8} {s2 : ℕ} (h : 0x78 + s2 ≤ data.length) :
    (subslice data section1Len (section1Len + min macMax s2) : Res Empty (List UInt8)) =
        .ok ((section2 data s2).take 17) ∧
      (subslice data (section1Len + min macMax s2) (section1Len + s2) : Res Empty (List UInt8)) =
        .ok ((section2 data s2).drop 17) ∧
      (s2 > min macMax s2 ↔ (section2 data s2).drop 17 ≠ []) := by
  rw [show section1Len = 0x78 from rfl, show macMax = 17 from rfl]
  refine ⟨?_, ?_, ?_⟩
  · rw [subslice_drop (by omega) (by omega), section2, List.take_take, Nat.add_sub_cancel_left]
  · rw [subslice_drop (by omega) (by omega), section2, List.drop_take, List.drop_drop]
    rcases le_total 17 s2 with hle | hle
    · rw [min_eq_left hle, Nat.add_sub_add_left]
    · rw [min_eq_right hle, Nat.sub_self, Nat.sub_eq_zero_of_le hle, List.take_zero, List.take_zero]
  · rw [← List.length_pos_iff, List.length_drop, section2, List.length_take, List.length_drop]
    omega

/-- The devices of an answer. -/
theorem parse_framed (src : SocketAddr) {data : List UInt8} {s2 s3 : ℕ} (h : Framed data s2 s3) :
    parse src data = .ok (report src data s2) := by
  have hlen := h.length_eq
  obtain ⟨b, hb, rfl⟩ := h.section2_eq
  obtain ⟨l0, l1, hl0, hl1, rfl⟩ := h.section3_eq
  obtain ⟨hmac, htype, hmore⟩ := section2_parts (show 0x78 + b.toNat ≤ data.length by omega)
  have hfield : (subslice data 0x28 0x38 : Res Empty (List UInt8)) =
      .ok ((data.drop 0x28).take 0x10) := subslice_drop (by omega) (by omega)
  have hlong : ¬ data.length < section1Len := not_lt.mpr h.length_le
  have htotal : section1Len + b.toNat + (le16 l0 l1).toNat = data.length := hlen.symm
  unfold parse
  -- The header, and the check of the length.
  rw [if_neg hlong, index_of_getElem? h.magic_eq, Res.ok_bind, if_neg (by simp),
    index_of_getElem? hb, Res.ok_bind, index_of_getElem? hl0, Res.ok_bind, index_of_getElem? hl1,
    Res.ok_bind, if_neg (not_not.mpr htotal), answerIp_eq src (by omega), Res.ok_bind, hfield,
    Res.ok_bind]
  dsimp only
  -- The sections, each of which starts where the one before ends.
  rw [hmac, Res.ok_bind, htype, Res.ok_bind, readSection3_eq hlen]
  have htypeOf (field : List UInt8) :
      (if b.toNat > min macMax b.toNat then fromUtf8Lossy ((section2 data b.toNat).drop 17)
        else cstring field) = typeOf field (section2 data b.toNat) := by
    unfold typeOf
    by_cases hnil : (section2 data b.toNat).drop 17 = []
    · rw [if_pos hnil, if_neg (mt hmore.mp (not_not.mpr hnil))]
    · rw [if_neg hnil, if_pos (hmore.mpr hnil)]
  have hipv6 : ((lastLine (section3 data b.toNat) "IPv6Addr").map fun v6 =>
      (v6.takeWhile (· != ';')).takeWhile (· != '/')).bind parseIpAddr =
        ipv6Of (section3 data b.toNat) := by
    rw [Option.bind_map]
    rfl
  rw [htypeOf, dahuaDevices, hipv6, report]
  cases ipv6Of (section3 data b.toNat) <;> rfl

/-- Other packets lead to no devices. -/
theorem parse_not_framed (src : SocketAddr) {data : List UInt8} (h : ∀ s2 s3, ¬ Framed data s2 s3) :
    parse src data = .ok [] := by
  unfold parse
  by_cases hshort : data.length < section1Len
  · rw [if_pos hshort]
  · -- The header is complete, so that its fields are read, but some check fails.
    have hlen : 0x78 ≤ data.length := not_lt.mp hshort
    rw [if_neg hshort, index_eq (show 0 < data.length by omega), Res.ok_bind,
      index_eq (show 2 < data.length by omega), Res.ok_bind,
      index_eq (show 0x14 < data.length by omega), Res.ok_bind,
      index_eq (show 0x15 < data.length by omega), Res.ok_bind]
    by_cases hmagic : data[0] = 0xb3
    · rw [if_neg (not_not.mpr hmagic), if_pos]
      · rfl
      · intro heq
        exact h _ _ ⟨by omega, List.getElem?_eq_some_iff.mpr ⟨_, hmagic⟩,
          ⟨_, List.getElem?_eq_getElem _, rfl⟩,
          ⟨_, _, List.getElem?_eq_getElem _, List.getElem?_eq_getElem _, rfl⟩, heq.symm⟩
    · rw [if_pos hmagic]
      rfl

/-- For every packet the parser returns. It reports devices exactly for the packets that are as long
as the header says, with the values of the sections. -/
theorem parse_sections (src : SocketAddr) (data : List UInt8) :
    (∃ devs, parse src data = .ok devs) ∧
      (parse src data ≠ .ok [] ↔ ∃ s2 s3, Framed data s2 s3) ∧
      ∀ s2 s3, Framed data s2 s3 → parse src data = .ok (report src data s2) := by
  by_cases h : ∃ s2 s3, Framed data s2 s3
  · obtain ⟨s2, s3, h⟩ := h
    have hparse := parse_framed src h
    refine ⟨⟨_, hparse⟩, iff_of_true ?_ ⟨s2, s3, h⟩, fun _ _ h' => parse_framed src h'⟩
    rw [hparse]
    simp [report]
  · have hnone : ∀ s2 s3, ¬ Framed data s2 s3 := fun s2 s3 h' => h ⟨s2, s3, h'⟩
    have hparse := parse_not_framed src hnone
    exact ⟨⟨_, hparse⟩, iff_of_false (not_not.mpr hparse) h,
      fun s2 s3 h' => absurd h' (hnone s2 s3)⟩

/-- An answer with all three sections: a type follows the hardware address, and the last of the
lines is that of an IPv6 address. -/
def threeSections : List UInt8 :=
  [0xb3, 0, 20] ++ List.replicate 17 0 ++ [36, 0] ++ List.replicate 98 0 ++
    utf8 "00:11:22:33:44:55IPC".toList ++ utf8 "SerialNo:1\r\nIPv6Addr:fe80::1/64;ff::".toList

/-- The parser reports two devices for it. -/
theorem parse_sections_three :
    Framed threeSections 20 36 ∧
      parse ⟨.v4 .unspecified, 5050⟩ threeSections =
        .ok (report ⟨.v4 .unspecified, 5050⟩ threeSections 20) ∧
      (report ⟨.v4 .unspecified, 5050⟩ threeSections 20).map (fun d => (d.version, d.serial)) =
        [(1, ['1']), (2, ['1'])] := by
  have hframed : Framed threeSections 20 36 :=
    ⟨by decide +kernel, rfl, ⟨20, rfl, rfl⟩, ⟨36, 0, rfl, rfl, rfl⟩, by decide +kernel⟩
  refine ⟨hframed, (parse_sections _ _).2.2 20 36 hframed, ?_⟩
  decide +kernel

end Uscan.Dahua1
