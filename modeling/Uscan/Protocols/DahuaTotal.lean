import Uscan.Protocols.JsonMatch

/-!
# The Dahua parser on every packet

The extraction of texts and sections from the JSON text of an answer never panics. The cut of the
IPv6 address goes one byte before the first slash, which is one character before it only if that
character is ASCII; otherwise the cut falls inside the character and panics (`cutIpv6_inside`). With
the lossy decoder, any byte that is not UTF-8 makes such a character. `parse_total_iff` says for
which packets the parser returns and cuts as many characters as it means to.
-/

namespace Uscan.Dahua2

/-! ## The cut of the IPv6 address -/

/-- A slash or a backslash. -/
def IsSlash (c : Char) : Prop := c = '/' ∨ c = '\\'

/-- The text has its first slash after `before` and the character `x`. -/
structure SlashAfter (text before : List Char) (x : Char) : Prop where
  /-- A slash stands there. -/
  exists_slash : ∃ c rest, IsSlash c ∧ text = before ++ [x] ++ c :: rest
  /-- No slash stands before. -/
  not_before : ∀ y ∈ before ++ [x], ¬ IsSlash y

/-- The first slash after a part without one. -/
theorem findSlash_append {u : List Char} (hu : ∀ y ∈ u, ¬ IsSlash y) {c : Char} (hc : IsSlash c)
    (rest : List Char) : findSlash (u ++ c :: rest) = some (byteLen u) := by
  induction u with
  | nil => exact if_pos hc
  | cons x u ih =>
    have hx : ¬ (x = '/' ∨ x = '\\') := hu x List.mem_cons_self
    rw [List.cons_append, findSlash, if_neg hx, ih fun y hy => hu y (List.mem_cons_of_mem _ hy),
      Option.map_some, ← byteLen_cons]

/-- A slash that is found stands after a part without one. -/
theorem exists_of_findSlash {s : List Char} {n : ℕ} (h : findSlash s = some n) :
    ∃ u c rest, s = u ++ c :: rest ∧ (∀ y ∈ u, ¬ IsSlash y) ∧ IsSlash c ∧ byteLen u = n := by
  induction s generalizing n with
  | nil => cases h
  | cons x s ih =>
    unfold findSlash at h
    split_ifs at h with hx
    · cases h
      exact ⟨[], x, s, rfl, fun y hy => absurd hy List.not_mem_nil, hx, rfl⟩
    · obtain ⟨m, hm, rfl⟩ := Option.map_eq_some_iff.mp h
      obtain ⟨u, c, rest, rfl, hu, hc, hlen⟩ := ih hm
      refine ⟨x :: u, c, rest, rfl, fun y hy => ?_, hc, by rw [byteLen_cons, hlen]⟩
      rcases List.mem_cons.mp hy with rfl | hy
      · exact hx
      · exact hu y hy

/-- Where the character before the first slash is ASCII, it is cut off with what follows. -/
theorem cutIpv6_ascii {text before : List Char} {x : Char} (h : SlashAfter text before x)
    (hx : x.toNat < 128) : cutIpv6 text = .ok before := by
  obtain ⟨c, rest, hc, rfl⟩ := h.exists_slash
  have hfind := findSlash_append h.not_before hc rest
  have hlen : byteLen (before ++ [x]) = byteLen before + 1 := by
    rw [byteLen_append, byteLen_ascii hx]
  have hslice := strSlice_append (ε := Empty) [] before ([x] ++ c :: rest)
  rw [List.nil_append, byteLen_nil, Nat.zero_add, ← List.append_assoc] at hslice
  rw [cutIpv6, hfind, hlen]
  exact hslice

/-- Where the character before the first slash is not ASCII, the cut falls inside it. -/
theorem cutIpv6_inside {text before : List Char} {x : Char} (h : SlashAfter text before x)
    (hx : 128 ≤ x.toNat) : cutIpv6 text = .panicked := by
  obtain ⟨c, rest, hc, rfl⟩ := h.exists_slash
  have hfind := findSlash_append h.not_before hc rest
  have hlt := one_lt_byteLen hx
  rw [cutIpv6, hfind]
  dsimp only
  rw [byteLen_append, if_pos (by omega), strSlice, List.append_assoc, List.singleton_append,
    Nat.add_sub_assoc (by omega), splitAtByte_inside before _ (by omega) (by omega)]

/-- Without a slash, or with one at the start, the text stays as it is. -/
theorem cutIpv6_whole {text : List Char} (h : ∀ before x, ¬ SlashAfter text before x) :
    cutIpv6 text = .ok text := by
  unfold cutIpv6
  cases hfind : findSlash text with
  | none => rfl
  | some sub =>
    obtain ⟨u, c, rest, rfl, hu, hc, rfl⟩ := exists_of_findSlash hfind
    rcases List.eq_nil_or_concat u with rfl | ⟨before, x, rfl⟩
    · rfl
    · rw [List.concat_eq_append] at hu h
      exact absurd ⟨⟨c, rest, hc, rfl⟩, hu⟩ (h before x)

/-! ## The packet -/

/-- The packet is an accepted answer whose text has the IPv6 address `v6`. -/
structure HasIpv6 (data : List UInt8) (v6 : List Char) : Prop where
  /-- The header is complete. -/
  length_le : headerSize ≤ data.length
  /-- It says how long it is itself. -/
  size_eq : le32At data 0 = (.ok (UInt32.ofNat headerSize) : Res Empty UInt32)
  /-- It says how long the text is. -/
  packetSize_eq :
    le32At data 0x10 = (.ok (UInt32.ofNat (data.length - headerSize)) : Res Empty UInt32)
  /-- The text is an answer to the probe. -/
  method_eq : extractJsonString "method".toList (fromUtf8Lossy (data.drop headerSize)) =
    .ok (some "client.notifyDevInfo".toList)
  /-- The address of its IPv6 section. -/
  ipv6_eq : addressIn "IPv6Address".toList (fromUtf8Lossy (data.drop headerSize)) = .ok (some v6)

/-- The address text of a section is extracted without a panic. -/
theorem addressIn_eq_ok (sectionKey json : List Char) :
    ∃ value, addressIn sectionKey json = .ok value := by
  unfold addressIn
  rw [extractJsonSection_eq, Res.ok_bind]
  cases (jsonSectionRe sectionKey).capture json with
  | none => exact ⟨none, rfl⟩
  | some sec => exact extractJsonString_eq_ok _ sec

/-- The devices of an answer, by the text that the address parser is handed. -/
def answerDevices (device : Device) (ipv6 : Option (List Char)) : List Device :=
  device :: ((ipv6.bind parseIpAddr).map fun ip6 => { device with version := 2, ip := ip6 }).toList

/-- The devices of an answer are one for its address and one for its IPv6 address. -/
theorem dahuaDevices_eq (ip : IpAddr) (ipv6 : Option (List Char))
    (mac deviceType serial : List Char) :
    dahuaDevices 2 ip ipv6 mac deviceType serial =
      answerDevices ⟨"Dahua".toList, 2, ip, mac, deviceType, serial⟩ ipv6 := by
  unfold dahuaDevices answerDevices
  cases ipv6.bind parseIpAddr <;> rfl

/-- The text of an answer of another method leads to no devices. -/
theorem readBody_other {src : SocketAddr} {json : List Char} {method : Option (List Char)}
    (hmethod : extractJsonString "method".toList json = .ok method)
    (hne : method.getD [] ≠ "client.notifyDevInfo".toList) : readBody src json = .ok [] := by
  unfold readBody
  rw [hmethod, Res.ok_bind, if_pos hne]
  rfl

/-- The text of an answer to the probe leads to a device, and to one more where the address parser
reads what the cut leaves of the IPv6 address. -/
theorem readBody_answer (src : SocketAddr) {json : List Char} {method : Option (List Char)}
    (hmethod : extractJsonString "method".toList json = .ok method)
    (heq : method.getD [] = "client.notifyDevInfo".toList) {v6 : Option (List Char)}
    (hv6 : addressIn "IPv6Address".toList json = .ok v6) :
    ∃ device, readBody src json =
      (match v6 with
        | some v6 => some <$> cutIpv6 v6
        | none => .ok none) >>= fun ipv6 => .ok (answerDevices device ipv6) := by
  obtain ⟨deviceType, htype⟩ := extractJsonString_eq_ok "DeviceType".toList json
  obtain ⟨ipv4, hipv4⟩ := addressIn_eq_ok "IPv4Address".toList json
  obtain ⟨mac, hmac⟩ := extractJsonString_eq_ok "mac".toList json
  obtain ⟨serial, hserial⟩ := extractJsonString_eq_ok "SerialNo".toList json
  unfold readBody
  rw [hmethod, Res.ok_bind, if_neg (by simp [heq]), htype, Res.ok_bind, hipv4, Res.ok_bind, hv6,
    Res.ok_bind, hmac, hserial]
  -- The address of the answer, or of its sender.
  let ip := (parseIpAddr (ipv4.getD src.ip.text)).getD src.ip
  refine ⟨⟨"Dahua".toList, 2, if ip = .v4 .unspecified then src.ip else ip,
    mac.elim [] normalizeMac, deviceType.getD "Dahua".toList,
    (serial <|> mac).getD "Dahua device".toList⟩, ?_⟩
  cases v6 with
  | none => exact congrArg Res.ok (dahuaDevices_eq _ _ _ _ _)
  | some v6 =>
    dsimp only
    cases cutIpv6 v6 with
    | ok t => exact congrArg Res.ok (dahuaDevices_eq _ _ _ _ _)
    | err e => rfl
    | panicked => rfl

/-- A packet with an IPv6 address leads to what the text of the answer leads to. -/
theorem HasIpv6.parse_eq {data : List UInt8} {v6 : List Char} (h : HasIpv6 data v6)
    (src : SocketAddr) :
    ∃ device, parse src data = cutIpv6 v6 >>= fun t => .ok (answerDevices device (some t)) := by
  obtain ⟨device, hbody⟩ := readBody_answer src h.method_eq rfl h.ipv6_eq
  refine ⟨device, ?_⟩
  unfold parse
  rw [if_neg (by have := h.length_le; omega), h.size_eq, Res.ok_bind, if_neg (by simp),
    h.packetSize_eq, Res.ok_bind, if_neg (by simp), hbody]
  dsimp only
  cases cutIpv6 v6 <;> rfl

/-- A packet without an IPv6 address leads to some devices. -/
theorem parse_of_not_hasIpv6 (src : SocketAddr) {data : List UInt8}
    (h : ∀ v6, ¬ HasIpv6 data v6) : ∃ devs, parse src data = .ok devs := by
  unfold parse
  by_cases hlen : data.length < headerSize
  · exact ⟨[], if_pos hlen⟩
  have hlen' : 0x20 ≤ data.length := not_lt.mp hlen
  obtain ⟨size, hsize⟩ := le32At_eq_ok (i := 0) (show 0 + 3 < data.length by omega)
  obtain ⟨packetSize, hpacket⟩ := le32At_eq_ok (i := 0x10) (show 0x10 + 3 < data.length by omega)
  rw [if_neg hlen, hsize, Res.ok_bind, hpacket, Res.ok_bind]
  by_cases hsizeEq : size = UInt32.ofNat headerSize
  · rw [if_neg (not_not.mpr hsizeEq)]
    by_cases hpacketEq : packetSize = UInt32.ofNat (data.length - headerSize)
    · rw [if_neg (not_not.mpr hpacketEq)]
      obtain ⟨method, hmethod⟩ :=
        extractJsonString_eq_ok "method".toList (fromUtf8Lossy (data.drop headerSize))
      obtain ⟨v6, hv6⟩ :=
        addressIn_eq_ok "IPv6Address".toList (fromUtf8Lossy (data.drop headerSize))
      by_cases hanswer : method.getD [] = "client.notifyDevInfo".toList
      · obtain ⟨device, hbody⟩ := readBody_answer src hmethod hanswer hv6
        rw [hbody]
        cases v6 with
        | none => exact ⟨_, rfl⟩
        | some v6 =>
          -- An accepted answer with an address is what the hypothesis excludes.
          have hsome : method = some "client.notifyDevInfo".toList := by
            cases method with
            | none => exact absurd hanswer (by decide +kernel)
            | some m => exact congrArg some hanswer
          exact absurd ⟨hlen', hsizeEq ▸ hsize, hpacketEq ▸ hpacket, hsome ▸ hmethod, hv6⟩ (h v6)
      · exact ⟨[], readBody_other hmethod hanswer⟩
    · exact ⟨[], if_pos hpacketEq⟩
  · exact ⟨[], if_pos hsizeEq⟩

/-- The parser returns, and hands the address parser all but the last character before the first
slash, exactly when that character is ASCII in the IPv6 address of an accepted answer. -/
theorem parse_total_iff (src : SocketAddr) (data : List UInt8) :
    ((∃ devs, parse src data = .ok devs) ∧
      ∀ v6 before x, HasIpv6 data v6 → SlashAfter v6 before x →
        cutIpv6 v6 = .ok before ∧
          ∃ device, parse src data = .ok (answerDevices device (some before))) ↔
    ∀ v6 before x, HasIpv6 data v6 → SlashAfter v6 before x → x.toNat < 128 := by
  constructor
  · -- A cut that is made does not fall inside a character.
    rintro ⟨-, hcut⟩ v6 before x hv6 hslash
    by_contra hx
    have hok := (hcut v6 before x hv6 hslash).1
    rw [cutIpv6_inside hslash (not_lt.mp hx)] at hok
    cases hok
  · intro hascii
    have hparse {v6 t : List Char} (hv6 : HasIpv6 data v6) (ht : cutIpv6 v6 = .ok t) :
        ∃ device, parse src data = .ok (answerDevices device (some t)) := by
      -- Only the cut might panic.
      obtain ⟨device, hdevice⟩ := hv6.parse_eq src
      exact ⟨device, by rw [hdevice, ht, Res.ok_bind]⟩
    refine ⟨?_, fun v6 before x hv6 hslash => ?_⟩
    · by_cases hnone : ∃ v6, HasIpv6 data v6
      · obtain ⟨v6, hv6⟩ := hnone
        by_cases hslash : ∃ before x, SlashAfter v6 before x
        · obtain ⟨before, x, hslash⟩ := hslash
          obtain ⟨device, hdevice⟩ := hparse hv6 (cutIpv6_ascii hslash (hascii _ _ _ hv6 hslash))
          exact ⟨_, hdevice⟩
        · -- Nothing is cut off.
          have hwhole := cutIpv6_whole fun before x h => hslash ⟨before, x, h⟩
          obtain ⟨device, hdevice⟩ := hparse hv6 hwhole
          exact ⟨_, hdevice⟩
      · exact parse_of_not_hasIpv6 src fun v6 hv6 => hnone ⟨v6, hv6⟩
    · have hcut := cutIpv6_ascii hslash (hascii _ _ _ hv6 hslash)
      exact ⟨hcut, hparse hv6 hcut⟩

/-- The text of an answer with a letter outside ASCII before the slash of its IPv6 address. -/
def slashBody : List Char :=
  "\x7b\"method\":\"client.notifyDevInfo\",".toList ++
    "\"IPv6Address\":\x7b\"IPAddress\":\"fe80::é/64\"\x7d\x7d".toList

/-- The packet of that text. -/
def slashPacket : List UInt8 := header (UInt32.ofNat (byteLen slashBody)) ++ utf8 slashBody

/-- The cut of its address falls inside the letter. -/
theorem parse_slashPacket :
    HasIpv6 slashPacket "fe80::é/64".toList ∧
      parse ⟨.v4 .unspecified, 37810⟩ slashPacket = .panicked := by
  refine ⟨⟨?_, ?_, ?_, ?_, ?_⟩, ?_⟩ <;> decide +kernel

end Uscan.Dahua2
