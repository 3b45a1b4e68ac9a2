import Uscan.Lib.Bytes
import Uscan.Lib.Split

/-!
# IP addresses

`Ipv4Addr`, `Ipv6Addr`, and `IpAddr` of the standard library, with the two conversions that the
scanner relies on: the canonical text (`Display`), which keys the device table and is the IP column
of every output row, and the parser (`FromStr`), which decides whether an address text from a
datagram is used or replaced by the source address.

The text follows the standard library: an IPv4-mapped address ends in dotted decimal, and otherwise
the first longest run of at least two zero segments is written `::`. The parser accepts what the
standard library's does: four decimal groups without leading zeros, or eight hexadecimal groups of
at most four digits with at most one `::` and possibly a dotted tail.
-/

namespace Uscan

/-- `std::net::Ipv4Addr`: four octets. -/
structure Ipv4Addr where
  /-- The first octet. -/
  a : UInt8
  /-- The second octet. -/
  b : UInt8
  /-- The third octet. -/
  c : UInt8
  /-- The last octet. -/
  d : UInt8
  deriving DecidableEq, Repr

/-- `std::net::Ipv6Addr`: eight segments. -/
structure Ipv6Addr where
  /-- The segments, the first one first. -/
  segments : List UInt16
  /-- There are eight of them. -/
  length_eq : segments.length = 8
  deriving DecidableEq, Repr

/-- `std::net::IpAddr`. -/
inductive IpAddr where
  /-- An IPv4 address. -/
  | v4 (ip : Ipv4Addr)
  /-- An IPv6 address. -/
  | v6 (ip : Ipv6Addr)
  deriving DecidableEq, Repr

/-- `std::net::SocketAddr`, of which the program reads the address and the port. -/
structure SocketAddr where
  /-- The address. -/
  ip : IpAddr
  /-- The port. -/
  port : UInt16
  deriving DecidableEq, Repr

namespace Ipv4Addr

/-- `Ipv4Addr::UNSPECIFIED`. -/
def unspecified : Ipv4Addr := ⟨0, 0, 0, 0⟩

/-- The octets, in network order. -/
def octets (ip : Ipv4Addr) : List UInt8 := [ip.a, ip.b, ip.c, ip.d]

/-- The dotted decimal text. -/
def text (ip : Ipv4Addr) : List Char :=
  ['.'].intercalate (ip.octets.map fun o => Nat.toDigits 10 o.toNat)

/-- `u32::from`. -/
def toU32 (ip : Ipv4Addr) : UInt32 := be32 ip.a ip.b ip.c ip.d

/-- `Ipv4Addr::from`, of a 32-bit integer. -/
def ofU32 (x : UInt32) : Ipv4Addr :=
  ⟨UInt8.ofNat (x.toNat / 2 ^ 24), UInt8.ofNat (x.toNat / 2 ^ 16 % 256),
    UInt8.ofNat (x.toNat / 2 ^ 8 % 256), UInt8.ofNat (x.toNat % 256)⟩

/-- An address is read back from its integer. -/
theorem ofU32_toU32 (ip : Ipv4Addr) : ofU32 ip.toU32 = ip := by
  have hbytes := toBe32_be32 ip.a ip.b ip.c ip.d
  rw [toBe32] at hbytes
  simp only [List.cons.injEq, and_true] at hbytes
  obtain ⟨ha, hb, hc, hd⟩ := hbytes
  rw [toU32, ofU32, ha, hb, hc, hd]

/-- An integer is read back from its address. -/
theorem toU32_ofU32 (x : UInt32) : (ofU32 x).toU32 = x := be32_toBe32 x

end Ipv4Addr

namespace Ipv6Addr

/-- `Ipv6Addr::UNSPECIFIED`. -/
def unspecified : Ipv6Addr := ⟨List.replicate 8 0, rfl⟩

/-- The sixteen bytes, in network order. -/
def octets (ip : Ipv6Addr) : List UInt8 := ip.segments.flatMap toBe16

/-- `Ipv6Addr::from(<[u8; 16]>::try_from(b).unwrap())`: a slice of another length panics. -/
def ofSlice {ε : Type} (b : List UInt8) : Res ε Ipv6Addr :=
  if h : b.length = 16 then .ok ⟨be16s b, be16s_length h⟩ else .panicked

/-- The bytes of an address. -/
theorem octets_length (ip : Ipv6Addr) : ip.octets.length = 16 := by
  simp [octets, List.length_flatMap, ip.length_eq]

/-- The bytes of an address read back as the address. -/
theorem ofSlice_octets {ε : Type} (ip : Ipv6Addr) :
    (ofSlice ip.octets : Res ε Ipv6Addr) = .ok ip := by
  rw [ofSlice, dif_pos ip.octets_length]
  simp only [octets, be16s_toBe16]

/-- Sixteen bytes are an address. -/
theorem exists_octets {b : List UInt8} (h : b.length = 16) : ∃ ip : Ipv6Addr, b = ip.octets := by
  refine ⟨⟨be16s b, be16s_length h⟩, ?_⟩
  rw [octets, toBe16_be16s (n := 8) h]

/-- The longest run of zero segments seen so far and the one under way, as pairs of a start and a
length. -/
structure ZeroRuns where
  /-- The longest run. -/
  longest : ℕ × ℕ
  /-- The run under way. -/
  current : ℕ × ℕ

/-- The scan for the first longest run of zero segments. -/
def zeroRuns : List UInt16 → ℕ → ZeroRuns → ZeroRuns
  | [], _, r => r
  | s :: ss, i, r =>
    if s = 0 then
      let current := if r.current.2 = 0 then (i, 1) else (r.current.1, r.current.2 + 1)
      zeroRuns ss (i + 1)
        ⟨if current.2 > r.longest.2 then current else r.longest, current⟩
    else zeroRuns ss (i + 1) ⟨r.longest, (0, 0)⟩

/-- Segments in hexadecimal, separated by colons. -/
def fmtSubslice (ss : List UInt16) : List Char :=
  [':'].intercalate (ss.map fun s => Nat.toDigits 16 s.toNat)

/-- The two octets of a segment, as the last ones of a mapped address. -/
def mappedOctets (ip : Ipv6Addr) : Option Ipv4Addr :=
  match ip.segments with
  | [0, 0, 0, 0, 0, 0xFFFF, hi, lo] =>
    some ⟨UInt8.ofNat (hi.toNat / 256), UInt8.ofNat (hi.toNat % 256),
      UInt8.ofNat (lo.toNat / 256), UInt8.ofNat (lo.toNat % 256)⟩
  | _ => none

/-- The canonical text. -/
def text (ip : Ipv6Addr) : List Char :=
  match ip.mappedOctets with
  | some v4 => "::ffff:".toList ++ v4.text
  | none =>
    let (start, len) := (zeroRuns ip.segments 0 ⟨(0, 0), (0, 0)⟩).longest
    if len > 1 then
      fmtSubslice (ip.segments.take start) ++ "::".toList ++
        fmtSubslice (ip.segments.drop (start + len))
    else fmtSubslice ip.segments

end Ipv6Addr

/-- `IpAddr::to_string`. -/
def IpAddr.text : IpAddr → List Char
  | .v4 ip => ip.text
  | .v6 ip => ip.text

/-! ## The characters of a text -/

/-- The characters of address texts. -/
def addrChars : List Char := "0123456789abcdef.:".toList

/-- The characters of a number are digits of the base. The induction is on the number, which loses
its last digit. -/
theorem exists_digit_of_mem_toDigits {b : ℕ} (hb : 1 < b) {n : ℕ} {c : Char}
    (hc : c ∈ Nat.toDigits b n) : ∃ d < b, c = d.digitChar := by
  induction n using Nat.strongRecOn with
  | ind n ih =>
    rw [Nat.toDigits_eq_if hb] at hc
    split_ifs at hc with hn
    · exact ⟨n, hn, List.mem_singleton.mp hc⟩
    · rcases List.mem_append.mp hc with hc | hc
      · exact ih (n / b) (Nat.div_lt_self (by omega) hb) hc
      · exact ⟨n % b, Nat.mod_lt n (by omega), List.mem_singleton.mp hc⟩

/-- Digits determine their values. -/
theorem digitChar_inj {d e : ℕ} (hd : d < 16) (he : e < 16)
    (h : Nat.digitChar d = Nat.digitChar e) : d = e := by
  have hall : ∀ d e : Fin 16, Nat.digitChar d = Nat.digitChar e → d = e := by decide
  exact congrArg Fin.val (hall ⟨d, hd⟩ ⟨e, he⟩ h)

/-- The digits of a number are address characters. -/
theorem toDigits_subset_addrChars {b : ℕ} (hb : 1 < b) (hle : b ≤ 16) (n : ℕ) :
    Nat.toDigits b n ⊆ addrChars := by
  have hall : ∀ d : Fin 16, Nat.digitChar d ∈ addrChars := by decide
  intro c hc
  obtain ⟨d, hd, rfl⟩ := exists_digit_of_mem_toDigits hb hc
  exact hall ⟨d, by omega⟩

/-- Parts of address characters with an address character in between are address characters. -/
theorem intercalate_subset_addrChars {sep : Char} (hsep : sep ∈ addrChars)
    {parts : List (List Char)} (h : ∀ part ∈ parts, part ⊆ addrChars) :
    [sep].intercalate parts ⊆ addrChars := by
  intro c hc
  rcases mem_of_mem_intercalate hc with hc | ⟨part, hpart, hc⟩
  · rwa [List.mem_singleton.mp hc]
  · exact h part hpart hc

/-- The text of an IPv4 address has address characters only. -/
theorem Ipv4Addr.text_subset (ip : Ipv4Addr) : ip.text ⊆ addrChars := by
  apply intercalate_subset_addrChars (by decide)
  intro part hpart
  obtain ⟨o, -, rfl⟩ := List.mem_map.mp hpart
  exact toDigits_subset_addrChars (by decide) (by decide) _

/-- Hexadecimal segments have address characters only. -/
theorem Ipv6Addr.fmtSubslice_subset (ss : List UInt16) :
    Ipv6Addr.fmtSubslice ss ⊆ addrChars := by
  apply intercalate_subset_addrChars (by decide)
  intro part hpart
  obtain ⟨s, -, rfl⟩ := List.mem_map.mp hpart
  exact toDigits_subset_addrChars (by decide) (by decide) _

/-- The text of an IPv6 address has address characters only. -/
theorem Ipv6Addr.text_subset (ip : Ipv6Addr) : ip.text ⊆ addrChars := by
  unfold Ipv6Addr.text
  split
  · exact List.append_subset.mpr ⟨by decide, Ipv4Addr.text_subset _⟩
  · dsimp only
    split_ifs
    · exact List.append_subset.mpr
        ⟨List.append_subset.mpr ⟨fmtSubslice_subset _, by decide⟩, fmtSubslice_subset _⟩
    · exact fmtSubslice_subset _

/-- The text of an address has address characters only. -/
theorem IpAddr.text_subset : ∀ ip : IpAddr, ip.text ⊆ addrChars
  | .v4 ip => ip.text_subset
  | .v6 ip => ip.text_subset

/-! ## Parsing -/

namespace AddrParser

/-- The value of a digit in the given radix. -/
def toDigit (radix : ℕ) (c : Char) : Option ℕ :=
  let v :=
    if '0' ≤ c ∧ c ≤ '9' then some (c.toNat - '0'.toNat)
    else if 'a' ≤ c ∧ c ≤ 'z' then some (c.toNat - 'a'.toNat + 10)
    else if 'A' ≤ c ∧ c ≤ 'Z' then some (c.toNat - 'A'.toNat + 10)
    else none
  v.filter (· < radix)

/-- `read_given_char`. -/
def readGivenChar (target : Char) : List Char → Option (List Char)
  | c :: s => if c = target then some s else none
  | [] => none

/-- The digits that the text starts with: their value on top of `value`, and their number on top
of `count`. -/
def readDigits (radix : ℕ) : List Char → ℕ → ℕ → ℕ × ℕ × List Char
  | [], value, count => (value, count, [])
  | c :: s, value, count =>
    match toDigit radix c with
    | some d => readDigits radix s (value * radix + d) (count + 1)
    | none => (value, count, c :: s)

/-- `read_number`: between one and `maxDigits` digits, whose value is at most `maxValue`. -/
def readNumber (radix maxDigits maxValue : ℕ) (allowZeroPrefix : Bool) (s : List Char) :
    Option (ℕ × List Char) :=
  let (value, count, rest) := readDigits radix s 0 0
  if count > maxDigits then none
  else if count = 0 then none
  else if !allowZeroPrefix && s.head? == some '0' && count > 1 then none
  else if value > maxValue then none
  else some (value, rest)

/-- `read_separator`: before every group but the first one, the separator. -/
def readSeparator {α : Type} (sep : Char) (i : ℕ) (inner : List Char → Option (α × List Char))
    (s : List Char) : Option (α × List Char) :=
  if i > 0 then (readGivenChar sep s).bind inner else inner s

/-- An octet of a dotted address: at most three digits, and no leading zero. -/
def readOctet (i : ℕ) (s : List Char) : Option (UInt8 × List Char) :=
  (readSeparator '.' i (readNumber 10 3 255 false) s).map fun (v, rest) => (UInt8.ofNat v, rest)

/-- `read_ipv4_addr`. -/
def readIpv4Addr (s : List Char) : Option (Ipv4Addr × List Char) := do
  let (a, s) ← readOctet 0 s
  let (b, s) ← readOctet 1 s
  let (c, s) ← readOctet 2 s
  let (d, s) ← readOctet 3 s
  return (⟨a, b, c, d⟩, s)

/-- `read_groups` from group `i` of `limit`: the groups read, and whether they end in a dotted
address, which stands for two groups. -/
def readGroups (limit : ℕ) : ℕ → ℕ → List Char → List UInt16 × Bool × List Char
  | 0, _, s => ([], false, s)
  | left + 1, i, s =>
    match (if left > 0 then readSeparator ':' i readIpv4Addr s else none) with
    | some (v4, rest) => ([be16 v4.a v4.b, be16 v4.c v4.d], true, rest)
    | none =>
      match readSeparator ':' i (readNumber 16 4 0xFFFF true) s with
      | some (g, rest) =>
        let (gs, dotted, rest) := readGroups limit left (i + 1) rest
        (UInt16.ofNat g :: gs, dotted, rest)
      | none => ([], false, s)

/-- Eight segments from those before and after the `::`. -/
def expand (head tail : List UInt16) : List UInt16 :=
  head ++ List.replicate (8 - head.length - tail.length) 0 ++ tail

/-- `read_ipv6_addr`. -/
def readIpv6Addr (s : List Char) : Option (Ipv6Addr × List Char) :=
  let (head, dotted, s) := readGroups 8 8 0 s
  -- Without a `::`, there must be eight groups; a dotted address ends the text.
  if h : head.length = 8 then some (⟨head, h⟩, s)
  else if dotted then none
  else
    match (readGivenChar ':' s).bind (readGivenChar ':') with
    | none => none
    | some s =>
      -- The `::` stands for at least one group.
      let limit := 8 - (head.length + 1)
      let (tail, _, s) := readGroups limit limit 0 s
      if h : (expand head tail).length = 8 then some (⟨expand head tail, h⟩, s) else none

end AddrParser

/-- `str::parse::<IpAddr>`. -/
def parseIpAddr (s : List Char) : Option IpAddr :=
  match AddrParser.readIpv4Addr s with
  | some (ip, rest) => if rest = [] then some (.v4 ip) else none
  | none =>
    match AddrParser.readIpv6Addr s with
    | some (ip, rest) => if rest = [] then some (.v6 ip) else none
    | none => none

example : (Ipv4Addr.mk 192 168 1 50).text = "192.168.1.50".toList := by decide +kernel

example : ((parseIpAddr "fe80::1".toList).map IpAddr.text) = some "fe80::1".toList := by
  decide +kernel

end Uscan
