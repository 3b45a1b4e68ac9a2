import Uscan.Net.Addr
import Mathlib.Data.Nat.Bitwise

/-!
# Interfaces and the hosts of their subnets

The pure part of `iface.rs`: an interface and its addresses, which addresses are private or given
out without a server, the mask of a prefix length, and the hosts of a subnet; and over it the two
lists of hosts that a sweep probes, `plan_hosts` of `netscan.rs` and `sweep_plan` of
`protocols/arp.rs`.

The code computes the bounds of a subnet with `wrapping_add` and `wrapping_sub`, which are `+` and
`-` on `UInt32`; its other operations panic on overflow. The numbers of the subnet itself are
natural numbers, which do not wrap. The bounds wrap for a subnet of one address only, at either end
of the address space, and `subnetHosts` then takes the whole space for the hosts
(`subnetHosts_exact_iff`).
-/

namespace Uscan

/-! ## Interfaces -/

/-- `if_addrs::IfAddr`, of which the code reads the address and the prefix length. -/
inductive IfAddr where
  /-- An IPv4 address, in a subnet with a mask of at most 32 bits. -/
  | v4 (ip : Ipv4Addr) (prefixLen : UInt8) (le : prefixLen ≤ 32)
  /-- An IPv6 address. -/
  | v6 (ip : Ipv6Addr)
  deriving DecidableEq, Repr

/-- `Iface`. -/
structure Iface where
  /-- The name. -/
  name : List Char
  /-- It is up. -/
  isUp : Bool
  /-- It is a loopback interface. -/
  isLoopback : Bool
  /-- The addresses. -/
  addrs : List IfAddr
  deriving DecidableEq, Repr

/-- The IPv4 address. -/
def IfAddr.ipv4 : IfAddr → Option Ipv4Addr
  | .v4 ip _ _ => some ip
  | .v6 _ => none

/-- `ipv4_addrs`. -/
def Iface.ipv4Addrs (i : Iface) : List Ipv4Addr := i.addrs.filterMap IfAddr.ipv4

/-! ## Kinds of addresses -/

/-- The first segment. -/
def Ipv6Addr.segment0 (ip : Ipv6Addr) : UInt16 := ip.segments.headD 0

/-- `is_private`. -/
def isPrivate : IpAddr → Bool
  | .v4 ip =>
    ip.a == 10 || (ip.a == 172 && (16 ≤ ip.b && ip.b ≤ 31)) || (ip.a == 192 && ip.b == 168) ||
      (ip.a == 169 && ip.b == 254)
  | .v6 ip => ip.segment0 &&& 0xff00 == 0xfd00 || ip.segment0 &&& 0xffc0 == 0xfe80

/-- `is_autoconf`. -/
def isAutoconf : IpAddr → Bool
  | .v4 ip => ip.a == 169 && ip.b == 254
  | .v6 ip => ip.segment0 &&& 0xffc0 == 0xfe80

/-! ## Subnets -/

/-- An addition of 32-bit integers, which panics on overflow. -/
def addU32 (x y : UInt32) : Res Empty UInt32 :=
  if x.toNat + y.toNat < 2 ^ 32 then .ok (x + y) else .panicked

/-- `mask_from_prefix`. For a length over 32 the subtraction overflows. -/
def maskFromPrefix (prefixLen : UInt8) : Res Empty Ipv4Addr :=
  if prefixLen = 0 then .ok (.ofU32 0)
  else if prefixLen ≤ 32 then .ok (.ofU32 (0xFFFFFFFF <<< (32 - prefixLen.toUInt32)))
  else .panicked

/-- `subnet_hosts`. -/
def subnetHosts (addr mask : Ipv4Addr) (max : UInt32) : Res Empty (List Ipv4Addr) := do
  let a := addr.toU32
  let m := mask.toU32
  let first := (a &&& m) + 1
  let last := (a ||| ~~~m) - 1
  -- A subnet of one or two addresses has no hosts.
  if last < first then return []
  else
    let count ← addU32 (last - first) 1
    let len := if count ≤ max then count else max
    return (List.range len.toNat).map fun i => .ofU32 (first + UInt32.ofNat i)

namespace Netscan

/-- `HOST_CAP`. -/
def hostCap : UInt32 := 254

/-- `plan_hosts`. -/
def planHosts (ifIp mask : Ipv4Addr) : Res Empty (List Ipv4Addr) := do
  let hosts ← subnetHosts ifIp mask hostCap
  return hosts.filter (· ≠ ifIp)

end Netscan

namespace Arp

/-- `sweep_plan`. -/
def sweepPlan (ip mask : Ipv4Addr) : Res Empty (List Ipv4Addr) := do
  let hosts ← subnetHosts ip mask 254
  return hosts.filter (· ≠ ip)

end Arp

/-! ## Numbers of a subnet -/

/-- An address as a number. -/
def Ipv4Addr.number (ip : Ipv4Addr) : ℕ := ip.toU32.toNat

/-- How many addresses have the first `prefixLen` bits of a given one. -/
def subnetSize (prefixLen : UInt8) : ℕ := 2 ^ (32 - prefixLen.toNat)

/-- The first address of the subnet of `a`. -/
def networkNumber (a : Ipv4Addr) (prefixLen : UInt8) : ℕ :=
  subnetSize prefixLen * (a.number / subnetSize prefixLen)

/-- The last address of the subnet of `a`. -/
def broadcastNumber (a : Ipv4Addr) (prefixLen : UInt8) : ℕ :=
  networkNumber a prefixLen + (subnetSize prefixLen - 1)

/-- The addresses between the first and the last one of the subnet of `a`, in order. -/
def hostNumbers (a : Ipv4Addr) (prefixLen : UInt8) : List ℕ :=
  List.range' (networkNumber a prefixLen + 1) (subnetSize prefixLen - 2)

/-- The hosts are the addresses strictly between the first and the last one. -/
theorem mem_hostNumbers {a : Ipv4Addr} {prefixLen : UInt8} {n : ℕ} :
    n ∈ hostNumbers a prefixLen ↔
      networkNumber a prefixLen < n ∧ n < broadcastNumber a prefixLen := by
  have hpos : 0 < subnetSize prefixLen := Nat.two_pow_pos _
  rw [hostNumbers, List.mem_range'_1, broadcastNumber]
  omega

/-- The number of an address by its octets. -/
theorem Ipv4Addr.number_eq (ip : Ipv4Addr) :
    ip.number = ((ip.a.toNat * 256 + ip.b.toNat) * 256 + ip.c.toNat) * 256 + ip.d.toNat := by
  have ha := ip.a.toNat_lt
  have hb := ip.b.toNat_lt
  have hc := ip.c.toNat_lt
  have hd := ip.d.toNat_lt
  rw [number, toU32, be32, UInt32.toNat_ofNat']
  omega

/-- An address is determined by its number. -/
theorem Ipv4Addr.number_inj {x y : Ipv4Addr} : x.number = y.number ↔ x = y := by
  constructor
  · intro h
    rw [← ofU32_toU32 x, ← ofU32_toU32 y, UInt32.toNat_inj.mp h]
  · rintro rfl
    rfl

/-- A private address is neither the first nor the last address of all. -/
theorem number_of_isPrivate {a : Ipv4Addr} (h : isPrivate (.v4 a) = true) :
    0 < a.number ∧ a.number < 2 ^ 32 - 1 := by
  have hb := a.b.toNat_lt
  have hc := a.c.toNat_lt
  have hd := a.d.toNat_lt
  have hfirst : a.a = 10 ∨ a.a = 172 ∨ a.a = 192 ∨ a.a = 169 := by
    simp only [isPrivate, Bool.or_eq_true, Bool.and_eq_true, beq_iff_eq] at h
    tauto
  rw [Ipv4Addr.number_eq]
  rcases hfirst with h | h | h | h <;> rw [h] <;> simp <;> omega

/-! ## Masks -/

/-- A mask of the high bits takes the low bits off a number. -/
theorem and_highBits {x p k : ℕ} (hx : x < 2 ^ k * 2 ^ p) :
    x &&& 2 ^ k * (2 ^ p - 1) = 2 ^ k * (x / 2 ^ k) := by
  have hdiv : x / 2 ^ k < 2 ^ p := Nat.div_lt_of_lt_mul hx
  apply Nat.eq_of_testBit_eq
  intro i
  rw [Nat.testBit_and, Nat.testBit_two_pow_mul, Nat.testBit_two_pow_mul,
    Nat.testBit_two_pow_sub_one, Nat.testBit_div_two_pow]
  by_cases hi : k ≤ i
  · -- Bits over the mask are zero in the number already.
    have hbit : x.testBit i = (x / 2 ^ k).testBit (i - k) := by
      rw [Nat.testBit_div_two_pow, Nat.sub_add_cancel hi]
    by_cases hip : i - k < p
    · simp [hi, hip]
    · have hzero : (x / 2 ^ k).testBit (i - k) = false :=
        Nat.testBit_lt_two_pow <|
          hdiv.trans_le (Nat.pow_le_pow_right Nat.zero_lt_two (not_lt.mp hip))
      simp [hi, hip, hbit, hzero]
  · simp [hi]

/-- All low bits are set in a number by an or. -/
theorem or_lowBits (x k : ℕ) : x ||| (2 ^ k - 1) = 2 ^ k * (x / 2 ^ k) + (2 ^ k - 1) := by
  have hlt : 2 ^ k - 1 < 2 ^ k := Nat.sub_lt (Nat.two_pow_pos k) one_pos
  apply Nat.eq_of_testBit_eq
  intro i
  rw [Nat.two_pow_add_eq_or_of_lt hlt, Nat.testBit_or, Nat.testBit_or, Nat.testBit_two_pow_mul,
    Nat.testBit_two_pow_sub_one, Nat.testBit_div_two_pow]
  by_cases hi : i < k
  · simp [hi]
  · simp [hi, Nat.sub_add_cancel (not_lt.mp hi), not_lt.mp hi]

/-- All ones, moved up by `k` of 32 bits. -/
theorem ones_shiftLeft {k p : ℕ} (h : k + p = 32) :
    (2 ^ 32 - 1) * 2 ^ k % 2 ^ 32 = 2 ^ k * (2 ^ p - 1) := by
  have hp : 0 < 2 ^ p := Nat.two_pow_pos p
  have hpow : 2 ^ 32 = 2 ^ p * 2 ^ k := by rw [← pow_add, Nat.add_comm, h]
  have hones : 2 ^ 32 - 1 = 2 ^ p - 1 + 2 ^ p * (2 ^ k - 1) := by
    have hle : 2 ^ p ≤ 2 ^ p * 2 ^ k := Nat.le_mul_of_pos_right _ (Nat.two_pow_pos k)
    rw [Nat.mul_sub, Nat.mul_one, hpow]
    omega
  calc (2 ^ 32 - 1) * 2 ^ k % 2 ^ 32
      = 2 ^ k * ((2 ^ p - 1 + 2 ^ p * (2 ^ k - 1)) % 2 ^ p) := by
        rw [hones, hpow, Nat.mul_comm, Nat.mul_comm (2 ^ p) (2 ^ k), Nat.mul_mod_mul_left]
    _ = 2 ^ k * (2 ^ p - 1) := by
        rw [Nat.add_mul_mod_self_left, Nat.mod_eq_of_lt (Nat.sub_lt hp one_pos)]

/-- The mask of a prefix length. -/
theorem maskFromPrefix_eq {prefixLen : UInt8} (h : prefixLen ≤ 32) :
    ∃ mask, maskFromPrefix prefixLen = .ok mask ∧
      mask.number = subnetSize prefixLen * (2 ^ prefixLen.toNat - 1) := by
  have hle : prefixLen.toNat ≤ 32 := h
  unfold maskFromPrefix
  split_ifs with hzero
  · refine ⟨_, rfl, ?_⟩
    rw [Ipv4Addr.number, Ipv4Addr.toU32_ofU32, hzero]
    rfl
  · have hpos : 0 < prefixLen.toNat :=
      Nat.pos_of_ne_zero fun hz => hzero (UInt8.toNat_inj.mp hz)
    have hshift : (32 - prefixLen.toUInt32).toNat = 32 - prefixLen.toNat := by
      rw [UInt32.toNat_sub_of_le _ _ (by simpa [UInt32.le_iff_toNat_le] using hle)]
      rfl
    refine ⟨_, rfl, ?_⟩
    rw [Ipv4Addr.number, Ipv4Addr.toU32_ofU32, UInt32.toNat_shiftLeft, hshift,
      Nat.mod_eq_of_lt (show 32 - prefixLen.toNat < 32 by omega), Nat.shiftLeft_eq, subnetSize]
    exact ones_shiftLeft (Nat.sub_add_cancel hle)

/-! ## The hosts of a sweep -/

section Sweep

variable {a mask : Ipv4Addr} {prefixLen : UInt8}

/-- The size of a subnet and the number of subnets of its size. -/
theorem subnetSize_mul (hle : prefixLen ≤ 32) :
    subnetSize prefixLen * 2 ^ prefixLen.toNat = 2 ^ 32 := by
  have hle : prefixLen.toNat ≤ 32 := hle
  rw [subnetSize, ← pow_add, Nat.sub_add_cancel hle]

/-- A subnet lies around its address, and ends before `2^32`. -/
theorem subnet_bounds (hle : prefixLen ≤ 32) (a : Ipv4Addr) :
    networkNumber a prefixLen ≤ a.number ∧ a.number ≤ broadcastNumber a prefixLen ∧
      broadcastNumber a prefixLen < 2 ^ 32 := by
  have hpos : 0 < subnetSize prefixLen := Nat.two_pow_pos _
  have hdiv := Nat.div_add_mod a.number (subnetSize prefixLen)
  have hmod := Nat.mod_lt a.number hpos
  have hlt : a.number / subnetSize prefixLen < 2 ^ prefixLen.toNat :=
    Nat.div_lt_of_lt_mul (by rw [subnetSize_mul hle]; exact a.toU32.toNat_lt)
  have hnext : subnetSize prefixLen * (a.number / subnetSize prefixLen + 1) ≤ 2 ^ 32 :=
    (Nat.mul_le_mul_left _ hlt).trans_eq (subnetSize_mul hle)
  rw [Nat.mul_add, Nat.mul_one] at hnext
  unfold broadcastNumber networkNumber
  omega

/-- The code's network address. -/
theorem toNat_and_mask (hle : prefixLen ≤ 32)
    (hmask : mask.number = subnetSize prefixLen * (2 ^ prefixLen.toNat - 1)) :
    (a.toU32 &&& mask.toU32).toNat = networkNumber a prefixLen := by
  rw [UInt32.toNat_and, show mask.toU32.toNat = _ from hmask]
  exact and_highBits (by rw [← subnetSize, subnetSize_mul hle]; exact a.toU32.toNat_lt)

/-- The code's broadcast address. -/
theorem toNat_or_not_mask (hle : prefixLen ≤ 32)
    (hmask : mask.number = subnetSize prefixLen * (2 ^ prefixLen.toNat - 1)) :
    (a.toU32 ||| ~~~mask.toU32).toNat = broadcastNumber a prefixLen := by
  have hmul := subnetSize_mul hle
  have hsize : subnetSize prefixLen ≤ 2 ^ 32 :=
    Nat.le_of_dvd (Nat.two_pow_pos 32) ⟨_, hmul.symm⟩
  have hnot : (~~~mask.toU32).toNat = 2 ^ (32 - prefixLen.toNat) - 1 := by
    rw [UInt32.toNat_not, show mask.toU32.toNat = _ from hmask, Nat.mul_sub, hmul, Nat.mul_one,
      ← subnetSize]
    have : UInt32.size = 2 ^ 32 := rfl
    omega
  rw [UInt32.toNat_or, hnot]
  exact or_lowBits _ _

/-- The numbers of consecutive addresses, if they do not wrap. -/
theorem number_addresses {first : UInt32} {n : ℕ} (h : first.toNat + n ≤ 2 ^ 32) :
    ((List.range n).map fun i => Ipv4Addr.ofU32 (first + UInt32.ofNat i)).map Ipv4Addr.number =
      List.range' first.toNat n := by
  rw [List.map_map, List.range'_eq_map_range]
  apply List.map_congr_left
  intro i hi
  have hi := List.mem_range.mp hi
  rw [Function.comp_apply, Ipv4Addr.number, Ipv4Addr.toU32_ofU32, UInt32.toNat_add,
    UInt32.toNat_ofNat', Nat.mod_eq_of_lt (a := i) (by omega), Nat.mod_eq_of_lt (by omega)]

/-- The bounds of the hosts if they do not wrap: there is an address after the network address, and
one before the broadcast address. -/
theorem toNat_bounds (hle : prefixLen ≤ 32)
    (hmask : mask.number = subnetSize prefixLen * (2 ^ prefixLen.toNat - 1))
    (hnetwork : networkNumber a prefixLen + 1 < 2 ^ 32)
    (hbroadcast : 0 < broadcastNumber a prefixLen) :
    ((a.toU32 &&& mask.toU32) + 1).toNat = networkNumber a prefixLen + 1 ∧
      ((a.toU32 ||| ~~~mask.toU32) - 1).toNat = broadcastNumber a prefixLen - 1 := by
  constructor
  · rw [UInt32.toNat_add, toNat_and_mask hle hmask]
    exact Nat.mod_eq_of_lt hnetwork
  · rw [UInt32.toNat_sub_of_le, toNat_or_not_mask hle hmask]
    · rfl
    · rw [UInt32.le_iff_toNat_le, toNat_or_not_mask hle hmask]
      exact hbroadcast

/-- The number of addresses from one to another, both included, if the difference is small. -/
theorem addU32_sub_one {first last : UInt32} {n : ℕ} (hn : 0 < n) (hlt : n < 2 ^ 32)
    (h : last.toNat + 1 = first.toNat + n) :
    addU32 (last - first) 1 = .ok (UInt32.ofNat n) := by
  have hdiff : (last - first).toNat = n - 1 := by
    rw [UInt32.toNat_sub_of_le _ _ (by rw [UInt32.le_iff_toNat_le]; omega)]
    omega
  have hone : (1 : UInt32).toNat = 1 := rfl
  rw [addU32, hdiff, hone, if_pos (by omega)]
  congr 1
  apply UInt32.toNat_inj.mp
  rw [UInt32.toNat_add, hdiff, hone, UInt32.toNat_ofNat', Nat.sub_add_cancel hn]

/-- A number of addresses is cut at the limit. -/
theorem toNat_cut {n : ℕ} (h : n < 2 ^ 32) (max : UInt32) :
    (if UInt32.ofNat n ≤ max then UInt32.ofNat n else max).toNat = min max.toNat n := by
  have htoNat : (UInt32.ofNat n).toNat = n := UInt32.toNat_ofNat_of_lt' h
  split_ifs with hle <;> rw [UInt32.le_iff_toNat_le, htoNat] at hle
  · rw [htoNat, Nat.min_eq_right hle]
  · rw [Nat.min_eq_left (by omega)]

/-- The hosts of a subnet whose bounds do not wrap: the first `max` ones. -/
theorem subnetHosts_eq (hle : prefixLen ≤ 32)
    (hmask : mask.number = subnetSize prefixLen * (2 ^ prefixLen.toNat - 1))
    (hnetwork : networkNumber a prefixLen + 1 < 2 ^ 32)
    (hbroadcast : 0 < broadcastNumber a prefixLen) (max : UInt32) :
    ∃ hosts, subnetHosts a mask max = .ok hosts ∧
      hosts.map Ipv4Addr.number = (hostNumbers a prefixLen).take max.toNat := by
  obtain ⟨-, -, hend⟩ := subnet_bounds hle a
  obtain ⟨hfirst, hlast⟩ := toNat_bounds hle hmask hnetwork hbroadcast
  have hsize : broadcastNumber a prefixLen =
      networkNumber a prefixLen + (subnetSize prefixLen - 1) := rfl
  simp only [subnetHosts]
  split_ifs with hempty
  · -- A subnet of one or two addresses has no hosts.
    refine ⟨[], rfl, ?_⟩
    rw [UInt32.lt_iff_toNat_lt, hfirst, hlast] at hempty
    have hnone : subnetSize prefixLen - 2 = 0 := by omega
    rw [hostNumbers, hnone, List.range'_zero, List.take_nil, List.map_nil]
  · -- All others have two addresses more than they have hosts.
    rw [UInt32.lt_iff_toNat_lt, hfirst, hlast] at hempty
    have hcount := addU32_sub_one (n := subnetSize prefixLen - 2) (by omega) (by omega)
      (show ((a.toU32 ||| ~~~mask.toU32) - 1).toNat + 1 =
        ((a.toU32 &&& mask.toU32) + 1).toNat + (subnetSize prefixLen - 2) by omega)
    have hlen := toNat_cut (show subnetSize prefixLen - 2 < 2 ^ 32 by omega) max
    refine ⟨_, by rw [hcount]; rfl, ?_⟩
    rw [number_addresses (by rw [hfirst, hlen]; omega), hfirst, hlen, hostNumbers]
    simp only [List.range'_eq_map_range, ← List.map_take, List.take_range]

/-- The hosts of a subnet are in ascending order. -/
theorem hostNumbers_pairwise (a : Ipv4Addr) (prefixLen : UInt8) :
    (hostNumbers a prefixLen).Pairwise (· < ·) :=
  List.pairwise_lt_range' 1

/-- A list of addresses without a given one, by their numbers. -/
theorem map_number_filter (hosts : List Ipv4Addr) (a : Ipv4Addr) :
    (hosts.filter (· ≠ a)).map Ipv4Addr.number =
      (hosts.map Ipv4Addr.number).filter (· ≠ a.number) := by
  rw [List.filter_map]
  congr 1
  apply List.filter_congr
  intro host _
  rw [Function.comp_apply, decide_eq_decide, ne_eq, ne_eq, Ipv4Addr.number_inj]

end Sweep

/-- Both sweeps over the subnet of a private address probe the same hosts: the first 254 addresses
strictly between the network address and the broadcast address, in ascending order and without the
address itself. The bounds do not wrap. -/
theorem sweep_hosts (a : Ipv4Addr) (prefixLen : UInt8) (hprivate : isPrivate (.v4 a) = true)
    (hbits : prefixLen ≤ 32) :
    ∃ mask hosts, maskFromPrefix prefixLen = .ok mask ∧
      Netscan.planHosts a mask = .ok hosts ∧ Arp.sweepPlan a mask = .ok hosts ∧
      hosts.map Ipv4Addr.number = ((hostNumbers a prefixLen).take 254).filter (· ≠ a.number) ∧
      (hosts.map Ipv4Addr.number).Pairwise (· < ·) ∧
      (∀ host ∈ hosts, networkNumber a prefixLen < host.number ∧
        host.number < broadcastNumber a prefixLen ∧ host ≠ a) ∧
      (a.toU32 &&& mask.toU32).toNat = networkNumber a prefixLen ∧
      (a.toU32 ||| ~~~mask.toU32).toNat = broadcastNumber a prefixLen ∧
      networkNumber a prefixLen + 1 < 2 ^ 32 ∧ 0 < broadcastNumber a prefixLen := by
  obtain ⟨hpos, hlt⟩ := number_of_isPrivate hprivate
  obtain ⟨hnetwork, hbroadcast, -⟩ := subnet_bounds hbits a
  obtain ⟨mask, hmaskOk, hmask⟩ := maskFromPrefix_eq hbits
  obtain ⟨hosts, hhosts, hnumbers⟩ :=
    subnetHosts_eq (a := a) hbits hmask (by omega) (by omega) 254
  have hmap : (hosts.filter (· ≠ a)).map Ipv4Addr.number =
      ((hostNumbers a prefixLen).take 254).filter (· ≠ a.number) := by
    rw [map_number_filter, hnumbers]
    rfl
  -- The two plans are one expression, with the same limit.
  refine ⟨mask, hosts.filter (· ≠ a), hmaskOk, ?_, ?_, hmap, ?_, ?_, toNat_and_mask hbits hmask,
    toNat_or_not_mask hbits hmask, by omega, by omega⟩
  · rw [Netscan.planHosts, Netscan.hostCap, hhosts]
    rfl
  · rw [Arp.sweepPlan, hhosts]
    rfl
  · rw [hmap]
    exact ((hostNumbers_pairwise a prefixLen).sublist (List.take_sublist _ _)).sublist
      List.filter_sublist
  · intro host hhost
    have hmem := List.mem_map_of_mem (f := Ipv4Addr.number) hhost
    rw [hmap, List.mem_filter] at hmem
    obtain ⟨hmem, hne⟩ := hmem
    obtain ⟨hafter, hbefore⟩ := mem_hostNumbers.mp (List.mem_of_mem_take hmem)
    exact ⟨hafter, hbefore, fun heq => by simp [heq] at hne⟩

/-- The hosts around 192.168.1.5 in its subnet of 24 bits. -/
theorem sweep_hosts_192_168_1_5 :
    isPrivate (.v4 ⟨192, 168, 1, 5⟩) = true ∧ (24 : UInt8) ≤ 32 ∧
      ∃ mask hosts, maskFromPrefix 24 = .ok mask ∧
        Netscan.planHosts ⟨192, 168, 1, 5⟩ mask = .ok hosts ∧
        hosts.map Ipv4Addr.number =
          ((hostNumbers ⟨192, 168, 1, 5⟩ 24).take 254).filter
            (· ≠ Ipv4Addr.number ⟨192, 168, 1, 5⟩) := by
  have hprivate : isPrivate (.v4 ⟨192, 168, 1, 5⟩) = true := by decide
  have hbits : (24 : UInt8) ≤ 32 := by decide
  obtain ⟨mask, hosts, hmask, hplan, -, hmap, -⟩ := sweep_hosts ⟨192, 168, 1, 5⟩ 24 hprivate hbits
  exact ⟨hprivate, hbits, mask, hosts, hmask, hplan, hmap⟩

/-! ## The hosts of any subnet -/

/-- The first and the last address of all. -/
def IsExtreme (a : Ipv4Addr) : Prop := a = ⟨0, 0, 0, 0⟩ ∨ a = ⟨255, 255, 255, 255⟩

instance (a : Ipv4Addr) : Decidable (IsExtreme a) :=
  inferInstanceAs (Decidable (a = _ ∨ a = _))

/-- The bounds of a subnet wrap for a subnet of one address only, at an end of the address space. -/
theorem bounds_lt {a : Ipv4Addr} {prefixLen : UInt8} (hbits : prefixLen ≤ 32)
    (h : ¬ (prefixLen = 32 ∧ IsExtreme a)) :
    networkNumber a prefixLen + 1 < 2 ^ 32 ∧ 0 < broadcastNumber a prefixLen := by
  have hle : prefixLen.toNat ≤ 32 := hbits
  obtain ⟨hnetwork, hbroadcast, hend⟩ := subnet_bounds hbits a
  have hsize : broadcastNumber a prefixLen =
      networkNumber a prefixLen + (subnetSize prefixLen - 1) := rfl
  by_cases hfull : prefixLen = 32
  · have hfirst : a.number ≠ 0 := fun heq =>
      h ⟨hfull, .inl (Ipv4Addr.number_inj.mp (heq.trans (by decide)))⟩
    have hlast : a.number ≠ 2 ^ 32 - 1 := fun heq =>
      h ⟨hfull, .inr (Ipv4Addr.number_inj.mp (heq.trans (by decide)))⟩
    have hone : subnetSize prefixLen = 1 := by rw [hfull]; rfl
    omega
  · -- A subnet of two addresses or more has one after its first and one before its last.
    have hlt : prefixLen.toNat < 32 :=
      lt_of_le_of_ne hle fun heq => hfull (UInt8.toNat_inj.mp heq)
    have htwo : 2 ^ 1 ≤ subnetSize prefixLen :=
      Nat.pow_le_pow_right Nat.zero_lt_two (by omega)
    omega

/-- Where the bounds wrap, the code takes all addresses but one for hosts. -/
theorem length_subnetHosts_wrapped {a : Ipv4Addr} (h : IsExtreme a) (max : UInt32) :
    ∃ hosts, subnetHosts a ⟨255, 255, 255, 255⟩ max = .ok hosts ∧ hosts.length = max.toNat := by
  have hcut := toNat_cut (show 2 ^ 32 - 1 < 2 ^ 32 by decide) max
  have hmin : min max.toNat (2 ^ 32 - 1) = max.toNat :=
    Nat.min_eq_left (Nat.le_sub_one_of_lt max.toNat_lt)
  rw [hmin] at hcut
  rcases h with rfl | rfl
  · refine ⟨_, rfl, ?_⟩
    rw [List.length_map, List.length_range]
    exact hcut
  · refine ⟨_, rfl, ?_⟩
    rw [List.length_map, List.length_range]
    exact hcut

/-- The hosts of a subnet are the first `cap` addresses strictly between the network address and the
broadcast address, in ascending order, unless the subnet is a single address at an end of the
address space and a host may be returned. -/
theorem subnetHosts_exact_iff (a : Ipv4Addr) (prefixLen : UInt8) (hbits : prefixLen ≤ 32)
    (cap : UInt32) :
    (∃ mask hosts, maskFromPrefix prefixLen = .ok mask ∧ subnetHosts a mask cap = .ok hosts ∧
      hosts.map Ipv4Addr.number = (hostNumbers a prefixLen).take cap.toNat) ↔
      ¬ (prefixLen = 32 ∧ IsExtreme a ∧ 0 < cap) := by
  by_cases hwrap : prefixLen = 32 ∧ IsExtreme a
  · obtain ⟨rfl, hextreme⟩ := hwrap
    obtain ⟨hosts, hhosts, hlength⟩ := length_subnetHosts_wrapped hextreme cap
    have hmask : maskFromPrefix 32 = .ok ⟨255, 255, 255, 255⟩ := by decide
    have hnone : hostNumbers a 32 = [] := rfl
    have hcap : 0 < cap ↔ cap.toNat ≠ 0 := by
      rw [UInt32.lt_iff_toNat_lt]
      exact Nat.pos_iff_ne_zero
    -- No host is expected, and as many come as may be returned.
    rw [hnone, List.take_nil, hcap]
    constructor
    · rintro ⟨mask, hosts', hmask', hhosts', hnumbers⟩ ⟨_, _, hne⟩
      cases hmask.symm.trans hmask'
      cases hhosts.symm.trans hhosts'
      rw [List.map_eq_nil_iff.mp hnumbers] at hlength
      exact hne hlength.symm
    · intro h
      have hzero : cap.toNat = 0 := by_contra fun hne => h ⟨rfl, hextreme, hne⟩
      rw [hzero] at hlength
      exact ⟨_, hosts, hmask, hhosts, List.map_eq_nil_iff.mpr (List.length_eq_zero_iff.mp hlength)⟩
  · obtain ⟨hnetwork, hbroadcast⟩ := bounds_lt hbits hwrap
    -- Otherwise neither bound wraps, and the hosts are those between them.
    obtain ⟨mask, hmaskOk, hmask⟩ := maskFromPrefix_eq hbits
    obtain ⟨hosts, hhosts, hnumbers⟩ := subnetHosts_eq hbits hmask hnetwork hbroadcast cap
    exact iff_of_true ⟨mask, hosts, hmaskOk, hhosts, hnumbers⟩ fun h => hwrap ⟨h.1, h.2.1⟩

/-- The two hosts of a subnet of 30 bits. -/
theorem subnetHosts_exact_10_0_0_1 :
    (30 : UInt8) ≤ 32 ∧ ∃ mask hosts, maskFromPrefix 30 = .ok mask ∧
      subnetHosts ⟨10, 0, 0, 1⟩ mask 254 = .ok hosts ∧
      hosts.map Ipv4Addr.number = (hostNumbers ⟨10, 0, 0, 1⟩ 30).take 254 := by
  have hbits : (30 : UInt8) ≤ 32 := by decide
  exact ⟨hbits, (subnetHosts_exact_iff ⟨10, 0, 0, 1⟩ 30 hbits 254).mpr (by decide)⟩

/-- The last address of all, as a subnet of its own, has no host; the code returns the first address
of all for one. -/
theorem subnetHosts_255_255_255_255 :
    maskFromPrefix 32 = .ok ⟨255, 255, 255, 255⟩ ∧
      hostNumbers ⟨255, 255, 255, 255⟩ 32 = [] ∧
      subnetHosts ⟨255, 255, 255, 255⟩ ⟨255, 255, 255, 255⟩ 1 = .ok [⟨0, 0, 0, 0⟩] := by
  decide

end Uscan
