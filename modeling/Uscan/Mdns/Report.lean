import Uscan.Config
import Uscan.Devices
import Uscan.Net.Iface

/-!
# The addresses of an mDNS device

`report_addresses` of `mdns.rs`, with which the Axis and Arecont engines report a device once for
each of its addresses. Addresses that a device gave itself are left out where the device has another
one of the same family, unless the configuration asks for them.
-/

namespace Uscan.Mdns

/-- A loop of `report_addresses` finds an address of a family that is no autoconfigured one. -/
def hasSettled (isFamily : IpAddr → Bool) (addrs : List IpAddr) : Bool :=
  addrs.any fun a => isFamily a && !isAutoconf a

/-- `matches!(a, IpAddr::V4(_))`. -/
def isV4 : IpAddr → Bool
  | .v4 _ => true
  | .v6 _ => false

/-- `matches!(a, IpAddr::V6(_))`. -/
def isV6 : IpAddr → Bool
  | .v4 _ => false
  | .v6 _ => true

/-- The condition of the second loop of `report_addresses`. -/
def reportsAutoconf (hasV4 hasV6 : Bool) (cfg : Config) : IpAddr → Bool
  | .v4 ip => isAutoconf (.v4 ip) && (!hasV4 || cfg.forceZeroconf)
  | .v6 ip => isAutoconf (.v6 ip) && (!hasV6 || cfg.forceLinkLocal)

/-- `report_addresses`. -/
def reportAddresses (protocol : List Char) (version : UInt32) (addrs : List IpAddr)
    (deviceType serial mac : List Char) (cfg : Config) : List Device :=
  let hasV4 := hasSettled isV4 addrs
  let hasV6 := hasSettled isV6 addrs
  let mk (ip : IpAddr) : Device := ⟨protocol, version, ip, mac, deviceType, serial⟩
  (addrs.filter fun a => !isAutoconf a).map mk ++
    (addrs.filter (reportsAutoconf hasV4 hasV6 cfg)).map mk

/-- An autoconfigured address is shown: the device has no other address of its family, or the
configuration asks for it. -/
def Shown (cfg : Config) (addrs : List IpAddr) : IpAddr → Prop
  | .v4 _ => (∀ ip, .v4 ip ∈ addrs → isAutoconf (.v4 ip) = true) ∨ cfg.forceZeroconf = true
  | .v6 _ => (∀ ip, .v6 ip ∈ addrs → isAutoconf (.v6 ip) = true) ∨ cfg.forceLinkLocal = true

/-- The addresses of the two families. -/
theorem isV4_iff (a : IpAddr) : isV4 a = true ↔ ∃ ip, a = .v4 ip := by
  cases a <;> simp [isV4]

theorem isV6_iff (a : IpAddr) : isV6 a = true ↔ ∃ ip, a = .v6 ip := by
  cases a <;> simp [isV6]

/-- A family without a settled address, where `mk` makes the addresses of the family. -/
theorem hasSettled_eq_false {α : Type} {isFamily : IpAddr → Bool} {mk : α → IpAddr}
    (hfamily : ∀ a, isFamily a = true ↔ ∃ ip, a = mk ip) {addrs : List IpAddr} :
    hasSettled isFamily addrs = false ↔
      ∀ ip, mk ip ∈ addrs → isAutoconf (mk ip) = true := by
  have hall : hasSettled isFamily addrs = false ↔
      ∀ a ∈ addrs, isFamily a = true → isAutoconf a = true := by simp [hasSettled]
  rw [hall]
  constructor
  · intro h ip hip
    exact h _ hip ((hfamily _).mpr ⟨ip, rfl⟩)
  · intro h a ha hmember
    obtain ⟨ip, rfl⟩ := (hfamily a).mp hmember
    exact h ip ha

/-- The second loop reports the autoconfigured addresses that are shown. -/
theorem reportsAutoconf_iff {cfg : Config} {addrs : List IpAddr} (a : IpAddr) :
    reportsAutoconf (hasSettled isV4 addrs) (hasSettled isV6 addrs) cfg a = true ↔
      isAutoconf a = true ∧ Shown cfg addrs a := by
  have hv4 := @hasSettled_eq_false _ _ _ isV4_iff addrs
  have hv6 := @hasSettled_eq_false _ _ _ isV6_iff addrs
  cases a with
  | v4 ip => simp [reportsAutoconf, Shown, ← hv4]
  | v6 ip => simp [reportsAutoconf, Shown, ← hv6]

/-- The addresses of a report: the settled ones, and after them the autoconfigured ones that are
shown, each group in the order of the list. -/
theorem addresses_reportAddresses (protocol : List Char) (version : UInt32) (addrs : List IpAddr)
    (deviceType serial mac : List Char) (cfg : Config) :
    (reportAddresses protocol version addrs deviceType serial mac cfg).map Device.ip =
      (addrs.filter fun a => !isAutoconf a) ++
        addrs.filter (reportsAutoconf (hasSettled isV4 addrs) (hasSettled isV6 addrs) cfg) := by
  simp only [reportAddresses, List.map_append, List.map_map]
  exact congrArg₂ (· ++ ·) (List.map_id _) (List.map_id _)

/-- An address of the list is reported if it is settled or shown. -/
theorem mem_reportAddresses {protocol deviceType serial mac : List Char} {version : UInt32}
    {addrs : List IpAddr} {cfg : Config} {a : IpAddr} :
    a ∈ (reportAddresses protocol version addrs deviceType serial mac cfg).map Device.ip ↔
      a ∈ addrs ∧ (isAutoconf a = false ∨ Shown cfg addrs a) := by
  rw [addresses_reportAddresses, List.mem_append, List.mem_filter, List.mem_filter,
    reportsAutoconf_iff]
  cases isAutoconf a <;> simp

/-- No address is reported more often than it is in the list: the two loops report different
addresses. -/
theorem count_reportAddresses_le (protocol deviceType serial mac : List Char) (version : UInt32)
    (addrs : List IpAddr) (cfg : Config) (a : IpAddr) :
    ((reportAddresses protocol version addrs deviceType serial mac cfg).map Device.ip).count a ≤
      addrs.count a := by
  rw [addresses_reportAddresses, List.count_append]
  cases hauto : isAutoconf a with
  | false =>
    have hnot : (addrs.filter (reportsAutoconf (hasSettled isV4 addrs) (hasSettled isV6 addrs)
        cfg)).count a = 0 := by
      rw [List.count_eq_zero, List.mem_filter, reportsAutoconf_iff, hauto]
      rintro ⟨-, hfalse, -⟩
      cases hfalse
    rw [hnot, Nat.add_zero]
    exact List.filter_sublist.count_le a
  | true =>
    have hnot : (addrs.filter fun a => !isAutoconf a).count a = 0 := by
      simp [List.count_eq_zero, hauto]
    rw [hnot, Nat.zero_add]
    exact List.filter_sublist.count_le a

/-- With both switches on, every address is reported once. -/
theorem perm_reportAddresses (protocol deviceType serial mac : List Char) (version : UInt32)
    (addrs : List IpAddr) {cfg : Config} (hv4 : cfg.forceZeroconf = true)
    (hv6 : cfg.forceLinkLocal = true) :
    ((reportAddresses protocol version addrs deviceType serial mac cfg).map Device.ip).Perm
      addrs := by
  have hshown (a : IpAddr) : Shown cfg addrs a := by
    cases a
    · exact .inr hv4
    · exact .inr hv6
  have hsecond :
      addrs.filter (reportsAutoconf (hasSettled isV4 addrs) (hasSettled isV6 addrs) cfg) =
        addrs.filter fun a => !!isAutoconf a := by
    apply List.filter_congr
    intro a _
    rw [Bool.not_not, Bool.eq_iff_iff, reportsAutoconf_iff, and_iff_left (hshown a)]
  rw [addresses_reportAddresses, hsecond]
  exact List.filter_append_perm _ addrs

/-- A family of the list is in the report, if its addresses are shown where none is settled. -/
theorem exists_mem_reportAddresses {α : Type} {mk : α → IpAddr}
    {protocol deviceType serial mac : List Char} {version : UInt32} {addrs : List IpAddr}
    {cfg : Config} (hfamily : ∃ ip, mk ip ∈ addrs)
    (hshown : (∀ ip, mk ip ∈ addrs → isAutoconf (mk ip) = true) →
      ∀ ip, Shown cfg addrs (mk ip)) :
    ∃ ip, mk ip ∈
      (reportAddresses protocol version addrs deviceType serial mac cfg).map Device.ip := by
  by_cases hsettled : ∃ ip, mk ip ∈ addrs ∧ isAutoconf (mk ip) = false
  · obtain ⟨ip, hmem, hauto⟩ := hsettled
    exact ⟨ip, mem_reportAddresses.mpr ⟨hmem, .inl hauto⟩⟩
  · -- All its addresses are autoconfigured, so that each of them is shown.
    obtain ⟨ip, hmem⟩ := hfamily
    refine ⟨ip, mem_reportAddresses.mpr ⟨hmem, .inr (hshown (fun ip' hmem' => ?_) ip)⟩⟩
    by_contra hauto
    exact hsettled ⟨ip', hmem', by simpa using hauto⟩

/-- The addresses of a report are the settled addresses of the list and after them, in the order of
the list, those autoconfigured ones that are shown. So a family of the list is in the report, no
address is repeated, and with both switches on none is left out. -/
theorem reportAddresses_complete (protocol : List Char) (version : UInt32) (addrs : List IpAddr)
    (deviceType serial mac : List Char) (cfg : Config) :
    let out := (reportAddresses protocol version addrs deviceType serial mac cfg).map Device.ip
    (∃ shown : IpAddr → Bool,
      (∀ a ∈ addrs, shown a = true ↔ isAutoconf a = true ∧ Shown cfg addrs a) ∧
      out = (addrs.filter fun a => !isAutoconf a) ++ addrs.filter shown) ∧
    ((∃ ip, .v4 ip ∈ addrs) → ∃ ip, .v4 ip ∈ out) ∧
    ((∃ ip, .v6 ip ∈ addrs) → ∃ ip, .v6 ip ∈ out) ∧
    (∀ a, out.count a ≤ addrs.count a) ∧
    (cfg.forceZeroconf = true → cfg.forceLinkLocal = true → out.Perm addrs) := by
  refine ⟨⟨_, fun a _ => reportsAutoconf_iff a, addresses_reportAddresses ..⟩, ?_, ?_,
    fun a => count_reportAddresses_le .., fun hv4 hv6 => perm_reportAddresses _ _ _ _ _ _ hv4 hv6⟩
  · exact fun hv4 => exists_mem_reportAddresses hv4 fun hauto _ => .inl hauto
  · exact fun hv6 => exists_mem_reportAddresses hv6 fun hauto _ => .inl hauto

end Uscan.Mdns
