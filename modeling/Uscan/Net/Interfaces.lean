import Uscan.Lib.Group
import Uscan.Net.Iface

/-!
# The active interfaces

`active_interfaces` of `iface.rs`: the operating system lists addresses, each with the name of its
interface, and the code groups them by name. It decides whether an interface is up by the first
entry with its name. `mask_of` looks an address up among the interfaces that are up.
-/

namespace Uscan

namespace Interfaces

/-- `if_addrs::Interface`: an address of an interface. -/
structure Entry where
  /-- The name of the interface. -/
  name : List Char
  /-- The address. -/
  addr : IfAddr
  /-- `is_oper_up`. -/
  operUp : Bool
  /-- `is_loopback`. -/
  loopback : Bool
  deriving DecidableEq, Repr

/-- The entries are grouped by the names of their interfaces. -/
def byName : Grouping Entry Iface (List Char) where
  keyOf := Entry.name
  key := Iface.name
  new e := ⟨e.name, e.operUp, e.loopback, [e.addr]⟩
  add i e := { i with addrs := i.addrs ++ [e.addr] }
  key_new _ := rfl
  key_add _ _ := rfl

/-- `active_interfaces`, from what the operating system answers. -/
def activeInterfaces (answer : Option (List Entry)) : List Iface :=
  (byName.groups (answer.getD [])).filter Iface.isUp

/-- The mask of an address among the addresses of an interface. -/
def maskAmong (ip : Ipv4Addr) : List IfAddr → Option (Res Empty Ipv4Addr)
  | [] => none
  | .v4 ip' prefixLen _ :: addrs =>
    if ip' = ip then some (maskFromPrefix prefixLen) else maskAmong ip addrs
  | .v6 _ :: addrs => maskAmong ip addrs

/-- `mask_of`. -/
def maskOf (answer : Option (List Entry)) (ip : Ipv4Addr) : Res Empty Ipv4Addr :=
  match (activeInterfaces answer).findSome? fun i => maskAmong ip i.addrs with
  | some mask => mask
  | none => .ok ⟨255, 255, 255, 255⟩

/-! ## What the groups are -/

/-- The interface of the entries with its name. -/
theorem collect_eq (e : Entry) (entries : List Entry) : byName.collect (e :: entries) =
    some ⟨e.name, e.operUp, e.loopback, (e :: entries).map Entry.addr⟩ := by
  have hfold : ∀ (entries : List Entry) (i : Iface),
      entries.foldl byName.add i = { i with addrs := i.addrs ++ entries.map Entry.addr } := by
    intro entries
    induction entries with
    | nil => exact fun i => by rw [List.map_nil, List.append_nil]; rfl
    | cons e entries ih =>
      intro i
      rw [List.foldl_cons, ih]
      simp [byName]
  rw [Grouping.collect, hfold]
  rfl

/-- An interface is grouped from the entries with its name. -/
theorem mem_groups_iff {entries : List Entry} {i : Iface} :
    i ∈ byName.groups entries ↔ ∃ first rest, entries.filter (·.name = i.name) = first :: rest ∧
      i = ⟨first.name, first.operUp, first.loopback, (first :: rest).map Entry.addr⟩ := by
  rw [Grouping.groups_eq, List.mem_filterMap]
  constructor
  · rintro ⟨name, -, hi⟩
    have hname : i.name = name :=
      byName.key_of_collect hi fun e he => by simpa using (List.mem_filter.mp he).2
    have hmembers : byName.members entries name = entries.filter (·.name = name) := rfl
    rw [hmembers, ← hname] at hi
    cases hfilter : entries.filter (·.name = i.name) with
    | nil => rw [hfilter] at hi; cases hi
    | cons first rest =>
      rw [hfilter, collect_eq] at hi
      exact ⟨first, rest, rfl, (Option.some.inj hi).symm⟩
  · rintro ⟨first, rest, hfilter, hi⟩
    have hfirst : first ∈ entries.filter (·.name = i.name) := hfilter ▸ List.mem_cons_self
    have hmembers : byName.members entries i.name = entries.filter (·.name = i.name) := rfl
    obtain ⟨hmem, hname⟩ := List.mem_filter.mp hfirst
    refine ⟨i.name, byName.mem_keys.mpr ⟨first, hmem, of_decide_eq_true hname⟩, ?_⟩
    rw [hmembers, hfilter, collect_eq, hi]

/-- The mask that is found among addresses is that of one of them. -/
theorem exists_of_maskAmong {ip : Ipv4Addr} {addrs : List IfAddr} {mask : Res Empty Ipv4Addr}
    (h : maskAmong ip addrs = some mask) :
    ∃ prefixLen le, .v4 ip prefixLen le ∈ addrs ∧ mask = maskFromPrefix prefixLen := by
  induction addrs with
  | nil => cases h
  | cons addr addrs ih =>
    cases addr with
    | v6 ip' =>
      obtain ⟨prefixLen, le, hmem, hmask⟩ := ih h
      exact ⟨prefixLen, le, List.mem_cons_of_mem _ hmem, hmask⟩
    | v4 ip' prefixLen le =>
      rw [maskAmong] at h
      split_ifs at h with heq
      · subst heq
        exact ⟨prefixLen, le, List.mem_cons_self, (Option.some.inj h).symm⟩
      · obtain ⟨prefixLen, le, hmem, hmask⟩ := ih h
        exact ⟨prefixLen, le, List.mem_cons_of_mem _ hmem, hmask⟩

/-- An IPv4 address has a mask. -/
theorem isSome_maskAmong {ip : Ipv4Addr} {addrs : List IfAddr}
    (h : ip ∈ addrs.filterMap IfAddr.ipv4) : (maskAmong ip addrs).isSome := by
  induction addrs with
  | nil => cases h
  | cons addr addrs ih =>
    cases addr with
    | v6 ip' => exact ih h
    | v4 ip' prefixLen le =>
      rw [maskAmong]
      split_ifs with heq
      · rfl
      · rw [List.filterMap_cons_some (rfl : IfAddr.ipv4 (.v4 ip' prefixLen le) = some ip')] at h
        exact ih ((List.mem_cons.mp h).resolve_left (Ne.symm heq))

/-- Every IPv4 address of an active interface has the mask of a subnet that an active interface has
with this address. -/
theorem exists_maskOf {answer : Option (List Entry)} {i : Iface} (hi : i ∈ activeInterfaces answer)
    {ip : Ipv4Addr} (hip : ip ∈ i.ipv4Addrs) :
    ∃ j ∈ activeInterfaces answer, ∃ prefixLen le, .v4 ip prefixLen le ∈ j.addrs ∧
      maskOf answer ip = maskFromPrefix prefixLen := by
  have hsome : ((activeInterfaces answer).findSome? fun i => maskAmong ip i.addrs).isSome := by
    rw [List.findSome?_isSome_iff]
    exact ⟨i, hi, isSome_maskAmong hip⟩
  obtain ⟨mask, hmask⟩ := Option.isSome_iff_exists.mp hsome
  obtain ⟨j, hj, hamong⟩ := List.exists_of_findSome?_eq_some hmask
  obtain ⟨prefixLen, le, hmem, heq⟩ := exists_of_maskAmong hamong
  exact ⟨j, hj, prefixLen, le, hmem, by rw [maskOf, hmask, heq]⟩

/-- The prefix length of an address, if it is a given IPv4 address. -/
def prefixFor (ip : Ipv4Addr) : IfAddr → Option UInt8
  | .v4 ip' prefixLen _ => if ip' = ip then some prefixLen else none
  | .v6 _ => none

/-- The prefix length of an IPv4 address of an active interface, or 32 bits. -/
def prefixOf (answer : Option (List Entry)) (ip : Ipv4Addr) : UInt8 :=
  ((activeInterfaces answer).findSome? fun i => i.addrs.findSome? (prefixFor ip)).getD 32

/-- A prefix length has at most 32 bits. -/
theorem prefixOf_le (answer : Option (List Entry)) (ip : Ipv4Addr) : prefixOf answer ip ≤ 32 := by
  rw [prefixOf]
  cases h : (activeInterfaces answer).findSome? fun i =>
      i.addrs.findSome? (prefixFor ip) with
  | none => decide
  | some prefixLen =>
    obtain ⟨i, -, hi⟩ := List.exists_of_findSome?_eq_some h
    obtain ⟨addr, -, haddr⟩ := List.exists_of_findSome?_eq_some hi
    cases addr with
    | v6 ip' => cases haddr
    | v4 ip' prefixLen' le =>
      rw [prefixFor] at haddr
      split_ifs at haddr
      cases haddr
      exact le

/-- The mask of an address is that of its prefix length. -/
theorem maskOf_eq (answer : Option (List Entry)) (ip : Ipv4Addr) :
    maskOf answer ip = maskFromPrefix (prefixOf answer ip) := by
  have hamong : ∀ addrs : List IfAddr,
      maskAmong ip addrs = (addrs.findSome? (prefixFor ip)).map maskFromPrefix := by
    intro addrs
    induction addrs with
    | nil => rfl
    | cons addr addrs ih =>
      cases addr with
      | v6 ip' => exact ih
      | v4 ip' prefixLen le =>
        rw [maskAmong, List.findSome?_cons, prefixFor]
        split_ifs with heq
        · rfl
        · exact ih
  have hfind : ((activeInterfaces answer).findSome? fun i => maskAmong ip i.addrs) =
      ((activeInterfaces answer).findSome? fun i =>
        i.addrs.findSome? (prefixFor ip)).map maskFromPrefix := by
    rw [List.map_findSome?]
    exact congrArg (fun f => (activeInterfaces answer).findSome? f) (funext fun i => hamong i.addrs)
  rw [maskOf, prefixOf, hfind]
  cases (activeInterfaces answer).findSome? fun i => i.addrs.findSome? (prefixFor ip) with
  | none => rfl
  | some prefixLen => rfl

/-- The interfaces that are found. Each name comes once, in the order in which the operating system
lists the interfaces first, and an interface is up if its first entry is. It then has the addresses
of all its entries, in order, and every IPv4 address of it has the mask of its subnet, or of the
subnet that another interface has with the same address. -/
theorem activeInterfaces_exact (entries : List Entry) :
    ((activeInterfaces (some entries)).map Iface.name).Sublist (byName.keys entries) ∧
      ((activeInterfaces (some entries)).map Iface.name).Nodup ∧
      (∀ i, i ∈ activeInterfaces (some entries) ↔
        ∃ first rest, entries.filter (·.name = i.name) = first :: rest ∧ first.operUp = true ∧
          i = ⟨first.name, true, first.loopback, (first :: rest).map Entry.addr⟩) ∧
      ∀ i ∈ activeInterfaces (some entries), ∀ ip ∈ i.ipv4Addrs,
        ∃ j ∈ activeInterfaces (some entries), ∃ prefixLen le, .v4 ip prefixLen le ∈ j.addrs ∧
          maskOf (some entries) ip = maskFromPrefix prefixLen := by
  have hsub : ((activeInterfaces (some entries)).map Iface.name).Sublist (byName.keys entries) := by
    rw [← byName.map_key_groups]
    exact List.filter_sublist.map Iface.name
  refine ⟨hsub, (byName.nodup_keys entries).sublist hsub, fun i => ?_, fun i hi ip hip =>
    exists_maskOf hi hip⟩
  rw [activeInterfaces, Option.getD_some, List.mem_filter, mem_groups_iff]
  constructor
  · rintro ⟨⟨first, rest, hfilter, hi⟩, hup⟩
    have hfirst : first.operUp = true := by rwa [hi] at hup
    exact ⟨first, rest, hfilter, hfirst, by rw [hi, hfirst]⟩
  · rintro ⟨first, rest, hfilter, hup, hi⟩
    refine ⟨⟨first, rest, hfilter, by rw [hup]; exact hi⟩, ?_⟩
    rw [hi]

end Interfaces

end Uscan
