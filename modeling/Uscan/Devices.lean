import Mathlib.Data.List.AList
import Uscan.Net.Addr

/-!
# The device table

`devices.rs`: a `Device` is one report of a protocol engine, and the `DeviceTable` keeps one row for
each address, or for each protocol and address in generic mode. The table has two structures, a map
from keys to rows and the list of keys in the order of their discovery, and `add` updates both. It
returns the row that a streamed output prints, and `run` collects these rows over a sequence of
reports.

`Inv` is what holds of every table that `run` reaches (`Inv.add`, `Inv.run`): the list and the map
have the same keys, none twice, and every row stands under its own key. The last part needs that
the key of a report determines its address text, although a protocol name may contain the separator
of the two (`Device.key_inj`). From the invariant follow the order of discovery (`run_order`) and
that the streamed rows end up at the rows of the table (`run_rows`).
-/

namespace Uscan

/-- A report of a device, and a row of the table. -/
structure Device where
  /-- The protocol that found it. -/
  protocol : List Char
  /-- The rank of the report: a higher one replaces a row. -/
  version : UInt32
  /-- Its address. -/
  ip : IpAddr
  /-- Its hardware address, empty when the answer has none. -/
  mac : List Char
  /-- Its type. -/
  deviceType : List Char
  /-- Its serial number. -/
  serial : List Char
  deriving DecidableEq, Repr

/-- A hexadecimal digit, `char::is_ascii_hexdigit`. -/
def isAsciiHexdigit (c : Char) : Bool :=
  c.isDigit || ('a' ≤ c && c ≤ 'f') || ('A' ≤ c && c ≤ 'F')

/-- `char::to_ascii_uppercase`. -/
def toAsciiUppercase (c : Char) : Char :=
  if 'a' ≤ c ∧ c ≤ 'z' then Char.ofNat (c.toNat - 32) else c

/-- Digits in pairs, separated by colons. -/
def colonPairs : List Char → List Char
  | a :: b :: c :: s => a :: b :: ':' :: colonPairs (c :: s)
  | s => s

/-- `normalize_mac`: a text with twelve hexadecimal digits as a colon-separated address, and any
other text as it is. -/
def normalizeMac (raw : List Char) : List Char :=
  let hex := (raw.filter isAsciiHexdigit).map toAsciiUppercase
  if hex.length = 12 then colonPairs hex else raw

/-- The rows of a table by their keys. -/
abbrev Entries := AList fun _ : List Char => Device

/-- `DeviceTable`. -/
structure DeviceTable where
  /-- A row for each protocol and address, not for each address. -/
  forceGeneric : Bool
  /-- The rows. -/
  entries : Entries
  /-- The keys, in the order of discovery. -/
  order : List (List Char)

/-- The key of a report. -/
def Device.key (forceGeneric : Bool) (device : Device) : List Char :=
  if forceGeneric then device.protocol ++ '|' :: device.ip.text else device.ip.text

/-- The address family of a report is enabled. -/
def Device.familyOk (device : Device) (enableIpv4 enableIpv6 : Bool) : Bool :=
  match device.ip with
  | .v4 _ => enableIpv4
  | .v6 _ => enableIpv6

/-- The row that replaces `existing`: it keeps the address, and the hardware address if the report
has none. -/
def Device.upgrade (existing device : Device) : Device :=
  { device with
    ip := existing.ip
    mac := if device.mac.isEmpty then existing.mac else device.mac }

namespace DeviceTable

/-- `DeviceTable::new`. -/
def new (forceGenericProtocols : Bool) : DeviceTable := ⟨forceGenericProtocols, ∅, []⟩

/-- `DeviceTable::add`: the table after a report, and the row to print, if any. -/
def add (t : DeviceTable) (device : Device) (enableIpv4 enableIpv6 : Bool) :
    DeviceTable × Option Device :=
  if !device.familyOk enableIpv4 enableIpv6 then (t, none)
  else
    let key := device.key t.forceGeneric
    match t.entries.lookup key with
    | none => ({ t with order := t.order ++ [key], entries := t.entries.insert key device },
        some device)
    | some existing =>
      if device.version > existing.version then
        let updated := existing.upgrade device
        ({ t with entries := t.entries.insert key updated }, some updated)
      else (t, none)

/-- `DeviceTable::all`: the rows, in the order of discovery. -/
def all (t : DeviceTable) : List Device := t.order.filterMap t.entries.lookup

/-- `DeviceTable::len`. -/
def len (t : DeviceTable) : ℕ := t.entries.keys.length

end DeviceTable

/-- A call of `add`. -/
structure Report where
  /-- The report. -/
  device : Device
  /-- IPv4 is enabled. -/
  enableIpv4 : Bool
  /-- IPv6 is enabled. -/
  enableIpv6 : Bool

/-- The report passes the filter of address families. -/
def Report.accepted (r : Report) : Bool := r.device.familyOk r.enableIpv4 r.enableIpv6

/-- The table after a sequence of reports, and the rows that the calls returned. -/
def DeviceTable.run (t : DeviceTable) : List Report → DeviceTable × List Device
  | [] => (t, [])
  | r :: rs =>
    let (t', row) := t.add r.device r.enableIpv4 r.enableIpv6
    let (t'', rows) := t'.run rs
    (t'', row.toList ++ rows)

/-- The contents that a reader of streamed rows ends up with: for each key, the last row printed
under it. -/
def foldRows (forceGeneric : Bool) (rows : List Device) (contents : List Char → Option Device) :
    List Char → Option Device :=
  rows.foldl (fun m d => Function.update m (d.key forceGeneric) (some d)) contents

/-! ## Keys -/

/-- Two texts with the same separator are split alike at its last occurrence. -/
theorem append_cons_inj_of_notMem_right {α : Type} {x y u v : List α} {c : α} (hu : c ∉ u)
    (hv : c ∉ v) (h : x ++ c :: u = y ++ c :: v) : x = y ∧ u = v := by
  -- Of the two last separators, neither can stand before the other.
  have core {x y u v : List α} (hu : c ∉ u) (w : List α) (hy : y = x ++ w)
      (hw : c :: u = w ++ c :: v) : x = y ∧ u = v := by
    cases w with
    | nil =>
      cases hw
      exact ⟨by rw [hy, List.append_nil], rfl⟩
    | cons a w =>
      rw [List.cons_append] at hw
      cases hw
      exact absurd (List.mem_append_right w List.mem_cons_self) hu
  rcases List.append_eq_append_iff.mp h with ⟨w, hy, hw⟩ | ⟨w, hx, hw⟩
  · exact core hu w hy hw
  · obtain ⟨hyx, hvu⟩ := core hv w hx hw
    exact ⟨hyx.symm, hvu.symm⟩

/-- The key of a report determines its address text, and its protocol if the key has it. -/
theorem Device.key_inj {g : Bool} {d e : Device} (h : d.key g = e.key g) :
    d.ip.text = e.ip.text ∧ (g = true → d.protocol = e.protocol) := by
  cases g with
  | false => exact ⟨h, by simp⟩
  | true =>
    -- Address texts have no bar, so that the last bar of the key is the separator.
    have hbar (ip : IpAddr) : '|' ∉ ip.text := fun hmem => absurd (ip.text_subset hmem) (by decide)
    have hsplit := append_cons_inj_of_notMem_right (hbar d.ip) (hbar e.ip) h
    exact ⟨hsplit.2, fun _ => hsplit.1⟩

/-- The row that replaces another one under a key has that key. -/
theorem Device.key_upgrade {g : Bool} {existing device : Device}
    (h : existing.key g = device.key g) : (existing.upgrade device).key g = device.key g := by
  obtain ⟨hip, -⟩ := Device.key_inj h
  cases g <;> simp [Device.key, Device.upgrade, hip]

/-! ## One report -/

namespace DeviceTable

/-- What one report does to a table, and the row that it prints: nothing, a new row at the end of
the order, or a row in place of one of a lower version. -/
theorem add_cases (t : DeviceTable) (d : Device) (v4 v6 : Bool) :
    (t.add d v4 v6 = (t, none) ∧
      (d.familyOk v4 v6 = true → d.key t.forceGeneric ∈ t.entries)) ∨
    (d.familyOk v4 v6 = true ∧ d.key t.forceGeneric ∉ t.entries ∧
      t.add d v4 v6 = (⟨t.forceGeneric, t.entries.insert (d.key t.forceGeneric) d,
        t.order ++ [d.key t.forceGeneric]⟩, some d)) ∨
    (∃ existing, d.familyOk v4 v6 = true ∧
      t.entries.lookup (d.key t.forceGeneric) = some existing ∧ d.version > existing.version ∧
      t.add d v4 v6 = (⟨t.forceGeneric,
        t.entries.insert (d.key t.forceGeneric) (existing.upgrade d), t.order⟩,
        some (existing.upgrade d))) := by
  unfold add
  cases hfamily : d.familyOk v4 v6 with
  | false => exact .inl ⟨if_pos rfl, by simp⟩
  | true =>
    rw [if_neg (by simp)]
    cases hlookup : t.entries.lookup (d.key t.forceGeneric) with
    | none => exact .inr (.inl ⟨rfl, AList.lookup_eq_none.mp hlookup, by simp [hlookup]⟩)
    | some existing =>
      by_cases hversion : d.version > existing.version
      · exact .inr (.inr ⟨existing, rfl, rfl, hversion, by simp [hlookup, hversion]⟩)
      · refine .inl ⟨by simp [hlookup, hversion], fun _ => ?_⟩
        exact AList.lookup_isSome.mp (by simp [hlookup])

/-- The invariant of the table. -/
structure Inv (t : DeviceTable) : Prop where
  /-- No key is in the order twice. -/
  nodup : t.order.Nodup
  /-- The order has the keys of the rows. -/
  mem_order : ∀ k, k ∈ t.order ↔ k ∈ t.entries
  /-- Each row stands under its own key. -/
  key_eq : ∀ k d, t.entries.lookup k = some d → d.key t.forceGeneric = k

/-- An empty table satisfies the invariant. -/
theorem Inv.new (g : Bool) : (DeviceTable.new g).Inv where
  nodup := List.nodup_nil
  mem_order k := by simp [DeviceTable.new, AList.notMem_empty]
  key_eq k d h := by simp [DeviceTable.new] at h

/-- Rows stand under their own keys after a row is put under its own key. -/
theorem key_eq_insert {g : Bool} {entries : Entries} {k : List Char} {d : Device}
    (hd : d.key g = k) (h : ∀ k' d', entries.lookup k' = some d' → d'.key g = k')
    (k' : List Char) (d' : Device) (h' : (entries.insert k d).lookup k' = some d') :
    d'.key g = k' := by
  by_cases hk : k' = k
  · subst hk
    rw [AList.lookup_insert] at h'
    cases h'
    exact hd
  · rw [AList.lookup_insert_ne hk] at h'
    exact h k' d' h'

/-- Every report keeps the invariant. -/
theorem Inv.add {t : DeviceTable} (h : t.Inv) (d : Device) (v4 v6 : Bool) :
    (t.add d v4 v6).1.Inv := by
  obtain ⟨heq, -⟩ | ⟨-, hnew, heq⟩ | ⟨existing, -, hlookup, -, heq⟩ := t.add_cases d v4 v6
  · rw [heq]
    exact h
  · -- A new key, which is put at the end of the order.
    rw [heq]
    have hnotMem : d.key t.forceGeneric ∉ t.order := fun hmem => hnew ((h.mem_order _).mp hmem)
    refine ⟨?_, fun k => ?_, key_eq_insert rfl h.key_eq⟩
    · exact h.nodup.append (List.nodup_singleton _) (by simpa using hnotMem)
    · simp only [List.mem_append, List.mem_singleton, AList.mem_insert, h.mem_order]
      exact or_comm
  · -- A row of a lower version is replaced: the keys stay the same.
    rw [heq]
    have hmem : d.key t.forceGeneric ∈ t.entries := AList.lookup_isSome.mp (by simp [hlookup])
    have hkey := Device.key_upgrade (h.key_eq _ _ hlookup)
    refine ⟨h.nodup, fun k => ?_, key_eq_insert hkey h.key_eq⟩
    simp only [AList.mem_insert, h.mem_order]
    refine ⟨Or.inr, ?_⟩
    rintro (rfl | hk)
    · exact hmem
    · exact hk

/-- No report changes the mode of a table. -/
theorem add_forceGeneric (t : DeviceTable) (d : Device) (v4 v6 : Bool) :
    (t.add d v4 v6).1.forceGeneric = t.forceGeneric := by
  obtain ⟨heq, -⟩ | ⟨-, -, heq⟩ | ⟨_, -, -, -, heq⟩ := t.add_cases d v4 v6 <;> rw [heq]

/-- A report that prints nothing leaves the table as it was. -/
theorem eq_of_add_none {t : DeviceTable} {d : Device} {v4 v6 : Bool}
    (h : (t.add d v4 v6).2 = none) : (t.add d v4 v6).1 = t := by
  obtain ⟨heq, -⟩ | ⟨-, -, heq⟩ | ⟨_, -, -, -, heq⟩ := t.add_cases d v4 v6
  · rw [heq]
  · rw [heq] at h
    cases h
  · rw [heq] at h
    cases h

/-- Of the rows, a report changes only the one that it prints. -/
theorem add_rows {t : DeviceTable} (h : t.Inv) (d : Device) (v4 v6 : Bool) :
    (t.add d v4 v6).1.entries.lookup =
      foldRows t.forceGeneric (t.add d v4 v6).2.toList t.entries.lookup := by
  have hinsert (row : Device) (k : List Char) (hkey : row.key t.forceGeneric = k) :
      (t.entries.insert k row).lookup = foldRows t.forceGeneric [row] t.entries.lookup := by
    funext k'
    rw [foldRows, List.foldl_cons, List.foldl_nil, hkey]
    by_cases hk : k' = k
    · rw [hk, AList.lookup_insert, Function.update_self]
    · rw [AList.lookup_insert_ne hk, Function.update_of_ne hk]
  obtain ⟨heq, -⟩ | ⟨-, -, heq⟩ | ⟨existing, -, hlookup, -, heq⟩ := t.add_cases d v4 v6
  · rw [heq]
    rfl
  · rw [heq]
    exact hinsert d _ rfl
  · rw [heq]
    exact hinsert _ _ (Device.key_upgrade (h.key_eq _ _ hlookup))

/-- A report that passes the filter puts its key at the end of the order, unless it is there. -/
theorem add_order {t : DeviceTable} (h : t.Inv) (d : Device) (v4 v6 : Bool) :
    (t.add d v4 v6).1.order =
      if d.familyOk v4 v6 = true ∧ d.key t.forceGeneric ∉ t.order
      then t.order ++ [d.key t.forceGeneric] else t.order := by
  obtain ⟨heq, hmem⟩ | ⟨hfamily, hnew, heq⟩ | ⟨existing, hfamily, hlookup, -, heq⟩ :=
    t.add_cases d v4 v6
  · rw [heq, if_neg]
    rintro ⟨hfamily, hnotMem⟩
    exact hnotMem ((h.mem_order _).mpr (hmem hfamily))
  · rw [heq, if_pos ⟨hfamily, fun hmem => hnew ((h.mem_order _).mp hmem)⟩]
  · rw [heq, if_neg]
    rintro ⟨-, hnotMem⟩
    exact hnotMem ((h.mem_order _).mpr (AList.lookup_isSome.mp (by simp [hlookup])))

/-! ## Runs -/

/-- A run in two parts. -/
theorem run_append (t : DeviceTable) (rs rs' : List Report) :
    t.run (rs ++ rs') = (((t.run rs).1.run rs').1, (t.run rs).2 ++ ((t.run rs).1.run rs').2) := by
  induction rs generalizing t with
  | nil => rfl
  | cons r rs ih => simp [run, ih]

/-- A run of one report. -/
theorem run_singleton (t : DeviceTable) (r : Report) :
    t.run [r] = ((t.add r.device r.enableIpv4 r.enableIpv6).1,
      (t.add r.device r.enableIpv4 r.enableIpv6).2.toList) := by
  simp [run]

/-- Every run keeps the invariant. -/
theorem Inv.run {t : DeviceTable} (h : t.Inv) (rs : List Report) : (t.run rs).1.Inv := by
  induction rs generalizing t with
  | nil => exact h
  | cons r rs ih => exact ih (h.add r.device r.enableIpv4 r.enableIpv6)

/-- The streamed rows of a run, folded over the rows of the table before it, are its rows after it.
The induction is along the reports. -/
theorem run_rows {t : DeviceTable} (h : t.Inv) (rs : List Report) :
    (t.run rs).1.entries.lookup = foldRows t.forceGeneric (t.run rs).2 t.entries.lookup := by
  induction rs generalizing t with
  | nil => rfl
  | cons r rs ih =>
    have hstep := add_rows h r.device r.enableIpv4 r.enableIpv6
    have hrest := ih (h.add r.device r.enableIpv4 r.enableIpv6)
    rw [add_forceGeneric] at hrest
    unfold run
    generalize t.add r.device r.enableIpv4 r.enableIpv6 = x at hstep hrest
    calc (x.1.run rs).1.entries.lookup
        = foldRows t.forceGeneric (x.1.run rs).2 x.1.entries.lookup := hrest
      _ = foldRows t.forceGeneric (x.1.run rs).2
            (foldRows t.forceGeneric x.2.toList t.entries.lookup) := by rw [hstep]
      _ = foldRows t.forceGeneric (x.2.toList ++ (x.1.run rs).2) t.entries.lookup := by
        rw [foldRows, foldRows, foldRows, List.foldl_append]

/-- A key that is in a list already adds nothing to its distinct elements. -/
theorem eraseDups_append_cons {κ : Type} [BEq κ] [LawfulBEq κ] {xs : List κ} {k : κ} (h : k ∈ xs)
    (ys : List κ) : (xs ++ k :: ys).eraseDups = (xs ++ ys).eraseDups := by
  rw [List.eraseDups_append, List.eraseDups_append]
  congr 2
  simp [List.removeAll, h]

/-- A list without duplicates is its own list of distinct elements. -/
theorem eraseDups_of_nodup {κ : Type} [BEq κ] [LawfulBEq κ] {xs : List κ} (h : xs.Nodup) :
    xs.eraseDups = xs := by
  induction xs with
  | nil => rfl
  | cons x xs ih =>
    obtain ⟨hx, hxs⟩ := List.nodup_cons.mp h
    have hfilter : xs.filter (fun y => !y == x) = xs := by
      rw [List.filter_eq_self]
      intro y hy
      have : y ≠ x := by
        rintro rfl
        exact hx hy
      simpa using this
    rw [List.eraseDups_cons, hfilter, ih hxs]

/-- The order of a table after a run is the order before it, and then the keys of the accepted
reports, each at its first occurrence. The induction is along the reports. -/
theorem run_order {t : DeviceTable} (h : t.Inv) (rs : List Report) :
    (t.run rs).1.order =
      (t.order ++ (rs.filter Report.accepted).map (·.device.key t.forceGeneric)).eraseDups := by
  induction rs generalizing t with
  | nil => simp [run, eraseDups_of_nodup h.nodup]
  | cons r rs ih =>
    have hrest := ih (h.add r.device r.enableIpv4 r.enableIpv6)
    rw [add_forceGeneric, add_order h] at hrest
    unfold run
    rw [hrest]
    by_cases hacc : r.accepted = true
    · -- An accepted report adds its key to the order, unless the key is there already.
      rw [List.filter_cons_of_pos hacc, List.map_cons]
      by_cases hmem : r.device.key t.forceGeneric ∈ t.order
      · rw [if_neg (by simp [hmem]), eraseDups_append_cons hmem]
      · rw [if_pos ⟨hacc, hmem⟩, List.append_assoc, List.singleton_append]
    · rw [List.filter_cons_of_neg hacc, if_neg]
      rintro ⟨hfamily, -⟩
      exact hacc hfamily

/-- The rows of a table, in the order of discovery, are one for each key. -/
theorem Inv.all_eq {t : DeviceTable} (h : t.Inv) :
    t.all.map some = t.order.map t.entries.lookup := by
  have hsome : ∀ k ∈ t.order, ∃ d, t.entries.lookup k = some d := fun k hk =>
    Option.isSome_iff_exists.mp (AList.lookup_isSome.mpr ((h.mem_order k).mp hk))
  unfold all
  generalize t.order = ks at hsome
  induction ks with
  | nil => rfl
  | cons k ks ih =>
    obtain ⟨d, hd⟩ := hsome k List.mem_cons_self
    have hrest := ih fun k hk => hsome k (List.mem_cons_of_mem _ hk)
    simp only [List.filterMap_cons, hd, List.map_cons, hrest]

/-- A table has no rows exactly when its order is empty. -/
theorem Inv.all_eq_nil {t : DeviceTable} (h : t.Inv) : t.all = [] ↔ t.order = [] := by
  rw [← List.map_eq_nil_iff (f := some), h.all_eq, List.map_eq_nil_iff]

/-- A table has no rows after a run exactly when no report passed the filter. -/
theorem new_run_all_eq_nil (g : Bool) (rs : List Report) :
    ((new g).run rs).1.all = [] ↔ ∀ r ∈ rs, r.accepted = false := by
  have hnil {xs : List (List Char)} : xs.eraseDups = [] ↔ xs = [] := by
    cases xs <;> simp [List.eraseDups_cons]
  rw [((Inv.new g).run rs).all_eq_nil, run_order (Inv.new g), DeviceTable.new, List.nil_append,
    hnil, List.map_eq_nil_iff, List.filter_eq_nil_iff]
  simp

/-- A table has as many keys in its order as rows. -/
theorem Inv.order_length {t : DeviceTable} (h : t.Inv) : t.order.length = t.len := by
  have hperm : t.order.Perm t.entries.keys :=
    (List.perm_ext_iff_of_nodup h.nodup t.entries.keys_nodup).mpr fun k =>
      (h.mem_order k).trans AList.mem_keys
  exact hperm.length_eq

/-- The table after any sequence of reports, starting from an empty one: the order has the keys of
the rows, none twice, in the order of the first accepted report of each; `all` has one row for each
key; a report that returns nothing changes nothing; and the rows that the calls returned, folded by
key, are the rows of the table. -/
theorem new_run (g : Bool) (rs : List Report) :
    let t := ((new g).run rs).1
    (t.order.Nodup ∧ ∀ k, k ∈ t.order ↔ k ∈ t.entries) ∧
    t.order = ((rs.filter Report.accepted).map (·.device.key g)).eraseDups ∧
    t.all.map some = t.order.map t.entries.lookup ∧ t.all.length = t.len ∧
    (∀ d v4 v6, (t.add d v4 v6).2 = none → (t.add d v4 v6).1 = t) ∧
    t.entries.lookup = foldRows g ((new g).run rs).2 fun _ => none := by
  intro t
  have hinv : t.Inv := (Inv.new g).run rs
  refine ⟨⟨hinv.nodup, hinv.mem_order⟩, ?_, hinv.all_eq, ?_, fun d v4 v6 => eq_of_add_none, ?_⟩
  · exact run_order (Inv.new g) rs
  · have hlength := congrArg List.length hinv.all_eq
    rw [List.length_map, List.length_map, hinv.order_length] at hlength
    exact hlength
  · have hrows := run_rows (Inv.new g) rs
    have hempty : (new g).entries.lookup = fun _ => none := by
      funext k
      exact AList.lookup_empty k
    rw [hempty] at hrows
    exact hrows

end DeviceTable

end Uscan
