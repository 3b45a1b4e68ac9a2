import Uscan.Devices
import Uscan.Lib.Records
import Uscan.Net.AddrText

/-!
# The contents of the rows

The row of a key is a fold over the accepted reports with that key (`lookup_run`), whatever else
arrives in between. A report that is not of a higher version than all before it is dropped; the
first report of the highest version gives the row its version, protocol, type and serial number, and
the last of the records with a hardware address gives it that (`RowSpec`, `new_run_rows`).

Where the reports of a key have different versions, the order of arrival decides on the hardware
address only, and only if the report of the highest version has none while another one does
(`rows_perm_iff`).
-/

namespace Uscan

/-- The accepted reports with a key, in the order of their arrival. -/
def reportsOf (forceGeneric : Bool) (key : List Char) (rs : List Report) : List Device :=
  (rs.filter fun r => r.accepted && r.device.key forceGeneric == key).map (·.device)

/-- What a report makes of the row of its key. -/
def mergeRow (row : Option Device) (device : Device) : Option Device :=
  match row with
  | none => some device
  | some existing =>
    if device.version > existing.version then some (existing.upgrade device) else some existing

/-- The rank of a report among those with the same key. -/
def Device.rank (d : Device) : ℕ := d.version.toNat

/-- The last text that is not empty, or the empty text. -/
def lastNonempty (texts : List (List Char)) : List Char :=
  ((texts.filter fun t => !t.isEmpty).getLast?).getD []

/-- The row that the reports `ds` with one key lead to. -/
structure RowSpec (ds : List Device) (row : Device) : Prop where
  /-- The version is the highest one, and the other fields but the addresses are those of the first
  report that has it. -/
  exists_firstMax : ∃ first, FirstMax Device.rank ds first ∧ row.version = first.version ∧
    row.protocol = first.protocol ∧ row.deviceType = first.deviceType ∧ row.serial = first.serial
  /-- The address is one that a report has. -/
  exists_ip : ∃ d ∈ ds, row.ip = d.ip
  /-- The hardware address is the last one among the reports that were of a higher version than all
  before them. -/
  mac_eq : row.mac = lastNonempty ((records Device.rank ds).map (·.mac))

/-- The reports with a key, when one more arrives. -/
theorem reportsOf_concat (g : Bool) (k : List Char) (rs : List Report) (r : Report) :
    reportsOf g k (rs ++ [r]) = reportsOf g k rs ++
      if r.accepted = true ∧ r.device.key g = k then [r.device] else [] := by
  unfold reportsOf
  rw [List.filter_append, List.map_append]
  congr 1
  by_cases h : r.accepted = true ∧ r.device.key g = k
  · rw [if_pos h, List.filter_cons_of_pos (by simp [h])]
    rfl
  · rw [if_neg h, List.filter_cons_of_neg (by simpa using h)]
    rfl

/-- A version is higher when its rank is. -/
theorem Device.version_gt_iff (d e : Device) : d.version > e.version ↔ e.rank < d.rank :=
  UInt32.lt_iff_toNat_lt

namespace DeviceTable

/-- A report changes the row of its key, and no other one. -/
theorem lookup_add (t : DeviceTable) (d : Device) (v4 v6 : Bool) (k : List Char) :
    (t.add d v4 v6).1.entries.lookup k =
      if d.familyOk v4 v6 = true ∧ d.key t.forceGeneric = k
      then mergeRow (t.entries.lookup k) d else t.entries.lookup k := by
  unfold add
  cases hfamily : d.familyOk v4 v6 with
  | false => simp
  | true =>
    rw [if_neg (by simp)]
    by_cases hkey : d.key t.forceGeneric = k
    · subst hkey
      rw [if_pos ⟨rfl, rfl⟩]
      cases hlookup : t.entries.lookup (d.key t.forceGeneric) with
      | none => simp [hlookup, mergeRow]
      | some existing =>
        by_cases hversion : d.version > existing.version
        · simp [hlookup, mergeRow, hversion]
        · simp [hlookup, mergeRow, hversion]
    · rw [if_neg fun h => hkey h.2]
      have hne : k ≠ d.key t.forceGeneric := fun h => hkey h.symm
      cases hlookup : t.entries.lookup (d.key t.forceGeneric) with
      | none => simp [hlookup, AList.lookup_insert_ne hne]
      | some existing =>
        by_cases hversion : d.version > existing.version
        · simp [hlookup, hversion, AList.lookup_insert_ne hne]
        · simp [hlookup, hversion]

/-- No run changes the mode of a table. -/
theorem run_forceGeneric (t : DeviceTable) (rs : List Report) :
    (t.run rs).1.forceGeneric = t.forceGeneric := by
  induction rs generalizing t with
  | nil => rfl
  | cons r rs ih => exact (ih _).trans (add_forceGeneric t _ _ _)

/-- The row of a key after a run is a fold over the accepted reports with that key. The induction is
on the last report. -/
theorem lookup_run (g : Bool) (rs : List Report) (k : List Char) :
    ((new g).run rs).1.entries.lookup k = (reportsOf g k rs).foldl mergeRow none := by
  induction rs using List.reverseRecOn with
  | nil => exact AList.lookup_empty k
  | append_singleton rs r ih =>
    rw [run_append, run_singleton, reportsOf_concat, List.foldl_append, ← ih]
    show (((new g).run rs).1.add r.device r.enableIpv4 r.enableIpv6).1.entries.lookup k = _
    rw [lookup_add, run_forceGeneric]
    by_cases h : r.accepted = true ∧ r.device.key g = k
    · rw [if_pos h]
      exact if_pos h
    · rw [if_neg h]
      exact if_neg h

end DeviceTable

/-- A text after the others is the last one that is not empty, unless it is empty. -/
theorem lastNonempty_concat (texts : List (List Char)) (t : List Char) :
    lastNonempty (texts ++ [t]) = if t.isEmpty then lastNonempty texts else t := by
  unfold lastNonempty
  rw [List.filter_append]
  cases ht : t.isEmpty with
  | true => simp [ht]
  | false => simp [ht]

/-- A last text that is not empty is the last one that is not empty. -/
theorem lastNonempty_of_getLast? {texts : List (List Char)} {t : List Char}
    (h : texts.getLast? = some t) (ht : t ≠ []) : lastNonempty texts = t := by
  obtain ⟨texts, rfl⟩ := List.getLast?_eq_some_iff.mp h
  rw [lastNonempty_concat, if_neg (by simpa using ht)]

/-- The reports with one key lead to the row that they specify. The induction is on the last
report, which is a record or dropped. -/
theorem rowSpec_foldl {ds : List Device} (h : ds ≠ []) :
    ∃ row, ds.foldl mergeRow none = some row ∧ RowSpec ds row := by
  induction ds using List.reverseRecOn with
  | nil => exact absurd rfl h
  | append_singleton ds d ih =>
    rw [List.foldl_append]
    by_cases hds : ds = []
    · subst hds
      -- The first report is the row.
      refine ⟨d, rfl, ⟨d, firstMax_concat_of_lt fun x hx => absurd hx List.not_mem_nil, rfl, rfl,
        rfl, rfl⟩, ⟨d, List.mem_singleton_self d, rfl⟩, ?_⟩
      rw [records_concat]
      cases hmac : d.mac <;> simp [records, recordsAfter, lastNonempty, hmac]
    · obtain ⟨row, hrow, hspec⟩ := ih hds
      obtain ⟨first, hmax, hversion, hprotocol, htype, hserial⟩ := hspec.exists_firstMax
      obtain ⟨source, hsource, hip⟩ := hspec.exists_ip
      have hrank : row.rank = first.rank := congrArg UInt32.toNat hversion
      rw [hrow]
      show ∃ r, (if d.version > row.version then some (row.upgrade d) else some row) = some r ∧ _
      by_cases hgt : row.rank < d.rank
      · -- A record: it replaces the row, and keeps the hardware address if it has none.
        have hrecord : ∀ x ∈ ds, x.rank < d.rank := fun x hx =>
          (hmax.le x hx).trans_lt (hrank ▸ hgt)
        rw [if_pos ((Device.version_gt_iff d row).mpr hgt)]
        refine ⟨row.upgrade d, rfl, ⟨d, firstMax_concat_of_lt hrecord, rfl, rfl, rfl, rfl⟩,
          ⟨source, List.mem_append_left _ hsource, hip⟩, ?_⟩
        rw [records_concat, if_pos hrecord, List.map_append, List.map_singleton,
          lastNonempty_concat, ← hspec.mac_eq]
        rfl
      · -- Not a record: the first report of the highest version is not of a lower one.
        have hnot : ¬ ∀ x ∈ ds, x.rank < d.rank := fun hall =>
          hgt (hrank ▸ hall first hmax.mem)
        rw [if_neg fun hlt => hgt ((Device.version_gt_iff d row).mp hlt)]
        refine ⟨row, rfl, ⟨first, hmax.concat_of_le (hrank ▸ not_lt.mp hgt), hversion, hprotocol,
          htype, hserial⟩, ⟨source, List.mem_append_left _ hsource, hip⟩, ?_⟩
        rw [records_concat, if_neg hnot, List.append_nil]
        exact hspec.mac_eq

/-- A row with a hardware address keeps one. -/
theorem mac_ne_nil_foldl {row row' : Device} (h : row.mac ≠ []) {ds : List Device}
    (hrow' : ds.foldl mergeRow (some row) = some row') : row'.mac ≠ [] := by
  induction ds generalizing row with
  | nil =>
    cases hrow'
    exact h
  | cons d ds ih =>
    rw [List.foldl_cons, mergeRow] at hrow'
    split_ifs at hrow' with hversion
    · refine ih ?_ hrow'
      unfold Device.upgrade
      dsimp only
      split_ifs with hmac
      · exact h
      · simpa using hmac
    · exact ih h hrow'

/-- Two reports have one key exactly when they have one address and, in generic mode, one
protocol. -/
theorem Device.key_eq_iff (g : Bool) (d e : Device) :
    d.key g = e.key g ↔ d.ip = e.ip ∧ (g = true → d.protocol = e.protocol) := by
  constructor
  · intro h
    obtain ⟨htext, hprotocol⟩ := Device.key_inj h
    exact ⟨IpAddr.text_inj htext, hprotocol⟩
  · rintro ⟨hip, hprotocol⟩
    cases g with
    | false => exact congrArg IpAddr.text hip
    | true => rw [Device.key, Device.key, hip, hprotocol rfl]

/-- The reports of a run in two parts. -/
theorem reportsOf_append (g : Bool) (k : List Char) (rs rs' : List Report) :
    reportsOf g k (rs ++ rs') = reportsOf g k rs ++ reportsOf g k rs' := by
  unfold reportsOf
  rw [List.filter_append, List.map_append]

/-- The rows after any sequence of reports, starting from an empty table: every key with an accepted
report has the row that its reports specify, a row with a hardware address keeps one, and two
reports share a row exactly when they have one address and, in generic mode, one protocol. -/
theorem new_run_rows (g : Bool) (rs : List Report) :
    (∀ k, reportsOf g k rs ≠ [] → ∃ row,
      ((DeviceTable.new g).run rs).1.entries.lookup k = some row ∧
        RowSpec (reportsOf g k rs) row) ∧
    (∀ rs' k row row', ((DeviceTable.new g).run rs).1.entries.lookup k = some row →
      ((DeviceTable.new g).run (rs ++ rs')).1.entries.lookup k = some row' →
        row.mac ≠ [] → row'.mac ≠ []) ∧
    ∀ d e : Device, d.key g = e.key g ↔ d.ip = e.ip ∧ (g = true → d.protocol = e.protocol) := by
  refine ⟨fun k hk => ?_, fun rs' k row row' hrow hrow' hmac => ?_, Device.key_eq_iff g⟩
  · rw [DeviceTable.lookup_run]
    exact rowSpec_foldl hk
  · rw [DeviceTable.lookup_run] at hrow hrow'
    rw [reportsOf_append, List.foldl_append, hrow] at hrow'
    exact mac_ne_nil_foldl hmac hrow'

/-! ## The order of arrival -/

/-- Reports that arrive under the same flags. -/
def asReports (enableIpv4 enableIpv6 : Bool) (ds : List Device) : List Report :=
  ds.map fun d => ⟨d, enableIpv4, enableIpv6⟩

/-- The rows of the table that the reports lead to. -/
def finalRows (g v4 v6 : Bool) (ds : List Device) : List Device :=
  ((DeviceTable.new g).run (asReports v4 v6 ds)).1.all

/-- A row without its hardware address. -/
def Device.withoutMac (d : Device) : Device := { d with mac := [] }

/-- Two reports with one key have different versions. -/
def DistinctVersions (g : Bool) (d e : Device) : Prop := d.key g = e.key g → d.version ≠ e.version

section Order

variable {g v4 v6 : Bool} {ds ds' : List Device} {k : List Char}

/-- The reports with a key, among those under the same flags. -/
theorem reportsOf_asReports (g v4 v6 : Bool) (k : List Char) (ds : List Device) :
    reportsOf g k (asReports v4 v6 ds) =
      ds.filter fun d => d.familyOk v4 v6 && d.key g == k := by
  unfold reportsOf asReports
  rw [List.filter_map, List.map_map]
  exact List.map_id _

/-- A report with a key is one of the reports, and has the key. -/
theorem mem_reportsOf {d : Device} :
    d ∈ reportsOf g k (asReports v4 v6 ds) ↔ d ∈ ds ∧ d.familyOk v4 v6 = true ∧ d.key g = k := by
  rw [reportsOf_asReports, List.mem_filter, Bool.and_eq_true, beq_iff_eq]

/-- The rows are those that the reports of the keys lead to. -/
theorem mem_finalRows {row : Device} :
    row ∈ finalRows g v4 v6 ds ↔
      ∃ k, (reportsOf g k (asReports v4 v6 ds)).foldl mergeRow none = some row := by
  have hinv := (DeviceTable.Inv.new g).run (asReports v4 v6 ds)
  unfold finalRows
  rw [DeviceTable.all, List.mem_filterMap]
  constructor
  · rintro ⟨k, -, hrow⟩
    exact ⟨k, by rw [← DeviceTable.lookup_run, hrow]⟩
  · rintro ⟨k, hrow⟩
    rw [← DeviceTable.lookup_run] at hrow
    refine ⟨k, (hinv.mem_order k).mpr ?_, hrow⟩
    exact AList.lookup_isSome.mp (by rw [hrow]; rfl)

/-- The row of a key has the key. -/
theorem key_of_foldl {row : Device}
    (h : (reportsOf g k (asReports v4 v6 ds)).foldl mergeRow none = some row) :
    row.key g = k := by
  have hinv := (DeviceTable.Inv.new g).run (asReports v4 v6 ds)
  rw [← DeviceTable.lookup_run] at h
  have hkey := hinv.key_eq k row h
  rwa [DeviceTable.run_forceGeneric] at hkey

/-- The row that reports lead to, if there are reports. -/
theorem rowSpec_of_foldl {rows : List Device} {row : Device}
    (h : rows.foldl mergeRow none = some row) : RowSpec rows row := by
  have hne : rows ≠ [] := by
    rintro rfl
    cases h
  obtain ⟨row', hrow', hspec⟩ := rowSpec_foldl hne
  cases h.symm.trans hrow'
  exact hspec

/-- The reports of a key in another order. -/
theorem reportsOf_perm (hperm : ds.Perm ds') :
    (reportsOf g k (asReports v4 v6 ds)).Perm (reportsOf g k (asReports v4 v6 ds')) := by
  rw [reportsOf_asReports, reportsOf_asReports]
  exact hperm.filter _

/-- Reports with one key are told apart by their versions. -/
theorem eq_of_rank_eq (h : ds.Pairwise (DistinctVersions g)) :
    ∀ d ∈ reportsOf g k (asReports v4 v6 ds), ∀ e ∈ reportsOf g k (asReports v4 v6 ds),
      d.rank = e.rank → d = e := by
  intro d hd e he hrank
  obtain ⟨hdmem, -, hdkey⟩ := mem_reportsOf.mp hd
  obtain ⟨hemem, -, hekey⟩ := mem_reportsOf.mp he
  by_contra hne
  have hsymm : Std.Symm (DistinctVersions g) := ⟨fun d e hde hkey => (hde hkey.symm).symm⟩
  exact h.forall hdmem hemem hne (hdkey.trans hekey.symm) (UInt32.toNat_inj.mp hrank)

/-- In every order, the row of a key is the same but for its hardware address. -/
theorem withoutMac_eq (h : ds.Pairwise (DistinctVersions g)) (hperm : ds.Perm ds')
    {row row' : Device} (hrow : (reportsOf g k (asReports v4 v6 ds)).foldl mergeRow none = some row)
    (hrow' : (reportsOf g k (asReports v4 v6 ds')).foldl mergeRow none = some row') :
    row.withoutMac = row'.withoutMac := by
  have hspec := rowSpec_of_foldl hrow
  have hspec' := rowSpec_of_foldl hrow'
  obtain ⟨first, hmax, hversion, hprotocol, htype, hserial⟩ := hspec.exists_firstMax
  obtain ⟨first', hmax', hversion', hprotocol', htype', hserial'⟩ := hspec'.exists_firstMax
  obtain rfl := hmax.perm hmax' (reportsOf_perm hperm) (eq_of_rank_eq h)
  have hip : row.ip = row'.ip :=
    ((Device.key_eq_iff g row row').mp ((key_of_foldl hrow).trans (key_of_foldl hrow').symm)).1
  unfold Device.withoutMac
  rw [hprotocol, hversion, hip, htype, hserial, hprotocol', hversion', htype', hserial']

/-- Every order has a row for the same keys. -/
theorem exists_row_perm (hperm : ds.Perm ds') {row : Device}
    (hrow : (reportsOf g k (asReports v4 v6 ds)).foldl mergeRow none = some row) :
    ∃ row', (reportsOf g k (asReports v4 v6 ds')).foldl mergeRow none = some row' := by
  have hne : reportsOf g k (asReports v4 v6 ds') ≠ [] := by
    intro hnil
    have hperm' : (reportsOf g k (asReports v4 v6 ds)).Perm [] := hnil ▸ reportsOf_perm hperm
    rw [hperm'.eq_nil] at hrow
    cases hrow
  obtain ⟨row', hrow', -⟩ := rowSpec_foldl hne
  exact ⟨row', hrow'⟩

/-- The report of the highest version of each key has a hardware address, or no report of the key
has one. -/
def MacDecided (g v4 v6 : Bool) (ds : List Device) : Prop :=
  ∀ k, ∀ top ∈ reportsOf g k (asReports v4 v6 ds),
    (∀ d ∈ reportsOf g k (asReports v4 v6 ds), d.rank ≤ top.rank) →
      top.mac ≠ [] ∨ ∀ d ∈ reportsOf g k (asReports v4 v6 ds), d.mac = []

/-- The hardware address of a row is that of the report of the highest version, if it has one. -/
theorem RowSpec.mac_of_top {rows : List Device} {row top : Device} (h : RowSpec rows row)
    (htop : FirstMax Device.rank rows top) (hmac : top.mac ≠ [])
    (hinj : ∀ d ∈ rows, ∀ e ∈ rows, d.rank = e.rank → d = e) : row.mac = top.mac := by
  obtain ⟨a, ha, hmax⟩ := @getLast?_records _ _ _ Device.rank rows (List.ne_nil_of_mem htop.mem)
  obtain rfl := htop.perm hmax (List.Perm.refl _) hinj
  rw [h.mac_eq]
  exact lastNonempty_of_getLast? (by rw [List.getLast?_map, ha]; rfl) hmac

/-- Without a hardware address in any report, a row has none. -/
theorem RowSpec.mac_of_forall {rows : List Device} {row : Device} (h : RowSpec rows row)
    (hmac : ∀ d ∈ rows, d.mac = []) : row.mac = [] := by
  rw [h.mac_eq, lastNonempty, List.filter_eq_nil_iff.mpr]
  · rfl
  · intro t ht
    obtain ⟨d, hd, rfl⟩ := List.mem_map.mp ht
    simp [hmac d (mem_of_mem_records hd)]

/-- Where the hardware addresses are decided, all orders lead to the same rows. -/
theorem foldl_eq_of_macDecided (h : ds.Pairwise (DistinctVersions g)) (hmac : MacDecided g v4 v6 ds)
    (hperm : ds.Perm ds') {row : Device}
    (hrow : (reportsOf g k (asReports v4 v6 ds)).foldl mergeRow none = some row) :
    (reportsOf g k (asReports v4 v6 ds')).foldl mergeRow none = some row := by
  obtain ⟨row', hrow'⟩ := exists_row_perm hperm hrow
  have hspec := rowSpec_of_foldl hrow
  have hspec' := rowSpec_of_foldl hrow'
  have hinj := @eq_of_rank_eq g v4 v6 ds k h
  have hmem : ∀ d, d ∈ reportsOf g k (asReports v4 v6 ds') ↔
      d ∈ reportsOf g k (asReports v4 v6 ds) := fun d => (reportsOf_perm hperm).mem_iff.symm
  have hinj' : ∀ d ∈ reportsOf g k (asReports v4 v6 ds'),
      ∀ e ∈ reportsOf g k (asReports v4 v6 ds'), d.rank = e.rank → d = e :=
    fun d hd e he => hinj d ((hmem d).mp hd) e ((hmem e).mp he)
  obtain ⟨first, hmax, -⟩ := hspec.exists_firstMax
  obtain ⟨first', hmax', -⟩ := hspec'.exists_firstMax
  obtain rfl := hmax.perm hmax' (reportsOf_perm hperm) hinj
  -- The first report of the highest version is the same one in both orders.
  have hmacs : row.mac = row'.mac := by
    rcases hmac k first hmax.mem hmax.le with hne | hall
    · rw [hspec.mac_of_top hmax hne hinj, hspec'.mac_of_top hmax' hne hinj']
    · rw [hspec.mac_of_forall hall, hspec'.mac_of_forall fun d hd => hall d ((hmem d).mp hd)]
  have hrest := withoutMac_eq h hperm hrow hrow'
  have heq : row = row' := calc
    row = { row.withoutMac with mac := row.mac } := rfl
    _ = { row'.withoutMac with mac := row'.mac } := by rw [hrest, hmacs]
    _ = row' := rfl
  rw [hrow', heq]

/-- A row of the highest version stays as it is. -/
theorem foldl_mergeRow_of_le {row : Device} {rest : List Device}
    (h : ∀ d ∈ rest, d.rank ≤ row.rank) : rest.foldl mergeRow (some row) = some row := by
  induction rest with
  | nil => rfl
  | cons d rest ih =>
    have hd : ¬ d.version > row.version := fun hlt =>
      absurd ((Device.version_gt_iff d row).mp hlt) (not_lt.mpr (h d List.mem_cons_self))
    have hstep : mergeRow (some row) d = some row := if_neg hd
    rw [List.foldl_cons, hstep]
    exact ih fun e he => h e (List.mem_cons_of_mem _ he)

/-- The reports of a key, when a report with that key is put first. -/
theorem reportsOf_cons {d : Device} (hd : d ∈ reportsOf g k (asReports v4 v6 ds))
    (rest : List Device) : reportsOf g k (asReports v4 v6 (d :: rest)) =
      d :: reportsOf g k (asReports v4 v6 rest) := by
  obtain ⟨-, hfamily, hkey⟩ := mem_reportsOf.mp hd
  rw [reportsOf_asReports, reportsOf_asReports, List.filter_cons_of_pos (by simp [hfamily, hkey])]

/-- Of fewer reports, fewer have a key. -/
theorem mem_reportsOf_of_subset (hsub : ds' ⊆ ds) {d : Device}
    (hd : d ∈ reportsOf g k (asReports v4 v6 ds')) : d ∈ reportsOf g k (asReports v4 v6 ds) := by
  obtain ⟨hmem, hkey⟩ := mem_reportsOf.mp hd
  exact mem_reportsOf.mpr ⟨hsub hmem, hkey⟩

/-- The report of the highest version comes first: all others are dropped. -/
theorem foldl_top_first {top : Device} (htop : top ∈ reportsOf g k (asReports v4 v6 ds))
    (hmax : ∀ d ∈ reportsOf g k (asReports v4 v6 ds), d.rank ≤ top.rank) (hsub : ds' ⊆ ds) :
    (reportsOf g k (asReports v4 v6 (top :: ds'))).foldl mergeRow none = some top := by
  rw [reportsOf_cons htop]
  exact foldl_mergeRow_of_le fun d hd => hmax d (mem_reportsOf_of_subset hsub hd)

/-- It comes second: it keeps the hardware address of the first one, if it has none. -/
theorem foldl_top_second {top other : Device} (htop : top ∈ reportsOf g k (asReports v4 v6 ds))
    (hmax : ∀ d ∈ reportsOf g k (asReports v4 v6 ds), d.rank ≤ top.rank)
    (hother : other ∈ reportsOf g k (asReports v4 v6 ds)) (hlt : top.version > other.version)
    (hsub : ds' ⊆ ds) :
    (reportsOf g k (asReports v4 v6 (other :: top :: ds'))).foldl mergeRow none =
      some (other.upgrade top) := by
  have hstep : mergeRow (some other) top = some (other.upgrade top) := if_pos hlt
  rw [reportsOf_cons hother, reportsOf_cons htop]
  show List.foldl mergeRow (mergeRow (some other) top) _ = _
  rw [hstep]
  exact foldl_mergeRow_of_le fun d hd => hmax d (mem_reportsOf_of_subset hsub hd)

/-- Where all orders lead to the same rows, the hardware addresses are decided. Of a report of the
highest version without an address and another one with an address, either can come first. -/
theorem macDecided_of_rows (h : ds.Pairwise (DistinctVersions g))
    (hrows : ∀ ds', ds.Perm ds' → ∀ row, row ∈ finalRows g v4 v6 ds ↔ row ∈ finalRows g v4 v6 ds') :
    MacDecided g v4 v6 ds := by
  intro k top htop hmax
  by_contra hnot
  simp only [not_or, ne_eq, not_not, not_forall] at hnot
  obtain ⟨hnil, other, hother, hmac⟩ := hnot
  have hne : other ≠ top := by
    rintro rfl
    exact hmac hnil
  have hlt : top.version > other.version := by
    rw [Device.version_gt_iff]
    exact lt_of_le_of_ne (hmax other hother) fun heq =>
      hne (eq_of_rank_eq h other hother top htop heq)
  have htopMem := (mem_reportsOf.mp htop).1
  have hotherMem := (mem_reportsOf.mp hother).1
  have hperm₁ : ds.Perm (top :: ds.erase top) := List.perm_cons_erase htopMem
  have hfirst := foldl_top_first htop hmax (@List.erase_subset _ _ top ds)
  have hperm₂ : ds.Perm (other :: top :: (ds.erase other).erase top) :=
    (List.perm_cons_erase hotherMem).trans
      ((List.perm_cons_erase ((List.mem_erase_of_ne hne.symm).mpr htopMem)).cons other)
  have hsub₂ : (ds.erase other).erase top ⊆ ds :=
    List.Subset.trans List.erase_subset List.erase_subset
  have hsecond := foldl_top_second htop hmax hother hlt hsub₂
  -- The row of the first order is a row of the second one, and it has the same key.
  have hmem := (hrows _ hperm₁ top).mpr (mem_finalRows.mpr ⟨k, hfirst⟩)
  obtain ⟨k', hrow⟩ := mem_finalRows.mp ((hrows _ hperm₂ top).mp hmem)
  have hkey : k' = k := (key_of_foldl hrow).symm.trans (key_of_foldl hfirst)
  rw [hkey, hsecond] at hrow
  have hmac' : (other.upgrade top).mac = other.mac := by
    unfold Device.upgrade
    rw [hnil]
    rfl
  rw [← hmac', Option.some.inj hrow] at hmac
  exact hmac hnil

end Order

/-- The final rows do not depend on the order of arrival but for their hardware addresses, and these
do not depend on it either exactly when, for each key, the report of the highest version has a
hardware address or no report has one. -/
theorem rows_perm_iff (g v4 v6 : Bool) {ds : List Device} (h : ds.Pairwise (DistinctVersions g)) :
    (∀ ds', ds.Perm ds' → ∀ row, row ∈ (finalRows g v4 v6 ds).map Device.withoutMac ↔
      row ∈ (finalRows g v4 v6 ds').map Device.withoutMac) ∧
    ((∀ ds', ds.Perm ds' → ∀ row, row ∈ finalRows g v4 v6 ds ↔ row ∈ finalRows g v4 v6 ds') ↔
      MacDecided g v4 v6 ds) := by
  refine ⟨fun ds' hperm row => ?_, macDecided_of_rows h, fun hmac ds' hperm row => ?_⟩
  · rw [List.mem_map, List.mem_map]
    constructor
    · rintro ⟨r, hr, rfl⟩
      obtain ⟨k, hfold⟩ := mem_finalRows.mp hr
      obtain ⟨r', hfold'⟩ := exists_row_perm hperm hfold
      exact ⟨r', mem_finalRows.mpr ⟨k, hfold'⟩, (withoutMac_eq h hperm hfold hfold').symm⟩
    · rintro ⟨r', hr', rfl⟩
      obtain ⟨k, hfold'⟩ := mem_finalRows.mp hr'
      obtain ⟨r, hfold⟩ := exists_row_perm hperm.symm hfold'
      exact ⟨r, mem_finalRows.mpr ⟨k, hfold⟩, withoutMac_eq h hperm hfold hfold'⟩
  · rw [mem_finalRows, mem_finalRows]
    constructor
    · rintro ⟨k, hfold⟩
      exact ⟨k, foldl_eq_of_macDecided h hmac hperm hfold⟩
    · rintro ⟨k, hfold'⟩
      obtain ⟨r, hfold⟩ := exists_row_perm hperm.symm hfold'
      have heq := (foldl_eq_of_macDecided h hmac hperm hfold).symm.trans hfold'
      exact ⟨k, by rw [hfold, heq]⟩

/-- A report of one device. -/
def exampleAnswer (version : UInt32) (mac : List Char) : Device :=
  ⟨"Vivotek".toList, version, .v4 ⟨192, 168, 1, 9⟩, mac, "Camera".toList, "0002D1AABBCC".toList⟩

/-- Two reports of one device with different versions. -/
theorem pairwise_exampleAnswer (mac : List Char) :
    [exampleAnswer 1 mac, exampleAnswer 2 []].Pairwise (DistinctVersions false) := by
  refine List.pairwise_pair.mpr fun _ => ?_
  show (1 : UInt32) ≠ 2
  decide

/-- The row of two reports is there in the other order too. -/
theorem rows_perm_iff_pair :
    (exampleAnswer 2 []).withoutMac ∈
      (finalRows false true false [exampleAnswer 2 [], exampleAnswer 1 []]).map
        Device.withoutMac :=
  ((rows_perm_iff false true false (pairwise_exampleAnswer [])).1 _ (List.Perm.swap _ _ _) _).mp
    (by decide +kernel)

/-- A report of a higher version without a hardware address: the row has the address of the lower
one if and only if that arrived first. -/
theorem rows_order_dependent :
    let early := exampleAnswer 1 "00:02:D1:AA:BB:CC".toList
    let late := exampleAnswer 2 []
    [early, late].Pairwise (DistinctVersions false) ∧ [early, late].Perm [late, early] ∧
      ¬ ∀ row, row ∈ finalRows false true false [early, late] ↔
        row ∈ finalRows false true false [late, early] := by
  intro early late
  refine ⟨pairwise_exampleAnswer _, List.Perm.swap _ _ _, fun hrows => ?_⟩
  have hlate : late ∈ finalRows false true false [late, early] := by decide +kernel
  exact absurd ((hrows late).mpr hlate) (by decide +kernel)

/-! ## The streamed rows -/

/-- The ranks of the rows with a key, in the order in which they are printed. -/
def printedRanks (g : Bool) (k : List Char) (rows : List Device) : List ℕ :=
  (rows.filter fun d => d.key g = k).map Device.rank

/-- The ranks of some more rows. -/
theorem printedRanks_append (g : Bool) (k : List Char) (rows rows' : List Device) :
    printedRanks g k (rows ++ rows') = printedRanks g k rows ++ printedRanks g k rows' := by
  rw [printedRanks, List.filter_append, List.map_append]
  rfl

/-- The rank of one row. -/
theorem printedRanks_singleton (g : Bool) (k : List Char) (d : Device) :
    printedRanks g k [d] = if d.key g = k then [d.rank] else [] := by
  by_cases h : d.key g = k <;> simp [printedRanks, h]

/-- A run prints rows of ever higher ranks under a key, and the table has a row of the highest one.
The induction is on the last report. -/
theorem printedRanks_run (g : Bool) (rs : List Report) (k : List Char) :
    let t := (DeviceTable.new g).run rs
    (printedRanks g k t.2).Pairwise (· < ·) ∧
      ∀ n ∈ printedRanks g k t.2, ∃ row, t.1.entries.lookup k = some row ∧ n ≤ row.rank := by
  induction rs using List.reverseRecOn with
  | nil => exact ⟨List.Pairwise.nil, fun n hn => absurd hn List.not_mem_nil⟩
  | append_singleton rs r ih =>
    rw [DeviceTable.run_append, DeviceTable.run_singleton]
    have hmode : ((DeviceTable.new g).run rs).1.forceGeneric = g :=
      DeviceTable.run_forceGeneric (DeviceTable.new g) rs
    have hinv := (DeviceTable.Inv.new g).run rs
    generalize (DeviceTable.new g).run rs = t at ih hmode hinv
    obtain ⟨hsorted, hle⟩ := ih
    -- One more row, of a higher rank than those before, under its own key.
    have hrow : ∀ (entries : Entries) (row : Device),
        (∀ k', row.key g ≠ k' → entries.lookup k' = t.1.entries.lookup k') →
        entries.lookup (row.key g) = some row →
        (∀ old, t.1.entries.lookup (row.key g) = some old → old.rank < row.rank) →
        (printedRanks g k (t.2 ++ [row])).Pairwise (· < ·) ∧
          ∀ n ∈ printedRanks g k (t.2 ++ [row]),
            ∃ row, entries.lookup k = some row ∧ n ≤ row.rank := by
      intro entries row hother hnew hhigher
      rw [printedRanks_append, printedRanks_singleton]
      by_cases hkey : row.key g = k
      · subst hkey
        have hbelow : ∀ n ∈ printedRanks g (row.key g) t.2, n < row.rank := by
          intro n hn
          obtain ⟨old, hold, hn⟩ := hle n hn
          exact hn.trans_lt (hhigher old hold)
        rw [if_pos rfl]
        refine ⟨List.pairwise_append.mpr ⟨hsorted, List.pairwise_singleton _ _, ?_⟩, ?_⟩
        · intro n hn m hm
          rw [List.mem_singleton.mp hm]
          exact hbelow n hn
        · intro n hn
          refine ⟨row, hnew, ?_⟩
          rcases List.mem_append.mp hn with hn | hn
          · exact (hbelow n hn).le
          · exact (List.mem_singleton.mp hn).le
      · rw [if_neg hkey, List.append_nil, hother k hkey]
        exact ⟨hsorted, hle⟩
    obtain ⟨heq, -⟩ | ⟨-, hnew, heq⟩ | ⟨existing, -, hlookup, hversion, heq⟩ :=
      t.1.add_cases r.device r.enableIpv4 r.enableIpv6
    · rw [heq, Option.toList_none, List.append_nil]
      exact ⟨hsorted, hle⟩
    · rw [hmode] at hnew heq
      rw [heq]
      refine hrow _ r.device (fun k' hk' => ?_) ?_ fun old hold => ?_
      · exact AList.lookup_insert_ne (Ne.symm hk')
      · exact AList.lookup_insert _
      · rw [AList.lookup_eq_none.mpr hnew] at hold
        cases hold
    · have hkey := hinv.key_eq _ _ hlookup
      rw [hmode] at hlookup hkey heq
      have hupgrade := Device.key_upgrade hkey
      rw [heq]
      refine hrow _ (existing.upgrade r.device) (fun k' hk' => ?_) ?_ fun old hold => ?_
      · rw [hupgrade] at hk'
        exact AList.lookup_insert_ne (Ne.symm hk')
      · rw [hupgrade]
        exact AList.lookup_insert _
      · rw [hupgrade, hlookup] at hold
        cases hold
        exact (Device.version_gt_iff r.device existing).mp hversion

/-- A row that a run prints has the rank of one of the reports. -/
theorem exists_report_of_printed (t : DeviceTable) (rs : List Report) {row : Device}
    (h : row ∈ (t.run rs).2) : ∃ r ∈ rs, r.device.version = row.version := by
  induction rs generalizing t with
  | nil => cases h
  | cons r rs ih =>
    have hadd : row ∈ (t.add r.device r.enableIpv4 r.enableIpv6).2.toList ∨
        row ∈ ((t.add r.device r.enableIpv4 r.enableIpv6).1.run rs).2 := List.mem_append.mp h
    rcases hadd with h | h
    · refine ⟨r, List.mem_cons_self, ?_⟩
      obtain ⟨heq, -⟩ | ⟨-, -, heq⟩ | ⟨existing, -, -, -, heq⟩ :=
        t.add_cases r.device r.enableIpv4 r.enableIpv6
      · rw [heq] at h
        cases h
      · rw [heq] at h
        rw [List.mem_singleton.mp h]
      · rw [heq] at h
        rw [List.mem_singleton.mp h]
        rfl
    · obtain ⟨r', hr', hversion⟩ := ih _ h
      exact ⟨r', List.mem_cons_of_mem _ hr', hversion⟩

end Uscan
