import Mathlib.Data.List.TakeWhile
import Uscan.Net.Addr

/-!
# The text of an address determines it

Two addresses with the same text are the same (`IpAddr.text_inj`), so that a row of the table, which
stands under the text of its address, is about one address. An IPv4 text is split at its dots, and
an IPv6 text at its colons: the parts before the first empty part are the segments before the `::`,
and the other parts that are not empty the ones after it. The rest of the eight segments are zero,
since the `::` stands for a run of zeros (`zeroRuns_longest`). A mapped address is the only IPv6
text with a dot.

The text of an IPv4 address is also read as the address (`parseIpAddr_text`).
-/

namespace Uscan

/-! ## Digits -/

/-- A number has no dot and no colon. -/
theorem notMem_toDigits {b : ℕ} (hb : 1 < b) (hle : b ≤ 16) (n : ℕ) :
    '.' ∉ Nat.toDigits b n ∧ ':' ∉ Nat.toDigits b n := by
  have hall : ∀ d : Fin 16, '.' ≠ Nat.digitChar d ∧ ':' ≠ Nat.digitChar d := by decide
  constructor
  · intro hmem
    obtain ⟨d, hd, hc⟩ := exists_digit_of_mem_toDigits hb hmem
    exact (hall ⟨d, by omega⟩).1 hc
  · intro hmem
    obtain ⟨d, hd, hc⟩ := exists_digit_of_mem_toDigits hb hmem
    exact (hall ⟨d, by omega⟩).2 hc

/-- The digits of a number determine it. The induction is on the number, which loses its last
digit. -/
theorem toDigits_inj {b : ℕ} (hb : 1 < b) (hle : b ≤ 16) {m n : ℕ}
    (h : Nat.toDigits b m = Nat.toDigits b n) : m = n := by
  have hdigit {d e : ℕ} (hd : d < b) (he : e < b) (heq : d.digitChar = e.digitChar) : d = e :=
    digitChar_inj (hd.trans_le hle) (he.trans_le hle) heq
  induction m using Nat.strongRecOn generalizing n with
  | ind m ih =>
    rw [Nat.toDigits_eq_if hb, Nat.toDigits_eq_if hb (n := n)] at h
    split_ifs at h with hm hn hn
    · exact hdigit hm hn (List.singleton_inj.mp h)
    · -- One digit is not as many as the digits of a larger number.
      have hlength := congrArg List.length h
      have hpos := @Nat.length_toDigits_pos b (n / b)
      rw [List.length_append, List.length_singleton, List.length_singleton] at hlength
      omega
    · have hlength := congrArg List.length h
      have hpos := @Nat.length_toDigits_pos b (m / b)
      rw [List.length_append, List.length_singleton, List.length_singleton] at hlength
      omega
    · obtain ⟨hinit, hlast⟩ := List.append_inj' h rfl
      have hdiv := ih (m / b) (Nat.div_lt_self (by omega) hb) hinit
      have hmod := hdigit (Nat.mod_lt m (by omega)) (Nat.mod_lt n (by omega))
        (List.singleton_inj.mp hlast)
      rw [← Nat.div_add_mod m b, ← Nat.div_add_mod n b, hdiv, hmod]

/-! ## IPv4 -/

/-- The text of an IPv4 address has no colon. -/
theorem Ipv4Addr.colon_notMem_text (ip : Ipv4Addr) : ':' ∉ ip.text := by
  intro hmem
  rcases mem_of_mem_intercalate hmem with hsep | ⟨part, hpart, hcolon⟩
  · exact absurd hsep (by decide)
  · obtain ⟨o, -, rfl⟩ := List.mem_map.mp hpart
    exact (notMem_toDigits (by decide) (by decide) _).2 hcolon

/-- The text of an IPv4 address determines it. -/
theorem Ipv4Addr.text_inj {ip ip' : Ipv4Addr} (h : ip.text = ip'.text) : ip = ip' := by
  have hsplit (i : Ipv4Addr) :
      i.text.splitOn '.' = i.octets.map fun o => Nat.toDigits 10 o.toNat := by
    refine List.splitOn_intercalate '.' ?_ (by simp [Ipv4Addr.octets])
    intro part hpart
    obtain ⟨o, -, rfl⟩ := List.mem_map.mp hpart
    exact (notMem_toDigits (by decide) (by decide) _).1
  have hoctet {o o' : UInt8} (heq : Nat.toDigits 10 o.toNat = Nat.toDigits 10 o'.toNat) : o = o' :=
    UInt8.toNat_inj.mp (toDigits_inj (by decide) (by decide) heq)
  have heq := (hsplit ip).symm.trans ((congrArg (List.splitOn '.') h).trans (hsplit ip'))
  obtain ⟨a, b, c, d⟩ := ip
  obtain ⟨a', b', c', d'⟩ := ip'
  simp only [Ipv4Addr.octets, List.map_cons, List.map_nil, List.cons.injEq] at heq
  rw [hoctet heq.1, hoctet heq.2.1, hoctet heq.2.2.1, hoctet heq.2.2.2.1]

/-! ## IPv6 -/

namespace Ipv6Addr

/-- A segment in hexadecimal. -/
def hexText (s : UInt16) : List Char := Nat.toDigits 16 s.toNat

/-- A segment has no dot and no colon, and is not empty. -/
theorem hexText_spec (s : UInt16) : '.' ∉ hexText s ∧ ':' ∉ hexText s ∧ hexText s ≠ [] :=
  ⟨(notMem_toDigits (by decide) (by decide) _).1, (notMem_toDigits (by decide) (by decide) _).2,
    Nat.toDigits_ne_nil⟩

/-- The texts of segments determine them. -/
theorem map_hexText_inj {ss ss' : List UInt16} (h : ss.map hexText = ss'.map hexText) :
    ss = ss' := by
  refine List.map_injective_iff.mpr (fun s s' heq => ?_) h
  exact UInt16.toNat_inj.mp (toDigits_inj (by decide) (by decide) heq)

/-- All `l` segments from segment `s` on are zero. -/
def ZeroRun (ss : List UInt16) (r : ℕ × ℕ) : Prop :=
  ∀ j, r.1 ≤ j → j < r.1 + r.2 → ss[j]? = some 0

/-- A zero starts a run, or extends the one under way. -/
theorem ZeroRun.extend {ss : List UInt16} {r : ℕ × ℕ} {n : ℕ} (h : ZeroRun ss r)
    (hend : r.2 ≠ 0 → r.1 + r.2 = n) (hn : ss[n]? = some 0) :
    let current := if r.2 = 0 then (n, 1) else (r.1, r.2 + 1)
    ZeroRun ss current ∧ current.1 + current.2 = n + 1 := by
  intro current
  by_cases h0 : r.2 = 0
  · have hcurrent : current = (n, 1) := if_pos h0
    rw [hcurrent]
    refine ⟨fun j hj hlt => ?_, rfl⟩
    obtain rfl : j = n := Nat.le_antisymm (Nat.lt_succ_iff.mp hlt) hj
    exact hn
  · have hcurrent : current = (r.1, r.2 + 1) := if_neg h0
    have hstart := hend h0
    rw [hcurrent]
    refine ⟨fun j hj hlt => ?_, by dsimp only; omega⟩
    dsimp only at hj hlt
    by_cases hj' : j = n
    · rw [hj']
      exact hn
    · exact h j hj (by omega)

/-- The longest run that the scan finds is a run of zeros. The induction is along the segments that
are left; the run under way ends where they start. -/
theorem zeroRuns_longest (ss pre : List UInt16) (r : ZeroRuns)
    (hlongest : ZeroRun (pre ++ ss) r.longest) (hcurrent : ZeroRun (pre ++ ss) r.current)
    (hend : r.current.2 ≠ 0 → r.current.1 + r.current.2 = pre.length) :
    ZeroRun (pre ++ ss) (zeroRuns ss pre.length r).longest := by
  induction ss generalizing pre r with
  | nil => exact hlongest
  | cons s ss ih =>
    have hrest := fun r => ih (pre ++ [s]) r
    simp only [List.append_assoc, List.singleton_append, List.length_append,
      List.length_singleton] at hrest
    unfold zeroRuns
    by_cases hs : s = 0
    · -- The run under way goes on, and may be the longest one now.
      rw [if_pos hs]
      obtain ⟨hrun, hcurrentEnd⟩ := hcurrent.extend hend (by simp [hs])
      dsimp only at hrun hcurrentEnd ⊢
      generalize (if r.current.2 = 0 then (pre.length, 1) else (r.current.1, r.current.2 + 1)) =
        current at hrun hcurrentEnd ⊢
      refine hrest ⟨_, current⟩ ?_ hrun fun _ => hcurrentEnd
      dsimp only
      split_ifs
      · exact hrun
      · exact hlongest
    · -- Another segment ends it.
      rw [if_neg hs]
      refine hrest ⟨r.longest, (0, 0)⟩ hlongest (fun j hj hlt => ?_) fun h0 => absurd rfl h0
      exact absurd hlt (Nat.not_lt_zero j)

/-- Segments around a run of zeros. -/
theorem ZeroRun.eq_append {ss : List UInt16} {start len : ℕ} (h : ZeroRun ss (start, len))
    (hlen : 0 < len) : start + len ≤ ss.length ∧
      ss = ss.take start ++ List.replicate len 0 ++ ss.drop (start + len) := by
  have hle : start + len ≤ ss.length := by
    have hlast := h (start + len - 1) (by dsimp only; omega) (by dsimp only; omega)
    obtain ⟨hlt, -⟩ := List.getElem?_eq_some_iff.mp hlast
    omega
  have hmiddle : (ss.drop start).take len = List.replicate len 0 := by
    rw [List.eq_replicate_iff, List.length_take, List.length_drop]
    refine ⟨by omega, fun s hs => ?_⟩
    obtain ⟨j, hj, rfl⟩ := List.mem_take_iff_getElem.mp hs
    have hzero := h (start + j) (by dsimp only; omega) (by dsimp only; omega)
    rw [List.getElem_drop]
    exact (List.getElem?_eq_some_iff.mp hzero).2
  refine ⟨hle, ?_⟩
  rw [← hmiddle, List.append_assoc, ← List.drop_drop, List.take_append_drop,
    List.take_append_drop]

/-- The parts of a text between colons: those before the first empty part, and those after it that
are not empty. -/
def splitText (t : List Char) : List (List Char) × List (List Char) :=
  let parts := t.splitOn ':'
  (parts.takeWhile fun part => !part.isEmpty,
    (parts.dropWhile fun part => !part.isEmpty).filter fun part => !part.isEmpty)

/-- Segments are the parts of their text. -/
theorem splitOn_fmtSubslice {ss : List UInt16} (h : ss ≠ []) :
    (fmtSubslice ss).splitOn ':' = ss.map hexText := by
  refine List.splitOn_intercalate ':' ?_ (by simpa using h)
  intro part hpart
  obtain ⟨s, -, rfl⟩ := List.mem_map.mp hpart
  exact (hexText_spec s).2.1

/-- No part is empty. -/
theorem isEmpty_hexText (ss : List UInt16) : ∀ part ∈ ss.map hexText, (!part.isEmpty) = true := by
  intro part hpart
  obtain ⟨s, -, rfl⟩ := List.mem_map.mp hpart
  simp [(hexText_spec s).2.2]

/-- The parts that are not empty, also of no segments. -/
theorem filter_splitOn_fmtSubslice (ss : List UInt16) :
    ((fmtSubslice ss).splitOn ':').filter (fun part => !part.isEmpty) = ss.map hexText := by
  by_cases h : ss = []
  · subst h
    rfl
  · rw [splitOn_fmtSubslice h]
    exact List.filter_eq_self.mpr (isEmpty_hexText ss)

/-- A text without a `::` has all its segments before it. -/
theorem splitText_fmtSubslice {ss : List UInt16} (h : ss ≠ []) :
    splitText (fmtSubslice ss) = (ss.map hexText, []) := by
  unfold splitText
  have hall := isEmpty_hexText ss
  rw [splitOn_fmtSubslice h]
  dsimp only
  rw [List.takeWhile_eq_self_iff.mpr hall, List.dropWhile_eq_nil_iff.mpr hall, List.filter_nil]

/-- A text with a `::` has the segments on either side of it. -/
theorem splitText_compressed (xs ys : List UInt16) :
    splitText (fmtSubslice xs ++ "::".toList ++ fmtSubslice ys) =
      (xs.map hexText, ys.map hexText) := by
  have hparts : (fmtSubslice xs ++ "::".toList ++ fmtSubslice ys).splitOn ':' =
      (fmtSubslice xs).splitOn ':' ++ [] :: (fmtSubslice ys).splitOn ':' := by
    have htext : fmtSubslice xs ++ "::".toList ++ fmtSubslice ys =
        fmtSubslice xs ++ ':' :: ([] ++ ':' :: fmtSubslice ys) := by
      rw [List.append_assoc]
      rfl
    rw [htext, List.splitOn_append_cons_self, List.splitOn_append_cons_self, List.splitOn_nil,
      List.singleton_append]
  have hys := filter_splitOn_fmtSubslice ys
  unfold splitText
  rw [hparts]
  by_cases hxs : xs = []
  · subst hxs
    simpa [fmtSubslice] using hys
  · have hall := isEmpty_hexText xs
    rw [splitOn_fmtSubslice hxs]
    dsimp only
    rw [List.takeWhile_append_of_pos hall, List.dropWhile_append_of_pos hall]
    simpa using hys

/-- An address that is not a mapped one is read off the parts of its text. -/
theorem splitText_text {ip : Ipv6Addr} (h : ip.mappedOctets = none) :
    ∃ xs ys, splitText ip.text = (xs.map hexText, ys.map hexText) ∧
      ip.segments = xs ++ List.replicate (8 - xs.length - ys.length) 0 ++ ys := by
  have hlength := ip.length_eq
  have hne : ip.segments ≠ [] := by
    intro hnil
    rw [hnil] at hlength
    cases hlength
  have hplain : ∃ xs ys, splitText (fmtSubslice ip.segments) = (xs.map hexText, ys.map hexText) ∧
      ip.segments = xs ++ List.replicate (8 - xs.length - ys.length) 0 ++ ys :=
    ⟨ip.segments, [], splitText_fmtSubslice hne, by simp [hlength]⟩
  -- The run that is compressed is one of zeros, wherever it stands.
  have hrun := zeroRuns_longest ip.segments [] ⟨(0, 0), (0, 0)⟩
    (fun j _ hlt => absurd hlt (Nat.not_lt_zero j)) (fun j _ hlt => absurd hlt (Nat.not_lt_zero j))
    (fun h0 => absurd rfl h0)
  rw [List.nil_append, List.length_nil] at hrun
  unfold text
  rw [h]
  generalize (zeroRuns ip.segments 0 ⟨(0, 0), (0, 0)⟩).longest = longest at hrun
  obtain ⟨start, len⟩ := longest
  dsimp only
  split_ifs with hlen
  · obtain ⟨hle, heq⟩ := hrun.eq_append (by omega)
    refine ⟨_, _, splitText_compressed _ _, ?_⟩
    rw [List.length_take, List.length_drop, hlength, Nat.min_eq_left (by omega),
      show 8 - start - (8 - (start + len)) = len by omega]
    exact heq
  · exact hplain

/-- A mapped address has the octets in its last segments. -/
theorem segments_of_mappedOctets {ip : Ipv6Addr} {v4 : Ipv4Addr} (h : ip.mappedOctets = some v4) :
    ip.segments = [0, 0, 0, 0, 0, 0xFFFF, be16 v4.a v4.b, be16 v4.c v4.d] := by
  unfold mappedOctets at h
  split at h
  · rename_i hi lo hsegments
    cases h
    rw [be16_toBe16, be16_toBe16]
    exact hsegments
  · cases h

/-- Only the text of a mapped address has a dot. -/
theorem dot_mem_text_iff (ip : Ipv6Addr) : '.' ∈ ip.text ↔ ip.mappedOctets.isSome = true := by
  have hfmt (ss : List UInt16) : '.' ∉ fmtSubslice ss := by
    intro hmem
    rcases mem_of_mem_intercalate hmem with hsep | ⟨part, hpart, hdot⟩
    · exact absurd hsep (by decide)
    · obtain ⟨s, -, rfl⟩ := List.mem_map.mp hpart
      exact (hexText_spec s).1 hdot
  unfold text
  cases h : ip.mappedOctets with
  | some v4 =>
    refine iff_of_true (List.mem_append_right _ ?_) rfl
    simp [Ipv4Addr.text, Ipv4Addr.octets]
  | none =>
    refine iff_of_false ?_ (by simp)
    dsimp only
    split_ifs
    · simp only [List.mem_append]
      rintro ((hs | hs) | hs)
      · exact hfmt _ hs
      · exact absurd hs (by decide)
      · exact hfmt _ hs
    · exact hfmt _

/-- The text of an IPv6 address determines it. -/
theorem text_inj {ip ip' : Ipv6Addr} (h : ip.text = ip'.text) : ip = ip' := by
  have hdot : ip.mappedOctets.isSome = ip'.mappedOctets.isSome := by
    rw [Bool.eq_iff_iff, ← dot_mem_text_iff, ← dot_mem_text_iff, h]
  suffices hsegments : ip.segments = ip'.segments by
    cases ip
    cases ip'
    cases hsegments
    rfl
  cases hm : ip.mappedOctets with
  | some v4 =>
    -- Both are mapped, and the text after the prefix is that of the IPv4 address.
    obtain ⟨v4', hm'⟩ := Option.isSome_iff_exists.mp (by rw [← hdot, hm]; rfl)
    unfold text at h
    rw [hm, hm'] at h
    have heq := Ipv4Addr.text_inj (List.append_cancel_left h)
    rw [segments_of_mappedOctets hm, segments_of_mappedOctets hm', heq]
  | none =>
    -- Neither is: the segments are the ones around the `::`.
    have hm' : ip'.mappedOctets = none := by
      rw [← Option.not_isSome_iff_eq_none, ← hdot, hm]
      simp
    obtain ⟨xs, ys, htext, hsegments⟩ := splitText_text hm
    obtain ⟨xs', ys', htext', hsegments'⟩ := splitText_text hm'
    have heq := htext.symm.trans ((congrArg splitText h).trans htext')
    have hxs := map_hexText_inj (congrArg Prod.fst heq)
    have hys := map_hexText_inj (congrArg Prod.snd heq)
    rw [hsegments, hsegments', hxs, hys]

/-- The text of an IPv6 address has a colon. -/
theorem colon_mem_text (ip : Ipv6Addr) : ':' ∈ ip.text := by
  have hfmt : ':' ∈ fmtSubslice ip.segments := by
    have hlength := ip.length_eq
    match hsegments : ip.segments with
    | [] => simp [hsegments] at hlength
    | [_] => simp [hsegments] at hlength
    | _ :: _ :: _ => simp [fmtSubslice, List.intercalate_cons_cons]
  unfold text
  cases ip.mappedOctets with
  | some v4 => exact List.mem_append_left _ (by decide)
  | none =>
    dsimp only
    split_ifs
    · exact List.mem_append_left _ (List.mem_append_right _ (by decide))
    · exact hfmt

end Ipv6Addr

/-- The text of an address determines it. -/
theorem IpAddr.text_inj {ip ip' : IpAddr} (h : ip.text = ip'.text) : ip = ip' := by
  cases ip with
  | v4 ip =>
    cases ip' with
    | v4 ip' => rw [Ipv4Addr.text_inj h]
    | v6 ip' =>
      have hcolon : ':' ∈ ip.text := by
        rw [show ip.text = ip'.text from h]
        exact ip'.colon_mem_text
      exact absurd hcolon ip.colon_notMem_text
  | v6 ip =>
    cases ip' with
    | v4 ip' =>
      have hcolon : ':' ∈ ip'.text := by
        rw [show ip'.text = ip.text from h.symm]
        exact ip.colon_mem_text
      exact absurd hcolon ip'.colon_notMem_text
    | v6 ip' => rw [Ipv6Addr.text_inj h]

/-! ## Reading an IPv4 text -/

section Reading

open AddrParser

/-- Digits before something else are read as a number. -/
theorem readDigits_append {radix : ℕ} {ds : List Char} (h : ∀ c ∈ ds, (toDigit radix c).isSome)
    (rest : List Char) (value count : ℕ) :
    readDigits radix (ds ++ rest) value count =
      readDigits radix rest (readDigits radix ds value count).1 (count + ds.length) := by
  induction ds generalizing value count with
  | nil => rfl
  | cons c ds ih =>
    obtain ⟨d, hd⟩ := Option.isSome_iff_exists.mp (h c List.mem_cons_self)
    simp only [List.cons_append, readDigits, hd, List.length_cons]
    rw [ih fun c hc => h c (List.mem_cons_of_mem _ hc), Nat.add_right_comm, Nat.add_assoc]

/-- A decimal digit has its value. -/
theorem toDigit_digitChar {d : ℕ} (h : d < 10) : toDigit 10 d.digitChar = some d := by
  have hall : ∀ d : Fin 10, toDigit 10 (Nat.digitChar d) = some d.val := by decide
  exact hall ⟨d, h⟩

/-- A decimal number has decimal digits. -/
theorem isSome_toDigit {n : ℕ} {c : Char} (h : c ∈ Nat.toDigits 10 n) : (toDigit 10 c).isSome := by
  obtain ⟨d, hd, rfl⟩ := exists_digit_of_mem_toDigits (by decide) h
  rw [toDigit_digitChar hd]
  rfl

/-- A decimal number is read back. The induction is on the number, which loses its last digit. -/
theorem readDigits_toDigits (n : ℕ) : (readDigits 10 (Nat.toDigits 10 n) 0 0).1 = n := by
  induction n using Nat.strongRecOn with
  | ind n ih =>
    rw [Nat.toDigits_eq_if (by decide)]
    split_ifs with hn
    · simp only [readDigits, toDigit_digitChar hn]
      omega
    · rw [readDigits_append (fun c => isSome_toDigit), ih (n / 10) (by omega)]
      simp only [readDigits, toDigit_digitChar (Nat.mod_lt n (by decide : 0 < 10))]
      omega

/-- An octet has at most three digits, and no leading zero. -/
theorem toDigits_octet {n : ℕ} (h : n < 256) : (Nat.toDigits 10 n).length ≤ 3 ∧
    ((Nat.toDigits 10 n).head? = some '0' → (Nat.toDigits 10 n).length ≤ 1) := by
  have hlead : ∀ d : Fin 10, 0 < d → Nat.digitChar d ≠ '0' := by decide
  rw [Nat.toDigits_eq_if (by decide)]
  split_ifs with hn
  · simp
  · rw [Nat.toDigits_eq_if (by decide)]
    split_ifs with hn
    · simp [hlead ⟨n / 10, hn⟩ (by simp [Fin.lt_def]; omega)]
    · rw [Nat.toDigits_eq_if (by decide), if_pos (by omega)]
      simp [hlead ⟨n / 10 / 10, by omega⟩ (by simp [Fin.lt_def]; omega)]

/-- The number of an octet is read before a character that is no digit. -/
theorem readNumber_octet (o : UInt8) {rest : List Char}
    (h : ∀ c, rest.head? = some c → toDigit 10 c = none) :
    readNumber 10 3 255 false (Nat.toDigits 10 o.toNat ++ rest) = some (o.toNat, rest) := by
  obtain ⟨hlen, hzero⟩ := toDigits_octet o.toNat_lt
  have hpos : 0 < (Nat.toDigits 10 o.toNat).length := Nat.length_toDigits_pos
  have hread : readDigits 10 (Nat.toDigits 10 o.toNat ++ rest) 0 0 =
      (o.toNat, (Nat.toDigits 10 o.toNat).length, rest) := by
    rw [readDigits_append (fun c => isSome_toDigit), readDigits_toDigits, Nat.zero_add]
    cases rest with
    | nil => rfl
    | cons c rest => simp only [readDigits, h c rfl]
  have hhead : (Nat.toDigits 10 o.toNat ++ rest).head? = (Nat.toDigits 10 o.toNat).head? :=
    List.head?_append_of_ne_nil _ (List.ne_nil_of_length_pos hpos)
  have hle := o.toNat_lt
  simp only [readNumber, hread, hhead]
  rw [if_neg (by omega), if_neg (by omega), if_neg ?_, if_neg (by omega)]
  simp only [Bool.not_false, Bool.true_and, Bool.and_eq_true, beq_iff_eq, decide_eq_true_eq]
  rintro ⟨hz, hgt⟩
  exact absurd (hzero hz) (by omega)

/-- An octet of a text is read, after the separator if it is not the first one. -/
theorem readOctet_octet (o : UInt8) {rest : List Char}
    (h : ∀ c, rest.head? = some c → toDigit 10 c = none) :
    readOctet 0 (Nat.toDigits 10 o.toNat ++ rest) = some (o, rest) ∧
      ∀ i > 0, readOctet i ('.' :: (Nat.toDigits 10 o.toNat ++ rest)) = some (o, rest) := by
  constructor
  · rw [readOctet, readSeparator, if_neg (by decide), readNumber_octet o h]
    simp
  · intro i hi
    rw [readOctet, readSeparator, if_pos hi, readGivenChar, if_pos rfl, Option.bind_some,
      readNumber_octet o h]
    simp

/-- The text of an IPv4 address is read as the address. -/
theorem parseIpAddr_text (ip : Ipv4Addr) : parseIpAddr ip.text = some (.v4 ip) := by
  have hdot (rest : List Char) : ∀ c, ('.' :: rest).head? = some c → toDigit 10 c = none := by
    rintro c hc
    cases hc
    decide
  have htext : ip.text = Nat.toDigits 10 ip.a.toNat ++ '.' :: (Nat.toDigits 10 ip.b.toNat ++
      '.' :: (Nat.toDigits 10 ip.c.toNat ++ '.' :: (Nat.toDigits 10 ip.d.toNat ++ []))) := by
    simp [Ipv4Addr.text, Ipv4Addr.octets, List.intercalate]
  have hread : readIpv4Addr ip.text = some (ip, []) := by
    rw [htext, readIpv4Addr, (readOctet_octet ip.a (hdot _)).1]
    simp only [Option.bind_eq_bind, Option.bind_some]
    rw [(readOctet_octet ip.b (hdot _)).2 1 (by decide)]
    simp only [Option.bind_some]
    rw [(readOctet_octet ip.c (hdot _)).2 2 (by decide)]
    simp only [Option.bind_some]
    rw [(@readOctet_octet ip.d [] (by simp)).2 3 (by decide)]
    rfl
  simp [parseIpAddr, hread]

end Reading

end Uscan
