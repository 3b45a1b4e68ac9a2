import Uscan.Mdns.Wire

/-!
# The DNS parser is total

On every packet, `parseDns` returns a value or an error: no index or slice of it, or of the readers
below it, is out of range, and no addition overflows. Each reader has one lemma, which says that it
is safe from a cursor inside the packet and that the cursor it returns is inside the packet again
(`rd16_safe`, `readNameLoop_safe`, and so on); `parseDns_safe` composes them, and counts the
records. A name costs at most one redirection less than its budget (`followed_length_lt`), and the
redirection that would exceed it is the error of `read_name` (`readNameLoop_maxRedirects`).
-/

namespace Uscan.Mdns

open Res

variable {ε : Type}

/-- An index inside the packet is safe. -/
theorem index_safe {d : Slice} {i : ℕ} (h : i < d.len) :
    (index d.bytes i : Res ε UInt8).Safe fun _ => True := by
  rw [index_eq h]
  trivial

/-- The check of a cursor that moves a little past a position inside the packet passes. -/
theorem fits_safe (d : Slice) {a b : ℕ} (ha : a ≤ d.len) (hb : b ≤ 2 ^ 63) :
    (fitsUsize (a + b) : Res ε Unit).Safe fun _ => True := by
  rw [fitsUsize_slice d ha hb]
  trivial

/-- `rd16` is safe, and moves the cursor by two. -/
theorem rd16_safe (d : Slice) {pos : ℕ} (h : pos ≤ d.len) :
    (rd16 d pos).Safe fun r => r.2 = pos + 2 ∧ r.2 ≤ d.len := by
  refine (fits_safe d h (by decide)).bind fun _ _ => ?_
  split_ifs with hp
  · trivial
  · refine (index_safe (by omega)).bind fun _ _ => ?_
    refine (index_safe (by omega)).bind fun _ _ => ?_
    exact ⟨rfl, by dsimp only; omega⟩

/-- `rd32` is safe, and moves the cursor by four. -/
theorem rd32_safe (d : Slice) {pos : ℕ} (h : pos ≤ d.len) :
    (rd32 d pos).Safe fun r => r.2 = pos + 4 ∧ r.2 ≤ d.len := by
  refine (fits_safe d h (by decide)).bind fun _ _ => ?_
  split_ifs with hp
  · trivial
  · refine (index_safe (by omega)).bind fun _ _ => ?_
    refine (index_safe (by omega)).bind fun _ _ => ?_
    refine (index_safe (by omega)).bind fun _ _ => ?_
    refine (index_safe (by omega)).bind fun _ _ => ?_
    exact ⟨rfl, by dsimp only; omega⟩

/-! ## Names -/

/-- The loop of `read_name` is safe, and moves the cursor forward inside the packet. The induction
is that of the loop: along the labels, and down the budget at a pointer. -/
theorem readNameLoop_safe (d : Slice) (name : List Char) (p budget : ℕ) :
    (readNameLoop d name p budget).Safe fun r => p < r.2 ∧ r.2 ≤ d.len := by
  induction name, p, budget using readNameLoop.induct d with
  | case1 name p budget hp =>
    rw [readNameLoop, dif_pos hp]
    trivial
  | case2 name p budget hp ihPointer ihLabel =>
    have hlt : p < d.len := by omega
    rw [readNameLoop, dif_neg hp]
    refine (index_safe hlt).bind fun len _ => ?_
    refine (fits_safe d hlt.le (by decide)).bind fun _ _ => ?_
    by_cases h0 : len = 0
    · rw [if_pos h0]
      exact ⟨Nat.lt_succ_self p, hlt⟩
    rw [if_neg h0]
    by_cases hptr : isPointer len = true
    · -- A pointer: its target is read on a smaller budget.
      rw [if_pos hptr]
      cases hlo : d.bytes[p + 1]? with
      | none => trivial
      | some lo =>
        have hlo' : p + 1 < d.len := (List.getElem?_eq_some_iff.mp hlo).1
        refine (fits_safe d hlt.le (by decide)).bind fun _ _ => ?_
        split_ifs with ht hb
        · trivial
        · trivial
        · refine (ihPointer len lo hb).bind fun r _ => ?_
          exact ⟨by dsimp only; omega, by dsimp only; omega⟩
    · -- A label: the loop goes on after it, if it ends inside the packet.
      rw [if_neg hptr]
      split_ifs with hlabel
      · rw [subslice_eq (by omega) (by exact hlabel.2)]
        refine Safe.mono (ihLabel len hlabel _) fun r hr => ?_
        exact ⟨by omega, hr.2⟩
      · trivial

/-- `read_name` is safe at every position. -/
theorem readName_safe (d : Slice) (pos budget : ℕ) :
    (readName d pos budget).Safe fun r => pos < r.2 ∧ r.2 ≤ d.len :=
  readNameLoop_safe d [] pos budget

/-- Where `followed` goes from a position inside the packet. -/
theorem followed_eq (d : Slice) {p budget : ℕ} {len : UInt8} (h : d.bytes[p]? = some len) :
    followed d p budget =
      if len = 0 then []
      else if isPointer len then
        match d.bytes[p + 1]? with
        | none => []
        | some lo =>
          if pointerTarget len lo ≥ d.len then []
          else if budget - 1 = 0 then []
          else pointerTarget len lo :: followed d (pointerTarget len lo) (budget - 1)
      else if p + 1 + len.toNat ≤ d.len then followed d (p + 1 + len.toNat) budget
      else [] := by
  have hp : p < d.len := (List.getElem?_eq_some_iff.mp h).1
  rw [followed, dif_neg (by omega), h]
  rfl

/-- A name follows fewer pointers than its budget. -/
theorem followed_length_lt (d : Slice) (p budget : ℕ) (hb : 0 < budget) :
    (followed d p budget).length < budget := by
  induction p, budget using followed.induct d with
  | case1 p budget hp => rw [followed, dif_pos hp]; exact hb
  | case2 p budget hp h => rw [followed, dif_neg hp, h]; exact hb
  | case3 p budget hp h => rw [followed_eq d h, if_pos rfl]; exact hb
  | case4 p budget hp len h h0 hptr h1 => rw [followed_eq d h, if_neg h0, if_pos hptr, h1]; exact hb
  | case5 p budget hp len h h0 hptr lo h1 ht =>
    simp only [followed_eq d h, if_neg h0, if_pos hptr, h1, if_pos ht]
    exact hb
  | case6 p budget hp len h h0 hptr lo h1 ht hb1 =>
    simp only [followed_eq d h, if_neg h0, if_pos hptr, h1, if_neg ht, if_pos hb1]
    exact hb
  | case7 p budget hp len h h0 hptr lo h1 ht hb1 ih =>
    -- One pointer more than at its target, where the budget is one less.
    have hrest := ih (by omega)
    rw [followed_eq d h, if_neg h0, if_pos hptr, h1]
    simp only [if_neg ht, if_neg hb1, List.length_cons]
    omega
  | case8 p budget hp len h h0 hptr hl ih =>
    rw [followed_eq d h, if_neg h0, if_neg hptr, if_pos hl]
    exact ih hb
  | case9 p budget hp len h h0 hptr hl =>
    rw [followed_eq d h, if_neg h0, if_neg hptr, if_neg hl]
    exact hb

/-- The redirection that a budget does not cover is an error: where a larger budget would follow at
least as many pointers as there are in this one, `read_name` gives up. -/
theorem readNameLoop_maxRedirects (d : Slice) (name : List Char) (p budget : ℕ) (hb : 0 < budget)
    (more : ℕ) (h : budget ≤ (followed d p (budget + more)).length) :
    readNameLoop d name p budget = .err maxRedirects := by
  induction name, p, budget using readNameLoop.induct d with
  | case1 name p budget hp =>
    rw [followed, dif_pos hp, List.length_nil] at h
    omega
  | case2 name p budget hp ihPointer ihLabel =>
    have hlt : p < d.len := by omega
    have hlt' : p < d.bytes.length := hlt
    have hget : d.bytes[p]? = some d.bytes[p] := List.getElem?_eq_getElem hlt'
    rw [readNameLoop, dif_neg hp, index_eq hlt', ok_bind, fitsUsize_slice d hlt.le (by decide),
      ok_bind]
    -- The two definitions now branch on the same byte.
    rw [followed_eq d hget] at h
    generalize d.bytes[p] = len at h ⊢
    by_cases h0 : len = 0
    · rw [if_pos h0, List.length_nil] at h
      omega
    rw [if_neg h0] at h ⊢
    by_cases hptr : isPointer len = true
    · rw [if_pos hptr] at h ⊢
      cases hlo : d.bytes[p + 1]? with
      | none =>
        simp only [hlo, List.length_nil] at h
        omega
      | some lo =>
        simp only [hlo] at h ⊢
        rw [fitsUsize_slice d hlt.le (by decide), ok_bind]
        by_cases ht : pointerTarget len lo ≥ d.len
        · rw [if_pos ht, List.length_nil] at h
          omega
        rw [if_neg ht] at h ⊢
        by_cases hb1 : budget - 1 = 0
        · rw [dif_pos hb1]
        · -- The target is read on one less, and the larger budget has one less there too.
          have hmore : budget + more - 1 = budget - 1 + more := by omega
          rw [if_neg (by omega), hmore, List.length_cons] at h
          rw [dif_neg hb1, ihPointer len lo hb1 (by omega) (by omega), err_bind]
    · -- A label follows no pointer, so that the rest of the name follows as many.
      rw [if_neg hptr] at h ⊢
      by_cases hl : p + 1 + len.toNat ≤ d.len
      · rw [if_pos hl] at h
        have hd := d.length_le
        have hfit : p + 1 + len.toNat < 2 ^ 64 := by
          have := len.toNat_lt
          simp only [Slice.len, isizeMax] at hl hd
          omega
        rw [if_pos ⟨hfit, hl⟩, subslice_eq (by omega) hl, ok_bind]
        exact ihLabel len ⟨hfit, hl⟩ _ hb h
      · rw [if_neg hl, List.length_nil] at h
        omega

/-- `read_name` fails on every name that would take a sixteenth redirection. -/
theorem readName_maxRedirects (d : Slice) (pos more : ℕ)
    (h : 16 ≤ (followed d pos (16 + more)).length) : readName d pos 16 = .err maxRedirects :=
  readNameLoop_maxRedirects d [] pos 16 (by decide) more h

/-! ## Record data -/

/-- The inner loop of `parse_txt` is safe. -/
theorem txtString_safe (d : Slice) {len remaining pos : ℕ} {s : List Char} (hpos : pos ≤ d.len) :
    (txtString d len remaining pos s).Safe fun r => r.2.2 ≤ d.len := by
  induction len generalizing remaining pos s with
  | zero => exact hpos
  | succ len ih =>
    unfold txtString
    split_ifs with hr
    · cases hb : d.bytes[pos]? with
      | none => exact hpos
      | some b =>
        have hlt : pos < d.len := (List.getElem?_eq_some_iff.mp hb).1
        exact (fits_safe d hlt.le (by decide)).bind fun _ _ => ih hlt
    · exact hpos

/-- The outer loop of `parse_txt` is safe. -/
theorem parseTxtLoop_safe (d : Slice) {remaining pos : ℕ} {out : List (List Char)}
    (hpos : pos ≤ d.len) : (parseTxtLoop d remaining pos out).Safe fun _ => True := by
  induction remaining using Nat.strong_induction_on generalizing pos out with
  | _ remaining ih =>
    rw [parseTxtLoop_eq]
    by_cases hr : remaining > 1
    · rw [if_pos hr]
      refine (fits_safe d hpos (by decide)).bind fun _ _ => ?_
      by_cases hlt : pos + 1 < d.len
      · rw [if_pos hlt]
        refine (index_safe (by omega)).bind fun len _ => ?_
        -- The string uses up what remains of the record, which the induction is on.
        refine (txtString_safe d hlt.le).with_eq.bind ?_
        rintro ⟨s, remaining', pos'⟩ ⟨hstring, hpos'⟩
        have hle := txtString_remaining_le d hstring
        exact ih remaining' (by omega) hpos'
      · rw [if_neg hlt]
        trivial
    · rw [if_neg hr]
      trivial

/-- `parse_srv` is safe on data inside the packet. -/
theorem parseSrv_safe (d : Slice) {pos rdlen : ℕ} (hend : pos + rdlen ≤ d.len) :
    (parseSrv d pos rdlen).Safe fun _ => True := by
  unfold parseSrv
  split_ifs with h
  · trivial
  · refine (fits_safe d (by omega) (by decide)).bind fun _ _ => ?_
    refine (index_safe (by omega)).bind fun _ _ => ?_
    refine (index_safe (by omega)).bind fun _ _ => ?_
    refine (index_safe (by omega)).bind fun _ _ => ?_
    refine (index_safe (by omega)).bind fun _ _ => ?_
    refine (index_safe (by omega)).bind fun _ _ => ?_
    refine (index_safe (by omega)).bind fun _ _ => ?_
    -- An error of the name is no error of the record.
    have hname := (readName_safe d (pos + 6) 16).ne_panicked
    cases hn : readName d (pos + 6) 16 with
    | ok r => trivial
    | err e => trivial
    | panicked => exact absurd hn hname

/-- `ipv4_from` is safe where four bytes remain. -/
theorem ipv4From_safe (d : Slice) {pos : ℕ} (h : pos + 4 ≤ d.len) :
    (ipv4From d pos).Safe fun _ => True := by
  refine (index_safe (by omega)).bind fun _ _ => ?_
  refine (index_safe (by omega)).bind fun _ _ => ?_
  refine (index_safe (by omega)).bind fun _ _ => ?_
  exact (index_safe (by omega)).bind fun _ _ => safe_ok.mpr trivial

/-- The match on the type of a record is safe on data inside the packet. -/
theorem readRdata_safe (d : Slice) (rrtype : UInt16) {pos rdlen : ℕ} (hend : pos + rdlen ≤ d.len) :
    (readRdata d rrtype pos rdlen).Safe fun _ => True := by
  unfold readRdata
  by_cases h1 : rrtype = 1
  · -- A: four bytes are read only when there are four.
    rw [if_pos h1]
    dsimp only
    split_ifs with hlen
    · trivial
    · exact (ipv4From_safe d (by omega)).bind fun _ _ => safe_ok.mpr trivial
  rw [if_neg h1]
  by_cases h28 : rrtype = 28
  · -- AAAA: sixteen likewise, so that the conversion to an array succeeds.
    rw [if_pos h28]
    dsimp only
    split_ifs with hlen
    · trivial
    · have hlen : rdlen = 16 := not_not.mp hlen
      have hend' : pos + 16 ≤ d.bytes.length := by rw [← hlen]; exact hend
      rw [subslice_eq (by omega) hend', ok_bind, Ipv6Addr.ofSlice, dif_pos (by simp; omega)]
      trivial
  rw [if_neg h28]
  by_cases h12 : rrtype = 12
  · rw [if_pos h12]
    -- PTR: a name, which may leave the record but not the packet.
    exact (readName_safe d pos 16).bind fun _ _ => safe_ok.mpr trivial
  rw [if_neg h12]
  by_cases h16 : rrtype = 16
  · rw [if_pos h16]
    -- TXT: the loops stop at the end of the packet too.
    exact (parseTxtLoop_safe d (by omega)).bind fun _ _ => safe_ok.mpr trivial
  rw [if_neg h16]
  by_cases h33 : rrtype = 33
  · rw [if_pos h33]
    exact (parseSrv_safe d hend).bind fun _ _ => safe_ok.mpr trivial
  · rw [if_neg h33]
    trivial

/-! ## Sections -/

/-- The question loop is safe. -/
theorem skipQuestions_safe (d : Slice) {q pos : ℕ} (hpos : pos ≤ d.len) :
    (skipQuestions d q pos).Safe fun r => r ≤ d.len := by
  induction q generalizing pos with
  | zero => exact hpos
  | succ q ih =>
    unfold skipQuestions
    split_ifs with h
    · trivial
    · refine (readName_safe d pos 16).bind fun r hr => ?_
      refine (rd16_safe d hr.2).bind fun r hr => ?_
      refine (rd16_safe d hr.2).bind fun r hr => ?_
      exact ih hr.2

/-- The fields before the data of a record are read safely, and the data are inside the packet. -/
theorem readRecordHead_safe (d : Slice) (pos : ℕ) :
    (readRecordHead d pos).Safe fun r => r.2.2.2 + r.2.2.1 ≤ d.len := by
  refine (readName_safe d pos 16).bind fun name hname => ?_
  refine (rd16_safe d hname.2).bind fun r hr => ?_
  refine (rd16_safe d hr.2).bind fun r hr => ?_
  refine (rd32_safe d hr.2).bind fun r hr => ?_
  refine (rd16_safe d hr.2).bind fun r hr => ?_
  have hle : r.1.toNat ≤ 2 ^ 63 := by
    have := r.1.toNat_lt
    omega
  refine (fits_safe d hr.2 hle).bind fun _ _ => ?_
  split_ifs with h
  · trivial
  · exact Nat.le_of_not_lt h

/-- The record loop is safe, and adds at most one record at a time. -/
theorem parseRecords_safe (d : Slice) {n pos : ℕ} {answers : List MdnsAnswer} :
    (parseRecords d n pos answers).Safe fun r => r.length ≤ answers.length + n := by
  induction n generalizing pos answers with
  | zero => exact le_rfl
  | succ n ih =>
    unfold parseRecords
    split_ifs with h
    · exact Nat.le_add_right _ _
    · refine (readRecordHead_safe d pos).bind fun r hr => ?_
      refine (readRdata_safe d _ hr).bind fun rdata _ => ?_
      cases rdata with
      | none => exact Nat.le_add_right _ _
      | some rdata =>
        -- The bound of the rest, from one record more.
        refine ih.mono fun answers' h' => ?_
        rw [List.length_append, List.length_singleton] at h'
        omega

/-- The 16-bit field of the header at offset `i`. -/
def headerField (d : Slice) (i : ℕ) : ℕ :=
  (be16 (d.bytes.getD i 0) (d.bytes.getD (i + 1) 0)).toNat

/-- Inside the packet, `rd16` reads the field. -/
theorem rd16_headerField (d : Slice) {i : ℕ} (h : i + 2 ≤ d.len) :
    ∃ x : UInt16, rd16 d i = .ok (x, i + 2) ∧ x.toNat = headerField d i := by
  have h0 : i < d.bytes.length := by
    unfold Slice.len at h
    omega
  have h1 : i + 1 < d.bytes.length := by
    unfold Slice.len at h
    omega
  refine ⟨be16 d.bytes[i] d.bytes[i + 1], ?_, ?_⟩
  · rw [rd16, fitsUsize_slice d (by omega) (by decide), ok_bind, if_neg (by omega), index_eq h0,
      ok_bind, index_eq h1, ok_bind, pure_eq]
  · simp only [headerField, List.getD_eq_getElem?_getD, List.getElem?_eq_getElem h0,
      List.getElem?_eq_getElem h1, Option.getD_some]

/-- `parse_dns` is safe, and returns no more records than the header counts. -/
theorem parseDns_safe (d : Slice) :
    (parseDns d).Safe fun r =>
      r.answers.length ≤ headerField d 6 + headerField d 8 + headerField d 10 := by
  unfold parseDns
  by_cases hlen : d.len ≤ 12
  · rw [if_pos hlen]
    trivial
  rw [if_neg hlen]
  obtain ⟨qd, hqd, _⟩ := rd16_headerField d (i := 4) (by omega)
  obtain ⟨an, han, hanField⟩ := rd16_headerField d (i := 6) (by omega)
  obtain ⟨ns, hns, hnsField⟩ := rd16_headerField d (i := 8) (by omega)
  obtain ⟨ar, har, harField⟩ := rd16_headerField d (i := 10) (by omega)
  simp only [hqd, han, hns, har, ok_bind]
  refine (skipQuestions_safe d (by omega)).bind fun pos _ => ?_
  -- Three 16-bit counts do not overflow a `usize`.
  have hsum : an.toNat + ns.toNat + ar.toNat < 2 ^ 64 := by
    have := an.toNat_lt
    have := ns.toNat_lt
    have := ar.toNat_lt
    omega
  rw [fitsUsize_eq hsum, ok_bind]
  refine (parseRecords_safe d).bind fun answers h => ?_
  rw [List.length_nil, hanField, hnsField, harField, Nat.zero_add] at h
  exact h

/-- The parser of the broker is total. `parse_dns` returns an error, or a value with at most as many
records as the three counts of the header announce; `read_name` returns from every position of the
packet, after at most fifteen pointers, and a name that would take a sixteenth is an error. -/
theorem parseDns_total (d : Slice) :
    ((∃ r, parseDns d = .ok r ∧
        r.answers.length ≤ headerField d 6 + headerField d 8 + headerField d 10) ∨
      ∃ e, parseDns d = .err e) ∧
    ∀ pos, readName d pos 16 ≠ .panicked ∧ (followed d pos 16).length ≤ 15 ∧
      ∀ more, 16 ≤ (followed d pos (16 + more)).length → readName d pos 16 = .err maxRedirects := by
  refine ⟨(parseDns_safe d).ok_or_err, fun pos => ⟨(readName_safe d pos 16).ne_panicked, ?_, ?_⟩⟩
  · exact Nat.le_of_lt_succ (followed_length_lt d pos 16 (by decide))
  · exact fun more h => readName_maxRedirects d pos more h

end Uscan.Mdns
