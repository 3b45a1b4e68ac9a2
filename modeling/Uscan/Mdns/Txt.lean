import Uscan.Lib.Traced
import Uscan.Mdns.RoundTrip

/-!
# The strings of a text record

`parse_txt` counts the bytes of the record that remain and the bytes of the string that remain, and
moves the cursor along. What remains of the record and the cursor add up to the end of the record
throughout (`txtString_end`), so that no byte at or after the end is read, whatever lengths the
record gives (`parseTxtLoopTraced_within`). The outer loop stops when one byte remains: on the
encoding of a list of strings that is the length byte of an empty last string, and nothing else
(`parseTxtLoop_stands`).
-/

namespace Uscan.Mdns

open Res

variable {d : Slice}

/-- The inner loop of `parse_txt`, with the indices that it reads. -/
def txtStringTraced (d : Slice) :
    ℕ → ℕ → ℕ → List Char → Traced ℕ Error (List Char × ℕ × ℕ)
  | 0, remaining, pos, s => pure (s, remaining, pos)
  | len + 1, remaining, pos, s =>
    if remaining > 0 ∧ pos < d.len then do
      let b ← Traced.index d.bytes pos
      Traced.lift (fitsUsize (pos + 1))
      txtStringTraced d len (remaining - 1) (pos + 1) (s ++ [latin1 b])
    else pure (s, remaining, pos)

/-- Without the indices, it is the inner loop. -/
theorem txtStringTraced_result (d : Slice) (len remaining pos : ℕ) (s : List Char) :
    (txtStringTraced d len remaining pos s).result = txtString d len remaining pos s := by
  induction len generalizing remaining pos s with
  | zero => rfl
  | succ len ih =>
    unfold txtStringTraced txtString
    by_cases hrem : remaining > 0
    · by_cases hpos : pos < d.len
      · have hbyte : d.bytes[pos]? = some d.bytes[pos] := List.getElem?_eq_getElem hpos
        rw [if_pos ⟨hrem, hpos⟩, if_pos hrem, hbyte, Traced.result_bind, Traced.result_index,
          index_of_getElem? hbyte, ok_bind, Traced.result_bind, Traced.result_lift]
        simp only [ih]
      · have hbyte : d.bytes[pos]? = none := List.getElem?_eq_none (not_lt.mp hpos)
        rw [if_neg (fun h => hpos h.2), if_pos hrem, hbyte]
        rfl
    · rw [if_neg (fun h => hrem h.1), if_neg hrem]
      rfl

/-- The inner loop takes from what remains what it moves the cursor by. -/
theorem txtString_end {len remaining pos remaining' pos' : ℕ} {s s' : List Char}
    (h : txtString d len remaining pos s = .ok (s', remaining', pos')) :
    pos' + remaining' = pos + remaining := by
  induction len generalizing remaining pos s with
  | zero =>
    cases h
    rfl
  | succ len ih =>
    unfold txtString at h
    split_ifs at h with hrem
    · split at h
      · cases h
        rfl
      · obtain ⟨_, _, h⟩ := bind_eq_ok.mp h
        have := ih h
        omega
    · cases h
      rfl

/-- The inner loop reads before the end of the record. -/
theorem txtStringTraced_within (len remaining pos : ℕ) (s : List Char) :
    (txtStringTraced d len remaining pos s).All (· < pos + remaining) := by
  induction len generalizing remaining pos s with
  | zero => exact .pure _
  | succ len ih =>
    unfold txtStringTraced
    split_ifs with h
    · have hend : pos + 1 + (remaining - 1) = pos + remaining := by omega
      have hrest := ih (remaining - 1) (pos + 1)
      rw [hend] at hrest
      exact (Traced.All.index d.bytes (by omega)).bind fun b _ =>
        (Traced.All.lift _).bind fun _ _ => hrest (s ++ [latin1 b])
    · exact .pure _

/-- The outer loop of `parse_txt`, with the indices that it reads. -/
def parseTxtLoopTraced (d : Slice) (remaining pos : ℕ) (out : List (List Char)) :
    Traced ℕ Error (List (List Char) × ℕ) :=
  if _hr : remaining > 1 then do
    Traced.lift (fitsUsize (pos + 1))
    if pos + 1 < d.len then
      let len ← Traced.index d.bytes pos
      match _hs : txtStringTraced d len.toNat (remaining - 1) (pos + 1) [] with
      | ⟨trace, .ok (s, remaining', pos')⟩ =>
        (⟨trace, .ok ()⟩ : Traced ℕ Error Unit) >>= fun _ =>
          parseTxtLoopTraced d remaining' pos' (out ++ [s])
      | ⟨trace, .err e⟩ => ⟨trace, .err e⟩
      | ⟨trace, .panicked⟩ => ⟨trace, .panicked⟩
    else pure (out, pos)
  else pure (out, pos)
termination_by remaining
decreasing_by
  have hresult := txtStringTraced_result d len.toNat (remaining - 1) (pos + 1) []
  rw [_hs] at hresult
  have := txtString_remaining_le d hresult.symm
  omega

/-- `parse_txt`, with the indices that it reads. -/
def parseTxtTraced (d : Slice) (pos rdlen : ℕ) : Traced ℕ Error (List (List Char) × ℕ) :=
  parseTxtLoopTraced d rdlen pos []

/-- One round of the outer loop: a string, and then the strings left. -/
theorem parseTxtLoopTraced_eq (d : Slice) (remaining pos : ℕ) (out : List (List Char)) :
    parseTxtLoopTraced d remaining pos out =
      if remaining > 1 then do
        Traced.lift (fitsUsize (pos + 1))
        if pos + 1 < d.len then
          let len ← Traced.index d.bytes pos
          let r ← txtStringTraced d len.toNat (remaining - 1) (pos + 1) []
          parseTxtLoopTraced d r.2.1 r.2.2 (out ++ [r.1])
        else pure (out, pos)
      else pure (out, pos) := by
  rw [parseTxtLoopTraced]
  split_ifs with hrem hpos
  · congr 1
    funext _
    congr 1
    funext len
    split <;>
      · rename_i h
        rw [h]
        rfl
  · rfl
  · rfl

/-- Without the indices, it is the outer loop. The induction is on what remains of the record. -/
theorem parseTxtLoopTraced_result (d : Slice) (remaining pos : ℕ) (out : List (List Char)) :
    (parseTxtLoopTraced d remaining pos out).result = parseTxtLoop d remaining pos out := by
  induction remaining using Nat.strong_induction_on generalizing pos out with
  | _ remaining ih =>
    rw [parseTxtLoopTraced_eq, parseTxtLoop_eq]
    split_ifs with hrem hpos
    · rw [Traced.result_bind, Traced.result_lift]
      congr 1
      funext _
      rw [Traced.result_bind, Traced.result_index]
      congr 1
      funext len
      rw [Traced.result_bind, txtStringTraced_result]
      cases hstring : txtString d len.toNat (remaining - 1) (pos + 1) [] with
      | ok r =>
        obtain ⟨s, remaining', pos'⟩ := r
        have hle := txtString_remaining_le d hstring
        exact ih remaining' (by omega) pos' (out ++ [s])
      | err e => rfl
      | panicked => rfl
    · rw [Traced.result_bind]
      rfl
    · rfl

/-- The outer loop reads before the end of the record. -/
theorem parseTxtLoopTraced_within (d : Slice) (remaining pos : ℕ) (out : List (List Char)) :
    (parseTxtLoopTraced d remaining pos out).All (· < pos + remaining) := by
  induction remaining using Nat.strong_induction_on generalizing pos out with
  | _ remaining ih =>
    rw [parseTxtLoopTraced_eq]
    split_ifs with hrem hpos
    · refine (Traced.All.lift _).bind fun _ _ => ?_
      refine (Traced.All.index d.bytes (by omega)).bind fun len _ => ?_
      have hend : pos + 1 + (remaining - 1) = pos + remaining := by omega
      have hwithin := txtStringTraced_within (d := d) len.toNat (remaining - 1) (pos + 1) []
      rw [hend] at hwithin
      refine hwithin.bind ?_
      rintro ⟨s, remaining', pos'⟩ hstring
      rw [txtStringTraced_result] at hstring
      have hle := txtString_remaining_le d hstring
      -- The end of the record is the same for the strings left.
      have hend' := txtString_end hstring
      have hrest := ih remaining' (by omega) pos' (out ++ [s])
      rwa [hend', hend] at hrest
    · exact (Traced.All.lift _).bind fun _ _ => .pure _
    · exact .pure _

/-- `parse_txt` returns the strings that stand in the packet, without an empty last one, and leaves
the cursor in the record; and it reads no byte at or after the end of the record, whatever stands
there. -/
theorem parseTxt_exact (d : Slice) (pos : ℕ) :
    (∀ ss : List (List UInt8), (∀ s ∈ ss, s.length ≤ 255) → Stands d.bytes pos (encodeStrings ss) →
      ∃ pos', parseTxt d pos (encodeStrings ss).length =
          .ok ((dropEmptyLast ss).map (·.map latin1), pos') ∧
        pos' ≤ pos + (encodeStrings ss).length) ∧
      ∀ rdlen, (parseTxtTraced d pos rdlen).result = parseTxt d pos rdlen ∧
        ∀ i ∈ (parseTxtTraced d pos rdlen).trace, i < pos + rdlen := by
  constructor
  · intro ss hss h
    obtain ⟨pos', hloop, hle⟩ := parseTxtLoop_stands hss h []
    exact ⟨pos', hloop, hle⟩
  · intro rdlen
    exact ⟨parseTxtLoopTraced_result d rdlen pos [], parseTxtLoopTraced_within d rdlen pos []⟩

end Uscan.Mdns
