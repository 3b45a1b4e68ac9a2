import Uscan.Mdns.Encoding

/-!
# Compressed names

What `read_name` makes of a name in every compressed form. `Compressed` says how the labels of a
name stand in a packet, with the number of pointers on the way and how many of these come after the
last label. The loop pushes a dot before it looks whether the rest of the name is empty, so that a
name whose labels are followed by a pointer to the root ends in a dot
(`Compressed.readNameLoop_eq`). Every other compressed form reads as the plain one, and one with
more than 15 pointers is an error (`readName_compressed_iff`).
-/

namespace Uscan.Mdns

open Res

/-- The name with labels `ls` stands in the packet at `p`, and its field ends at `stop`. On the way
there are `n` compression pointers, `m` of them after the last label. -/
inductive Compressed (d : Slice) : List (List UInt8) → ℕ → ℕ → ℕ → ℕ → Prop where
  /-- The end of a name. -/
  | root {p : ℕ} (h : Stands d.bytes p [0]) : Compressed d [] 0 0 p (p + 1)
  /-- A label and the rest of the name. -/
  | label {l : List UInt8} {ls : List (List UInt8)} {n m p stop : ℕ} (hne : l ≠ [])
      (hle : l.length ≤ 63) (h : Stands d.bytes p (encodeLabel l))
      (rest : Compressed d ls n m (p + 1 + l.length) stop) : Compressed d (l :: ls) n m p stop
  /-- A pointer to the rest of the name. -/
  | pointer {hi lo : UInt8} {ls : List (List UInt8)} {n m p stop : ℕ} (hptr : isPointer hi = true)
      (h : Stands d.bytes p [hi, lo]) (rest : Compressed d ls n m (pointerTarget hi lo) stop) :
      Compressed d ls (n + 1) (if ls = [] then m + 1 else m) p (p + 2)

variable {d : Slice} {ls : List (List UInt8)} {n m p stop : ℕ}

/-- A compressed name is a name in the packet. -/
theorem Compressed.nameAt (h : Compressed d ls n m p stop) : NameAt d ls n p stop := by
  induction h with
  | root h => exact .root h
  | label hne hle h _ ih => exact .label hne hle h ih
  | pointer hptr h _ ih => exact .pointer hptr h ih

/-- Every name in the packet has some number of pointers after its last label. -/
theorem NameAt.compressed (h : NameAt d ls n p stop) : ∃ m, Compressed d ls n m p stop := by
  induction h with
  | root h => exact ⟨0, .root h⟩
  | label hne hle h _ ih =>
    obtain ⟨m, hm⟩ := ih
    exact ⟨m, .label hne hle h hm⟩
  | pointer hptr h _ ih =>
    obtain ⟨m, hm⟩ := ih
    exact ⟨_, .pointer hptr h hm⟩

/-- A pointer to a label does not come after the last one. -/
theorem Compressed.before {hi lo : UInt8} (hls : ls ≠ []) (hptr : isPointer hi = true)
    (h : Stands d.bytes p [hi, lo]) (rest : Compressed d ls n m (pointerTarget hi lo) stop) :
    Compressed d ls (n + 1) m p (p + 2) := by
  have hname := Compressed.pointer hptr h rest
  rwa [if_neg hls] at hname

/-- Of the pointers on the way, some come after the last label. -/
theorem Compressed.le (h : Compressed d ls n m p stop) : m ≤ n := by
  induction h with
  | root h => exact le_rfl
  | label _ _ _ _ ih => exact ih
  | pointer _ _ _ ih => split_ifs <;> omega

/-- No label of a name is empty. -/
theorem NameAt.label_ne (h : NameAt d ls n p stop) : ∀ l ∈ ls, l ≠ [] := by
  induction h with
  | root h => exact fun l hl => absurd hl List.not_mem_nil
  | label hne _ _ _ ih =>
    intro l hl
    rcases List.mem_cons.mp hl with rfl | hl
    · exact hne
    · exact ih l hl
  | pointer _ _ _ ih => exact ih

/-- Bytes decode to some text. -/
theorem fromUtf8Lossy_ne_nil {bs : List UInt8} (h : bs ≠ []) : fromUtf8Lossy bs ≠ [] := by
  cases bs with
  | nil => exact absurd rfl h
  | cons b t => simp [fromUtf8Lossy]

/-- A text in front of a name that is not empty stays in front of its labels. -/
theorem append_joinOnto (x : List Char) {y : List Char} (hy : y ≠ []) (ls : List (List UInt8)) :
    x ++ joinOnto y ls = joinOnto (x ++ y) ls := by
  induction ls generalizing y with
  | nil => rfl
  | cons l ls ih =>
    have hdot : pushDot (x ++ y) = x ++ pushDot y := by
      rw [pushDot, pushDot, if_neg (by simp [hy]), if_neg (by simpa using hy), List.append_assoc]
    rw [joinOnto, joinOnto, hdot, List.append_assoc]
    refine ih ?_
    simp [pushDot, hy]

/-- Labels read on their own and put after a name are the labels put onto the name. -/
theorem pushDot_append_joinOnto (name : List Char) {l : List UInt8} (hl : l ≠ [])
    (ls : List (List UInt8)) :
    pushDot name ++ joinOnto [] (l :: ls) = joinOnto name (l :: ls) := by
  calc pushDot name ++ joinOnto [] (l :: ls)
      = pushDot name ++ joinOnto (fromUtf8Lossy l) ls := rfl
    _ = joinOnto (pushDot name ++ fromUtf8Lossy l) ls :=
        append_joinOnto _ (fromUtf8Lossy_ne_nil hl) ls
    _ = joinOnto name (l :: ls) := rfl

/-- The dot that the loop leaves behind, when it has text and pointers lead to the root. -/
def strayDot (m : ℕ) (name : List Char) (ls : List (List UInt8)) : List Char :=
  if m = 0 ∨ name = [] ∧ ls = [] then [] else ['.']

/-- The loop of `read_name` on a compressed name whose pointers the budget covers: its labels, and
the dot that pointers after the last one leave behind. The induction is on how the name stands in
the packet. -/
theorem Compressed.readNameLoop_eq (h : Compressed d ls n m p stop) (name : List Char)
    (budget : ℕ) (hb : n < budget) :
    readNameLoop d name p budget = .ok (joinOnto name ls ++ strayDot m name ls, stop) := by
  induction h generalizing name budget with
  | root h =>
    rw [readNameLoop_root h, joinOnto, strayDot, if_pos (.inl rfl), List.append_nil]
  | @label l ls n m p stop hne hle h rest ih =>
    -- The name is not empty from here on, so that a dot can be left behind.
    have hne' : pushDot name ++ fromUtf8Lossy l ≠ [] := by simp [fromUtf8Lossy_ne_nil hne]
    rw [readNameLoop_label hne hle h, ih _ _ hb, joinOnto]
    simp [strayDot, hne']
  | @pointer hi lo ls n m p stop hptr h rest ih =>
    rw [readNameLoop_pointer hptr h rest.nameAt.start_lt, if_neg (by omega),
      ih [] (budget - 1) (by omega), ok_bind]
    show Res.ok (pushDot name ++ (joinOnto [] ls ++ strayDot m [] ls), p + 2) = _
    congr 2
    cases ls with
    | nil =>
      -- Only the root is left: the dot is all that the pointer adds.
      have hrest : joinOnto [] [] ++ strayDot m [] [] = [] := by simp [joinOnto, strayDot]
      rw [hrest, List.append_nil, if_pos rfl, joinOnto]
      cases name <;> simp [pushDot, strayDot]
    | cons l ls =>
      -- The dot stands before the next label.
      have hl := rest.nameAt.label_ne l List.mem_cons_self
      rw [← List.append_assoc, pushDot_append_joinOnto name hl, if_neg (by simp)]
      simp [strayDot]

/-- A compressed name with at most 15 pointers, none of them between its last label and the root,
reads as its labels. -/
theorem Compressed.readName_eq (h : Compressed d ls n m p stop) (hn : n ≤ 15)
    (hm : ls = [] ∨ m = 0) : readName d p 16 = .ok (joinOnto [] ls, stop) := by
  have hdot : strayDot m [] ls = [] := by
    rcases hm with hls | hm
    · exact if_pos (.inr ⟨rfl, hls⟩)
    · exact if_pos (.inl hm)
  rw [readName, h.readNameLoop_eq [] 16 (by omega), hdot, List.append_nil]

/-- The loop of `read_name` on a name with as many pointers as the budget, or more. -/
theorem NameAt.readNameLoop_err (h : NameAt d ls n p stop) (name : List Char) {budget : ℕ}
    (hpos : 0 < budget) (hb : budget ≤ n) :
    readNameLoop d name p budget = .err maxRedirects := by
  induction h generalizing name budget with
  | root h => exact absurd hb (by omega)
  | label hne hle h rest ih => exact (readNameLoop_label hne hle h name budget).trans (ih _ hpos hb)
  | pointer hptr h rest ih =>
    rw [readNameLoop_pointer hptr h rest.start_lt]
    by_cases h0 : budget - 1 = 0
    · rw [if_pos h0]
    · rw [if_neg h0, ih [] (by omega) (by omega)]
      rfl

/-- A compressed name reads as the plain encoding of its labels does, and one with more than 15
pointers is an error, exactly when no pointer stands between its last label and the root. -/
theorem readName_compressed_iff (h : Compressed d ls n m p stop) :
    (∀ d₀ p₀ stop₀, NameAt d₀ ls 0 p₀ stop₀ →
      readName d₀ p₀ 16 = .ok (joinOnto [] ls, stop₀)) ∧
    (((n ≤ 15 → readName d p 16 = .ok (joinOnto [] ls, stop)) ∧
      (16 ≤ n → ∃ e, readName d p 16 = .err e)) ↔ (n ≤ 15 → ls = [] ∨ m = 0)) := by
  refine ⟨fun d₀ p₀ stop₀ h₀ => ?_, ?_, ?_⟩
  · obtain ⟨s, hs, hjoin⟩ := h₀.readNameLoop_eq [] 16 (by decide)
    rw [readName, hs, hjoin rfl]
  · -- The name that is read has no dot at its end.
    rintro ⟨hok, -⟩ hn
    have hread := hok hn
    rw [readName, h.readNameLoop_eq [] 16 (by omega)] at hread
    have hdot : strayDot m [] ls = [] := by simpa using hread
    unfold strayDot at hdot
    split_ifs at hdot with hcond
    -- Either condition leaves no dot.
    rcases hcond with hm | ⟨-, hls⟩
    · exact .inr hm
    · exact .inl hls
  · intro hcond
    exact ⟨fun hn => h.readName_eq hn (hcond hn),
      fun hn => ⟨maxRedirects, h.nameAt.readNameLoop_err [] (by decide) hn⟩⟩

/-- The label `a`, a pointer, and the root that it points to. -/
def exampleRooted : Slice := ⟨[1, 97, 0xC0, 4, 0], by decide⟩

/-- How the label and the root stand in the packet. -/
theorem compressed_exampleRooted : Compressed exampleRooted [[97]] 1 1 0 4 := by
  have hroot : Stands exampleRooted.bytes (pointerTarget 0xC0 4) [0] := ⟨[], rfl⟩
  exact .label (by decide) (by decide) ⟨[0xC0, 4, 0], rfl⟩
    (.pointer (by decide) ⟨[0], rfl⟩ (.root hroot))

/-- The name with a pointer to the root has a dot that its plain encoding does not have. -/
theorem readName_exampleRooted :
    Compressed exampleRooted [[97]] 1 1 0 4 ∧ readName exampleRooted 0 16 = .ok (['a', '.'], 4) ∧
      joinOnto [] [[97]] = ['a'] := by
  refine ⟨compressed_exampleRooted, ?_, by decide +kernel⟩
  rw [readName, compressed_exampleRooted.readNameLoop_eq [] 16 (by decide)]
  decide +kernel

/-- Two labels, the second one behind a pointer: the name reads as its plain encoding. -/
theorem readName_compressed_two :
    readName ⟨[1, 98, 0, 1, 97, 0xC0, 0], by decide⟩ 3 16 = .ok (joinOnto [] [[97], [98]], 7) := by
  have hname : Compressed ⟨[1, 98, 0, 1, 97, 0xC0, 0], by decide⟩ [[97], [98]] 1 0 3 7 :=
    .label (by decide) (by decide) ⟨[0xC0, 0], rfl⟩
      (.pointer (by decide) ⟨[], rfl⟩ (.label (by decide) (by decide) ⟨[0, 1, 97, 0xC0, 0], rfl⟩
        (.root ⟨[1, 97, 0xC0, 0], rfl⟩)))
  exact ((readName_compressed_iff hname).2.mpr fun _ => .inr rfl).1 (by decide)

end Uscan.Mdns
