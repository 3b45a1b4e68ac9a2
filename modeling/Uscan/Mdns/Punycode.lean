import Mathlib.Tactic.Linarith
import Mathlib.Tactic.Ring
import Uscan.Lib.Bootstring

/-!
# Punycode

The encoder that a label with other than ASCII characters is sent through, and the decoder of the
standard, which is Bootstring with the parameters `rfc3492`. The encoder counts in machine integers
that saturate; it terminates on every text, because each of its rounds writes the least code point
that it has not written yet (`punycodeLoop_rule`).

That the decoder inverts it is a simulation. Between two steps of the encoder, what it has written
so far leads the decoder to a state whose output is just the code points that the encoder has dealt
with, and the place of the next insertion is as far from the decoder's place as the encoder's
`delta` says (`Tracks`). A round of the encoder visits the code points in order, and each visit
keeps the relation. A text of 3800 code points or fewer keeps every sum below `2^32`.
-/

namespace Uscan.Mdns

/-! ## The encoder -/

/-- `u32::MAX`. -/
def u32Max : ℕ := 2 ^ 32 - 1

/-- `u32::saturating_add`. -/
def saturatingAdd (a b : ℕ) : ℕ := min (a + b) u32Max

/-- `u32::saturating_mul`. -/
def saturatingMul (a b : ℕ) : ℕ := min (a * b) u32Max

/-- `digit_char`. -/
def digitChar (d : ℕ) : Char := Char.ofNat ((d + 22 + 75 * (if d < 26 then 1 else 0)) % 256)

/-- The loop of `adapt`. -/
def adaptLoop (d k : ℕ) : ℕ :=
  if d > (36 - 1) * 26 / 2 then adaptLoop (d / (36 - 1)) (k + 36)
  else k + (36 - 1 + 1) * d / (d + 38)
termination_by d
decreasing_by exact Nat.div_lt_self (by omega) (by decide)

/-- `adapt`. -/
def adapt (delta numpoints : ℕ) (firsttime : Bool) : ℕ :=
  let delta := if firsttime then delta / 700 else delta / 2
  let delta := delta + delta / max numpoints 1
  adaptLoop delta 0

/-- The threshold of the inner loop of `punycode`. -/
def threshold (bias k : ℕ) : ℕ :=
  if k ≤ bias then 1 else if k ≥ bias + 26 then 26 else k - bias

theorem threshold_pos (bias k : ℕ) : 1 ≤ threshold bias k := by
  unfold threshold
  split_ifs <;> omega

theorem threshold_le (bias k : ℕ) : threshold bias k ≤ 26 := by
  unfold threshold
  split_ifs <;> omega

/-- The inner loop of `punycode`: the digits of `q`, from position `k` on. -/
def digits (bias q k : ℕ) : List Char :=
  let t := threshold bias k
  if q < t then [digitChar q]
  else digitChar (t + (q - t) % (36 - t)) :: digits bias ((q - t) / (36 - t)) (k + 36)
termination_by q
decreasing_by
  have hpos := threshold_pos bias k
  exact (Nat.div_le_self _ _).trans_lt (Nat.sub_lt (by omega) hpos)

/-- What `punycode` keeps while it runs. -/
structure PunyState where
  /-- The code so far. -/
  output : List Char
  /-- The least code point that is not written yet. -/
  n : ℕ
  /-- How far the next insertion is from the last one. -/
  delta : ℕ
  /-- The bias. -/
  bias : ℕ
  /-- The number of code points that are written. -/
  h : ℕ

/-- The body of the loop over the code points. -/
def PunyState.visit (b : ℕ) (s : PunyState) (cp : ℕ) : PunyState :=
  let s := if cp < s.n then { s with delta := saturatingAdd s.delta 1 } else s
  if cp = s.n then
    { s with
      output := s.output ++ digits s.bias s.delta 36
      bias := adapt s.delta (s.h + 1) (s.h = b)
      delta := 0
      h := s.h + 1 }
  else s

/-- The start of a round: the next code point to write is the least one from `n` on. -/
def PunyState.advance (input : List ℕ) (s : PunyState) : PunyState :=
  let m := (input.filter (s.n ≤ ·)).min?.getD 0x110000
  { s with delta := saturatingAdd s.delta (saturatingMul (m - s.n) (s.h + 1)), n := m }

/-- The end of a round. -/
def PunyState.close (s : PunyState) : PunyState :=
  { s with delta := saturatingAdd s.delta 1, n := saturatingAdd s.n 1 }

/-- The body of the outer loop of `punycode`. -/
def PunyState.round (input : List ℕ) (b : ℕ) (s : PunyState) : PunyState :=
  (input.foldl (visit b) (s.advance input)).close

/-- The outer loop of `punycode`, for at most `fuel` rounds. -/
def punycodeLoop (input : List ℕ) (b len : ℕ) : ℕ → PunyState → Option (List Char)
  | 0, _ => none
  | fuel + 1, s =>
    if s.h < len then punycodeLoop input b len fuel (s.round input b) else some s.output

/-- The basic code points of a text. -/
def basics (s : List Char) : List Char := s.filter (·.toNat < 0x80)

/-- The number of basic code points, as a `u32`. -/
def basicCount (s : List Char) : ℕ := (basics s).length % 2 ^ 32

/-- The state before the first round. -/
def punycodeStart (s : List Char) : PunyState where
  output := basics s ++ if basicCount s > 0 then ['-'] else []
  n := 0x80
  delta := 0
  bias := 72
  h := basicCount s

/-- `punycode`, for at most `fuel` rounds. -/
def punycodeRun (fuel : ℕ) (s : List Char) : Option (List Char) :=
  punycodeLoop (s.map Char.toNat) (basicCount s) (s.length % 2 ^ 32) fuel (punycodeStart s)

/-! ## Rounds -/

section Rounds

variable {input : List ℕ} {b : ℕ} {s : PunyState}

/-- The visit of a code point below that of the round counts a place for it. -/
theorem PunyState.visit_lt {cp : ℕ} (h : cp < s.n) :
    s.visit b cp = { s with delta := saturatingAdd s.delta 1 } := by
  rw [visit, if_pos h]
  exact if_neg h.ne

/-- The visit of the code point of the round writes it. -/
theorem PunyState.visit_self :
    s.visit b s.n =
      { s with
        output := s.output ++ digits s.bias s.delta 36
        bias := adapt s.delta (s.h + 1) (s.h = b)
        delta := 0
        h := s.h + 1 } := by
  rw [visit, if_neg (Nat.lt_irrefl s.n)]
  exact if_pos rfl

/-- The visit of a code point above that of the round does nothing. -/
theorem PunyState.visit_gt {cp : ℕ} (h : s.n < cp) : s.visit b cp = s := by
  rw [visit, if_neg h.not_gt]
  exact if_neg h.ne'

/-- A visit leaves the code point of the round as it is. -/
@[simp] theorem PunyState.visit_n (cp : ℕ) : (s.visit b cp).n = s.n := by
  rcases Nat.lt_trichotomy cp s.n with h | rfl | h
  · rw [visit_lt h]
  · rw [visit_self]
  · rw [visit_gt h]

/-- The visits of a round leave its code point as it is. -/
theorem PunyState.foldl_visit_n (cps : List ℕ) (s : PunyState) :
    (cps.foldl (visit b) s).n = s.n := by
  induction cps generalizing s with
  | nil => rfl
  | cons cp cps ih => rw [List.foldl_cons, ih, visit_n]

/-- The visits of a round count how often its code point occurs. -/
theorem PunyState.foldl_visit_h (cps : List ℕ) (s : PunyState) :
    (cps.foldl (visit b) s).h = s.h + cps.count s.n := by
  induction cps generalizing s with
  | nil => rfl
  | cons cp cps ih =>
    rw [List.foldl_cons, ih, visit_n]
    rcases Nat.lt_trichotomy cp s.n with h | rfl | h
    · rw [visit_lt h, List.count_cons_of_ne h.ne]
    · rw [visit_self, List.count_cons_self, Nat.add_assoc, Nat.add_comm 1]
    · rw [visit_gt h, List.count_cons_of_ne h.ne']

/-- The number of code points that are not written yet. -/
def PunyState.left (input : List ℕ) (s : PunyState) : ℕ := input.countP (s.n ≤ ·)

/-- While a code point is left, a round is about the least of them. -/
theorem PunyState.advance_spec (h : 0 < s.left input) :
    ∃ m ∈ input, s.n ≤ m ∧ (∀ cp ∈ input, s.n ≤ cp → m ≤ cp) ∧
      s.advance input =
        { s with delta := saturatingAdd s.delta (saturatingMul (m - s.n) (s.h + 1)), n := m } := by
  obtain ⟨cp, hcp, hle⟩ := List.countP_pos_iff.mp h
  have hmem : cp ∈ input.filter (s.n ≤ ·) := List.mem_filter.mpr ⟨hcp, hle⟩
  obtain ⟨m, hm⟩ := Option.isSome_iff_exists.mp (List.isSome_min?_of_mem hmem)
  obtain ⟨hmin, hall⟩ := List.min?_eq_some_iff.mp hm
  obtain ⟨hin, hnm⟩ := List.mem_filter.mp hmin
  refine ⟨m, hin, of_decide_eq_true hnm, ?_, ?_⟩
  · intro cp hcp hle
    exact hall cp (List.mem_filter.mpr ⟨hcp, decide_eq_true hle⟩)
  · rw [advance, hm, Option.getD_some]

/-- The numbers from `n` on are those equal to the least of them and those above it. -/
theorem countP_least {l : List ℕ} {n m : ℕ} (hnm : n ≤ m) (hmin : ∀ cp ∈ l, n ≤ cp → m ≤ cp) :
    l.countP (n ≤ ·) = l.count m + l.countP (m + 1 ≤ ·) := by
  induction l with
  | nil => rfl
  | cons cp l ih =>
    have hcp := hmin cp List.mem_cons_self
    have hrest := ih fun cp' hcp' => hmin cp' (List.mem_cons_of_mem _ hcp')
    simp only [List.countP_cons, List.count_cons, decide_eq_true_eq, beq_iff_eq]
    split_ifs <;> omega

/-- The code points of a text. -/
def ScalarValues (input : List ℕ) : Prop := ∀ cp ∈ input, cp < 0x110000

/-- A round writes the code points that it is about and leaves the others: what is written and what
is left are as many as before, and fewer are left. -/
theorem PunyState.round_left (hinput : ScalarValues input) (h : 0 < s.left input) :
    (s.round input b).h + (s.round input b).left input = s.h + s.left input ∧
      (s.round input b).left input < s.left input := by
  obtain ⟨m, hm, hnm, hmin, hadv⟩ := PunyState.advance_spec h
  have hn : (s.round input b).n = m + 1 := by
    have hlt := hinput m hm
    simp only [round, close, foldl_visit_n, hadv, saturatingAdd, u32Max]
    omega
  have hh : (s.round input b).h = s.h + input.count m := by
    simp only [round, close, foldl_visit_h, hadv]
  have hleft := countP_least hnm hmin
  have hpos := List.count_pos_iff.mpr hm
  simp only [left, hn, hh]
  omega

/-- The rule of the outer loop. It ends, whatever the text is: while it goes on, a code point is
left, since as many are written and left together as the text has, up to a multiple of `2^32`. What
each round preserves holds at the end. -/
theorem punycodeLoop_rule (hinput : ScalarValues input) {len fuel : ℕ} {I : PunyState → Prop}
    (hstep : ∀ s, I s → 0 < s.left input → I (s.round input b)) (hI : I s)
    (hlen : len ≤ s.h + s.left input) (hfuel : s.left input < fuel) :
    ∃ s', I s' ∧ len ≤ s'.h ∧ punycodeLoop input b len fuel s = some s'.output := by
  induction fuel generalizing s with
  | zero => omega
  | succ fuel ih =>
    rw [punycodeLoop]
    split_ifs with hlt
    · have hleft : 0 < s.left input := by omega
      obtain ⟨hsum, hless⟩ := PunyState.round_left (b := b) hinput hleft
      exact ih (hstep s hI hleft) (by omega) (by omega)
    · exact ⟨s, hI, Nat.not_lt.mp hlt, rfl⟩

/-- More rounds than it takes change nothing. -/
theorem punycodeLoop_mono {len fuel fuel' : ℕ} {out : List Char}
    (h : punycodeLoop input b len fuel s = some out) (hle : fuel ≤ fuel') :
    punycodeLoop input b len fuel' s = some out := by
  induction fuel generalizing s fuel' with
  | zero => cases h
  | succ fuel ih =>
    cases fuel' with
    | zero => omega
    | succ fuel' =>
      rw [punycodeLoop] at h
      rw [punycodeLoop]
      split_ifs at h ⊢
      · exact ih h (by omega)
      · exact h

end Rounds

/-- The code points of a text are scalar values. -/
theorem scalarValues_map (s : List Char) : ScalarValues (s.map Char.toNat) := by
  intro cp hcp
  obtain ⟨c, -, rfl⟩ := List.mem_map.mp hcp
  rcases c.valid with h | ⟨-, h⟩
  · exact h.trans (by decide)
  · exact h

/-- The basic code points and the others are all there are. -/
theorem basics_length_add (s : List Char) :
    (basics s).length + (punycodeStart s).left (s.map Char.toNat) = s.length := by
  have hall := List.length_eq_countP_add_countP (fun c : Char => decide (c.toNat < 0x80)) (l := s)
  rw [PunyState.left, List.countP_map, basics, ← List.countP_eq_length_filter, hall]
  congr 2
  funext c
  simp [punycodeStart]

/-- The rule of `punycode`: it returns after a round for each code point at most. -/
theorem punycodeRun_rule (s : List Char) {I : PunyState → Prop} (hstart : I (punycodeStart s))
    (hstep : ∀ t, I t → 0 < t.left (s.map Char.toNat) →
      I (t.round (s.map Char.toNat) (basicCount s)))
    {fuel : ℕ} (hfuel : s.length < fuel) :
    ∃ t, I t ∧ s.length % 2 ^ 32 ≤ t.h ∧ punycodeRun fuel s = some t.output := by
  have hadd := basics_length_add s
  refine punycodeLoop_rule (scalarValues_map s) hstep hstart ?_ (by omega)
  show s.length % 2 ^ 32 ≤ (basics s).length % 2 ^ 32 + (punycodeStart s).left (s.map Char.toNat)
  omega

/-- `punycode` returns on every text. -/
theorem punycodeRun_isSome (s : List Char) : (punycodeRun (s.length + 1) s).isSome := by
  obtain ⟨t, -, -, ht⟩ := punycodeRun_rule s (I := fun _ => True) trivial (fun _ _ _ => trivial)
    (Nat.lt_succ_self _)
  rw [ht, Option.isSome_some]

/-- `punycode`. -/
def punycode (s : List Char) : List Char :=
  (punycodeRun (s.length + 1) s).get (punycodeRun_isSome s)

/-- `punycode` returns after a round for each code point at most. -/
theorem punycodeRun_eq {s : List Char} {fuel : ℕ} (h : s.length < fuel) :
    punycodeRun fuel s = some (punycode s) :=
  punycodeLoop_mono (Option.some_get (punycodeRun_isSome s)).symm h

/-- The rule of `punycode`, about what it returns. -/
theorem punycode_rule (s : List Char) {I : PunyState → Prop} (hstart : I (punycodeStart s))
    (hstep : ∀ t, I t → 0 < t.left (s.map Char.toNat) →
      I (t.round (s.map Char.toNat) (basicCount s))) :
    ∃ t, I t ∧ s.length % 2 ^ 32 ≤ t.h ∧ t.output = punycode s := by
  obtain ⟨t, hI, hlen, ht⟩ := punycodeRun_rule s hstart hstep (Nat.lt_succ_self _)
  rw [punycodeRun_eq (Nat.lt_succ_self _)] at ht
  exact ⟨t, hI, hlen, (Option.some.inj ht).symm⟩

/-! ## The symbols of a code -/

section Symbols

variable {P : Char → Prop}

/-- The digits of an integer are digits. -/
theorem forall_mem_digits (hdigit : ∀ d < 36, P (digitChar d)) (bias q k : ℕ) :
    ∀ c ∈ digits bias q k, P c := by
  induction q using Nat.strongRecOn generalizing k with
  | ind q ih =>
    have hpos := threshold_pos bias k
    have hle := threshold_le bias k
    rw [digits]
    split_ifs with hlt
    · exact List.forall_mem_singleton.mpr (hdigit q (by omega))
    · have hmod := Nat.mod_lt (q - threshold bias k) (y := 36 - threshold bias k) (by omega)
      have hless : (q - threshold bias k) / (36 - threshold bias k) < q :=
        (Nat.div_le_self _ _).trans_lt (Nat.sub_lt (by omega) hpos)
      exact List.forall_mem_cons.mpr ⟨hdigit _ (by omega), ih _ hless (k + 36)⟩

/-- The visits of a round write digits. -/
theorem PunyState.forall_mem_foldl_visit (hdigit : ∀ d < 36, P (digitChar d)) (b : ℕ)
    (cps : List ℕ) {s : PunyState} (h : ∀ c ∈ s.output, P c) :
    ∀ c ∈ (cps.foldl (visit b) s).output, P c := by
  induction cps generalizing s with
  | nil => exact h
  | cons cp cps ih =>
    rw [List.foldl_cons]
    apply ih
    rcases Nat.lt_trichotomy cp s.n with hcp | rfl | hcp
    · rwa [visit_lt hcp]
    · rw [visit_self]
      exact List.forall_mem_append.mpr ⟨h, forall_mem_digits hdigit _ _ _⟩
    · rwa [visit_gt hcp]

/-- A code has basic code points of the text, digits, and the delimiter. -/
theorem forall_mem_punycode {s : List Char} (hbasic : ∀ c ∈ basics s, P c) (hdelim : P '-')
    (hdigit : ∀ d < 36, P (digitChar d)) : ∀ c ∈ punycode s, P c := by
  obtain ⟨t, ht, -, hout⟩ := punycode_rule s (I := fun t => ∀ c ∈ t.output, P c) (by
      refine List.forall_mem_append.mpr ⟨hbasic, ?_⟩
      split_ifs
      · exact List.forall_mem_singleton.mpr hdelim
      · exact fun c hc => absurd hc List.not_mem_nil)
    (fun t ht _ => PunyState.forall_mem_foldl_visit (s := t.advance _) hdigit _ _ ht)
  rwa [← hout]

end Symbols

/-! ## The decoder -/

/-- The value of a symbol as a digit. Capital letters count as small ones. -/
def digitValue (c : Char) : Option ℕ :=
  if 'a' ≤ c ∧ c ≤ 'z' then some (c.toNat - 97)
  else if 'A' ≤ c ∧ c ≤ 'Z' then some (c.toNat - 65)
  else if '0' ≤ c ∧ c ≤ '9' then some (c.toNat - 48 + 26)
  else none

/-- Punycode as an instance of Bootstring. -/
def rfc3492 : Bootstring where
  base := 36
  tmin := 1
  tmax := 26
  skew := 38
  damp := 700
  initialBias := 72
  initialN := 128
  delimiter := '-'
  value := digitValue
  tmin_pos := by decide
  tmin_le := by decide
  tmax_lt := by decide
  tmin_succ_lt := by decide
  value_delimiter := by decide

/-- A digit is read as its value. -/
theorem digitValue_digitChar {d : ℕ} (h : d < 36) : rfc3492.value (digitChar d) = some d := by
  have hall : ∀ d < 36, digitValue (digitChar d) = some d := by decide
  exact hall d h

/-- The thresholds of the encoder are those of the decoder. -/
theorem threshold_eq (bias k : ℕ) : rfc3492.threshold bias k = threshold bias k := by
  show (if k ≤ bias + 1 then 1 else if bias + 26 ≤ k then 26 else k - bias) = threshold bias k
  unfold threshold
  split_ifs <;> omega

/-- A digit of the encoder that is not the last one. -/
theorem writes_digit {bias q k t : ℕ} {x : List Char} (ht : threshold bias k = t) (hpos : 1 ≤ t)
    (hle : t ≤ 26) (hq : t ≤ q) (hx : rfc3492.Writes bias (k + 36) ((q - t) / (36 - t)) x) :
    rfc3492.Writes bias k q (digitChar (t + (q - t) % (36 - t)) :: x) := by
  have hmod := Nat.mod_lt (q - t) (y := 36 - t) (by omega)
  have hdigit := digitValue_digitChar (d := t + (q - t) % (36 - t)) (by omega)
  have hthreshold : rfc3492.threshold bias k = t := by rw [threshold_eq, ht]
  -- What is left of `q` counts as often as the digit can go on.
  have hsum : t + (q - t) % (36 - t) + (q - t) / (36 - t) * (36 - t) = q := by
    have hdiv := Nat.mod_add_div' (q - t) (36 - t)
    omega
  have hwrites := Bootstring.Writes.digit hdigit (hthreshold ▸ Nat.le_add_right _ _) hx
  rw [hthreshold] at hwrites
  change rfc3492.Writes bias k (t + (q - t) % (36 - t) + (q - t) / (36 - t) * (36 - t)) _ at hwrites
  rwa [hsum] at hwrites

/-- The digits of the encoder write the integer. -/
theorem writes_digits (bias q k : ℕ) : rfc3492.Writes bias k q (digits bias q k) := by
  induction q using Nat.strongRecOn generalizing k with
  | ind q ih =>
    have hpos := threshold_pos bias k
    have hle := threshold_le bias k
    rw [digits]
    split_ifs with hlt
    · exact .last (digitValue_digitChar (by omega)) (by rwa [threshold_eq])
    · have hless : (q - threshold bias k) / (36 - threshold bias k) < q :=
        (Nat.div_le_self _ _).trans_lt (Nat.sub_lt (by omega) hpos)
      exact writes_digit rfl hpos hle (Nat.not_lt.mp hlt) (ih _ hless (k + 36))

/-- The loop of `adapt` is that of the decoder. -/
theorem adaptLoop_eq (d k : ℕ) : rfc3492.adaptLoop d k = adaptLoop d k := by
  induction d using Nat.strongRecOn generalizing k with
  | ind d ih =>
    rw [Bootstring.adaptLoop, adaptLoop]
    show (if 455 < d then rfc3492.adaptLoop (d / 35) (k + 36) else k + 36 * d / (d + 38)) =
      if 455 < d then adaptLoop (d / 35) (k + 36) else k + 36 * d / (d + 38)
    split_ifs with h
    · exact ih _ (Nat.div_lt_self (by omega) (by decide)) _
    · rfl

/-- The encoder adapts the bias as the decoder does. -/
theorem adapt_eq {numpoints : ℕ} (h : 0 < numpoints) (delta : ℕ) (firsttime : Bool) :
    rfc3492.adapt delta numpoints firsttime = adapt delta numpoints firsttime := by
  rw [Bootstring.adapt, adapt, adaptLoop_eq, Nat.max_eq_left h]
  rfl

/-! ## The simulation -/

/-- The state that the decoder starts in, after the basic code points. -/
def decodeStart (s : List Char) : Bootstring.State := ⟨128, 0, 72, (basics s).map Char.toNat⟩

/-- What the encoder has written after the basic code points leads the decoder to the state `d`. -/
def Leads (s output : List Char) (d : Bootstring.State) : Prop :=
  ∃ x, output = (punycodeStart s).output ++ x ∧ '-' ∉ x ∧
    ∀ rest, rfc3492.decodeFrom (decodeStart s) (x ++ rest) = rfc3492.decodeFrom d rest

/-- The relation of the simulation, in a round that has visited the code points `pre` and has not
visited `post`. -/
structure Tracks (s : List Char) (pre post : List ℕ) (t : PunyState) (d : Bootstring.State) :
    Prop where
  /-- The decoder is where the encoder has led it. -/
  leads : Leads s t.output d
  /-- Its output is what the encoder has dealt with. -/
  output_eq : d.output = pre.filter (· ≤ t.n) ++ post.filter (· < t.n)
  /-- The next insertion would be after the code points of the output that are visited. -/
  place : d.i + t.delta = (t.n - d.n) * (t.h + 1) + (pre.filter (· ≤ t.n)).length
  /-- Both use the same bias. -/
  bias_eq : d.bias = t.bias
  /-- The encoder counts the output. -/
  h_eq : t.h = d.output.length
  /-- Both know whether an integer has been written. -/
  first : d.i = 0 ↔ t.h = basicCount s
  basicCount_le : basicCount s ≤ t.h
  n_ge : 128 ≤ d.n
  n_le : d.n ≤ t.n

section Simulation

variable {s : List Char} {pre post : List ℕ} {t : PunyState} {d : Bootstring.State} {cp : ℕ}

/-- An integer leads the decoder on. -/
theorem Leads.digits {output : List Char} (h : Leads s output d) (delta : ℕ) :
    Leads s (output ++ digits d.bias delta 36) (d.insert rfc3492 (d.i + delta)) := by
  obtain ⟨x, rfl, hx, hreads⟩ := h
  have hwrites := writes_digits d.bias delta 36
  refine ⟨x ++ Mdns.digits d.bias delta 36, by rw [List.append_assoc], ?_, ?_⟩
  · rw [List.mem_append]
    rintro (hmem | hmem)
    · exact hx hmem
    · exact hwrites.delimiter_notMem hmem
  · intro rest
    rw [List.append_assoc, hreads, Bootstring.decodeFrom_writes hwrites]

/-- The encoder has written at most all code points. -/
theorem Tracks.h_le (h : Tracks s pre post t d) : t.h ≤ (pre ++ post).length := by
  rw [h.h_eq, h.output_eq, List.length_append, List.length_append]
  exact Nat.add_le_add (List.length_filter_le _ _) (List.length_filter_le _ _)

/-- In a text of 3800 code points or fewer, the way to the next insertion is below `2^32`. -/
theorem Tracks.delta_lt (h : Tracks s pre post t d) (hlen : (pre ++ post).length ≤ 3800)
    (hn : t.n < 0x110000) : t.delta + 1 < 2 ^ 32 := by
  have hh := h.h_le
  have hpre := List.length_filter_le (· ≤ t.n) pre
  have hprod : (t.n - d.n) * (t.h + 1) ≤ 1113983 * 3801 := by
    refine Nat.mul_le_mul ?_ (by omega)
    have hge := h.n_ge
    omega
  have hplace := h.place
  rw [List.length_append] at hlen
  omega

/-- The visit of a code point below that of the round. -/
theorem Tracks.visit_lt (h : Tracks s pre (cp :: post) t d)
    (hlen : (pre ++ cp :: post).length ≤ 3800) (hn : t.n < 0x110000) (hcp : cp < t.n) :
    Tracks s (pre ++ [cp]) post (t.visit (basicCount s) cp) d := by
  have hdelta := h.delta_lt hlen hn
  have hsat : saturatingAdd t.delta 1 = t.delta + 1 := by
    rw [saturatingAdd, u32Max]
    omega
  have hpre : (pre ++ [cp]).filter (· ≤ t.n) = pre.filter (· ≤ t.n) ++ [cp] := by
    rw [List.filter_append, List.filter_singleton, decide_eq_true hcp.le]
    rfl
  rw [PunyState.visit_lt hcp, hsat]
  refine { h with output_eq := ?_, place := ?_ }
  · rw [h.output_eq, hpre, List.filter_cons_of_pos (by simpa using hcp), List.append_assoc]
    rfl
  · show d.i + (t.delta + 1) = (t.n - d.n) * (t.h + 1) + ((pre ++ [cp]).filter (· ≤ t.n)).length
    rw [hpre, List.length_append, ← Nat.add_assoc, h.place, List.length_singleton, Nat.add_assoc]

/-- The visit of a code point above that of the round. -/
theorem Tracks.visit_gt (h : Tracks s pre (cp :: post) t d) (hcp : t.n < cp) :
    Tracks s (pre ++ [cp]) post (t.visit (basicCount s) cp) d := by
  have hpre : (pre ++ [cp]).filter (· ≤ t.n) = pre.filter (· ≤ t.n) := by
    rw [List.filter_append, List.filter_singleton, decide_eq_false (Nat.not_le.mpr hcp)]
    exact List.append_nil _
  rw [PunyState.visit_gt hcp]
  refine { h with output_eq := ?_, place := ?_ }
  · rw [h.output_eq, hpre, List.filter_cons_of_neg (by simpa using hcp.le)]
  · rw [hpre]
    exact h.place

/-- An insertion after the first part of a list. -/
theorem insertIdx_length_append {α : Type} (u v : List α) (a : α) :
    (u ++ v).insertIdx u.length a = u ++ a :: v := by
  induction u with
  | nil => rfl
  | cons c u ih => rw [List.cons_append, List.length_cons, List.insertIdx_succ_cons, ih]; rfl

/-- The visit of the code point of the round: the integer leads the decoder to its insertion. -/
theorem Tracks.visit_self (h : Tracks s pre (t.n :: post) t d) :
    ∃ d', Tracks s (pre ++ [t.n]) post (t.visit (basicCount s) t.n) d' := by
  have hpre : (pre ++ [t.n]).filter (· ≤ t.n) = pre.filter (· ≤ t.n) ++ [t.n] := by
    rw [List.filter_append, List.filter_singleton, decide_eq_true le_rfl]
    rfl
  have hpost : (t.n :: post).filter (· < t.n) = post.filter (· < t.n) :=
    List.filter_cons_of_neg (by simp)
  have hout := h.output_eq
  rw [hpost] at hout
  -- The place is below the length of the output, so that it is the remainder.
  have hplace : (pre.filter (· ≤ t.n)).length < t.h + 1 := by
    rw [h.h_eq, hout, List.length_append]
    omega
  have hdiv : d.n + (d.i + t.delta) / (t.h + 1) = t.n := by
    have hle := h.n_le
    rw [h.place, Nat.mul_comm, Nat.mul_add_div (Nat.succ_pos _), Nat.div_eq_of_lt hplace]
    omega
  have hmod : (d.i + t.delta) % (t.h + 1) = (pre.filter (· ≤ t.n)).length := by
    rw [h.place, Nat.mul_comm, Nat.mul_add_mod, Nat.mod_eq_of_lt hplace]
  have hfirst : decide (t.h = basicCount s) = decide (d.i = 0) := decide_eq_decide.mpr h.first.symm
  have hinsert : d.insert rfc3492 (d.i + t.delta) =
      ⟨t.n, (pre.filter (· ≤ t.n)).length + 1, adapt t.delta (t.h + 1) (t.h = basicCount s),
        pre.filter (· ≤ t.n) ++ t.n :: post.filter (· < t.n)⟩ := by
    rw [Bootstring.State.insert, ← h.h_eq, hdiv, hmod, Nat.add_sub_cancel_left,
      adapt_eq (Nat.succ_pos _), hfirst, hout, insertIdx_length_append]
  have hleads := h.leads.digits t.delta
  rw [h.bias_eq, hinsert] at hleads
  rw [PunyState.visit_self]
  refine ⟨_, hleads, ?_, ?_, rfl, ?_, ?_, ?_, ?_, le_rfl⟩
  · rw [hpre, List.append_assoc]
    rfl
  · show (pre.filter (· ≤ t.n)).length + 1 + 0 =
      (t.n - t.n) * (t.h + 1 + 1) + ((pre ++ [t.n]).filter (· ≤ t.n)).length
    rw [hpre, List.length_append, List.length_singleton, Nat.sub_self, Nat.zero_mul, Nat.zero_add]
  · show t.h + 1 = (pre.filter (· ≤ t.n) ++ t.n :: post.filter (· < t.n)).length
    rw [h.h_eq, hout, List.length_append, List.length_append, List.length_cons, Nat.add_assoc]
  · have hle := h.basicCount_le
    exact iff_of_false (Nat.succ_ne_zero _) (Nat.lt_succ_of_le hle).ne'
  · exact Nat.le_succ_of_le h.basicCount_le
  · exact h.n_ge.trans h.n_le

/-- A visit keeps the relation. -/
theorem Tracks.visit (h : Tracks s pre (cp :: post) t d)
    (hlen : (pre ++ cp :: post).length ≤ 3800) (hn : t.n < 0x110000) :
    ∃ d', Tracks s (pre ++ [cp]) post (t.visit (basicCount s) cp) d' := by
  rcases Nat.lt_trichotomy cp t.n with hcp | rfl | hcp
  · exact ⟨d, h.visit_lt hlen hn hcp⟩
  · exact h.visit_self
  · exact ⟨d, h.visit_gt hcp⟩

/-- The visits of a round keep the relation. -/
theorem Tracks.foldl_visit (h : Tracks s pre post t d) (hlen : (pre ++ post).length ≤ 3800)
    (hn : t.n < 0x110000) :
    ∃ d', Tracks s (pre ++ post) [] (post.foldl (PunyState.visit (basicCount s)) t) d' := by
  induction post generalizing pre t d with
  | nil => exact ⟨d, by rwa [List.append_nil]⟩
  | cons cp post ih =>
    obtain ⟨d', h'⟩ := h.visit hlen hn
    have hcons := List.append_cons pre cp post
    rw [hcons]
    exact ih h' (by rwa [← hcons]) (by rwa [PunyState.visit_n])

/-- The start of a round keeps the relation: no code point is passed over, and each of those before
the next one is as many places long as the output and one more. -/
theorem Tracks.advance {input : List ℕ} (h : Tracks s [] input t d) (hlen : input.length ≤ 3800)
    (hinput : ScalarValues input) (hleft : 0 < t.left input) :
    Tracks s [] input (t.advance input) d ∧ (t.advance input).n < 0x110000 := by
  obtain ⟨m, hm, hnm, hmin, hadv⟩ := PunyState.advance_spec hleft
  have hlt := hinput m hm
  have hle := h.n_le
  have hplace : d.i + t.delta = (t.n - d.n) * (t.h + 1) := h.place
  have hsum : d.i + (t.delta + (m - t.n) * (t.h + 1)) = (m - d.n) * (t.h + 1) := by
    rw [← Nat.add_assoc, hplace, ← Nat.add_mul]
    congr 1
    omega
  -- No sum is as large as `2^32`.
  have hprod : (m - d.n) * (t.h + 1) ≤ 1113983 * 3801 := by
    have hh := h.h_le
    have hge := h.n_ge
    exact Nat.mul_le_mul (by omega) (by rw [List.nil_append] at hh; omega)
  have hsat : saturatingAdd t.delta (saturatingMul (m - t.n) (t.h + 1)) =
      t.delta + (m - t.n) * (t.h + 1) := by
    rw [saturatingAdd, saturatingMul, u32Max]
    omega
  rw [hadv, hsat]
  refine ⟨{ h with output_eq := ?_, place := hsum, n_le := hle.trans hnm }, hlt⟩
  rw [h.output_eq, List.filter_nil, List.filter_nil, List.nil_append, List.nil_append]
  refine List.filter_congr fun cp hcp => ?_
  rw [decide_eq_decide]
  have hcpm := hmin cp hcp
  show cp < t.n ↔ cp < m
  omega

/-- The end of a round keeps the relation. -/
theorem Tracks.close {input : List ℕ} (h : Tracks s input [] t d) (hlen : input.length ≤ 3800)
    (hn : t.n < 0x110000) : Tracks s [] input t.close d := by
  have hdelta := h.delta_lt (by rwa [List.append_nil]) hn
  have hout : d.output = input.filter (· ≤ t.n) := by
    rw [h.output_eq, List.filter_nil, List.append_nil]
  have hsum : d.i + (t.delta + 1) = (t.n + 1 - d.n) * (t.h + 1) := by
    have hplace := h.place
    rw [← hout, ← h.h_eq] at hplace
    rw [← Nat.add_assoc, hplace, Nat.add_assoc, Nat.sub_add_comm h.n_le, Nat.succ_mul]
  have hsat : t.close = { t with delta := t.delta + 1, n := t.n + 1 } := by
    rw [PunyState.close, saturatingAdd, saturatingAdd, u32Max, Nat.min_eq_left (by omega),
      Nat.min_eq_left (by omega)]
  rw [hsat]
  refine { h with output_eq := ?_, place := hsum, n_le := Nat.le_succ_of_le h.n_le }
  rw [hout]
  refine List.filter_congr fun cp _ => ?_
  rw [decide_eq_decide]
  exact Nat.lt_succ_iff.symm

/-- A round keeps the relation. -/
theorem Tracks.round {input : List ℕ} (h : Tracks s [] input t d) (hlen : input.length ≤ 3800)
    (hinput : ScalarValues input) (hleft : 0 < t.left input) :
    ∃ d', Tracks s [] input (t.round input (basicCount s)) d' := by
  obtain ⟨hadv, hn⟩ := h.advance hlen hinput hleft
  obtain ⟨d', hvisits⟩ := hadv.foldl_visit hlen hn
  exact ⟨d', hvisits.close hlen (by rwa [PunyState.foldl_visit_n])⟩

/-- The basic code points of such a text are counted. -/
theorem basicCount_eq (hlen : s.length ≤ 3800) : basicCount s = (basics s).length := by
  have hle := List.length_filter_le (fun c : Char => decide (c.toNat < 0x80)) s
  exact Nat.mod_eq_of_lt (by rw [basics]; omega)

/-- The relation holds before the first round. -/
theorem tracks_start (hlen : s.length ≤ 3800) :
    Tracks s [] (s.map Char.toNat) (punycodeStart s) (decodeStart s) := by
  have hcount := basicCount_eq hlen
  refine ⟨⟨[], by rw [List.append_nil], List.not_mem_nil, fun _ => rfl⟩, ?_, ?_, rfl, ?_, ?_,
    le_rfl, le_rfl, le_rfl⟩
  · show (s.filter (·.toNat < 0x80)).map Char.toNat = (s.map Char.toNat).filter (· < 0x80)
    rw [List.filter_map]
    rfl
  · show 0 + 0 = (128 - 128) * (basicCount s + 1) + 0
    rw [Nat.sub_self, Nat.zero_mul]
  · show basicCount s = ((basics s).map Char.toNat).length
    rw [hcount, List.length_map]
  · exact iff_of_true rfl rfl

end Simulation

/-- The decoder starts where the basic code points of a code end. -/
theorem decode_start {s x : List Char} (hlen : s.length ≤ 3800) (hx : '-' ∉ x) :
    rfc3492.decode ((punycodeStart s).output ++ x) = rfc3492.decodeFrom (decodeStart s) x := by
  have hsplit : rfc3492.split ((punycodeStart s).output ++ x) = (basics s, x) := by
    have hcount := basicCount_eq hlen
    by_cases hnil : basics s = []
    · rw [hnil, List.length_nil] at hcount
      rw [punycodeStart, hnil, hcount, if_neg (Nat.lt_irrefl 0)]
      exact Bootstring.split_of_notMem hx
    · have hpos := List.length_pos_iff.mpr hnil
      rw [punycodeStart, if_pos (by omega), List.append_assoc, List.singleton_append]
      exact Bootstring.split_append hnil hx
  have hbasic : (basics s).all (·.toNat < 0x80) = true := by
    rw [List.all_eq_true]
    exact fun c hc => (List.mem_filter.mp hc).2
  rw [Bootstring.decode, hsplit]
  exact if_pos hbasic

/-- The decoder inverts `punycode`. -/
theorem decode_punycode {s : List Char} (hlen : s.length ≤ 3800) :
    rfc3492.decode (punycode s) = some (s.map Char.toNat) := by
  have hmap : (s.map Char.toNat).length ≤ 3800 := by rwa [List.length_map]
  have hscalar := scalarValues_map s
  obtain ⟨t, ⟨d, ht⟩, hh, hout⟩ := punycode_rule s
    (I := fun t => ∃ d, Tracks s [] (s.map Char.toNat) t d) ⟨_, tracks_start hlen⟩
    (fun t ⟨d, h⟩ hleft => h.round hmap hscalar hleft)
  obtain ⟨x, hx, hdelim, hreads⟩ := ht.leads
  -- At the end the encoder has written as many code points as there are, so the output is them all.
  have hall : d.output = s.map Char.toNat := by
    have hoe := ht.output_eq
    rw [List.filter_nil, List.nil_append] at hoe
    have hge : (s.map Char.toNat).length ≤ ((s.map Char.toNat).filter (· < t.n)).length := by
      rw [← hoe, ← ht.h_eq, List.length_map]
      omega
    rw [hoe, List.filter_eq_self]
    exact List.length_filter_eq_length_iff.mp (hge.antisymm' (List.length_filter_le _ _))
  calc rfc3492.decode (punycode s)
      = rfc3492.decode ((punycodeStart s).output ++ x) := by rw [← hout, hx]
    _ = rfc3492.decodeFrom (decodeStart s) (x ++ []) := by
      rw [decode_start hlen hdelim, List.append_nil]
    _ = rfc3492.decodeFrom d [] := hreads []
    _ = some (s.map Char.toNat) := by rw [Bootstring.decodeFrom, hall]

example : punycode "3年B組金八先生".toList = "3B-ww4c5e180e575a65lsy2b".toList := by
  decide +kernel

/-- `punycode` returns on every text, and within 3800 code points the decoder of the standard gives
the text back, so that no two texts have one code. -/
theorem punycode_decodable (s : List Char) (hlen : s.length ≤ 3800) :
    (∀ fuel, s.length < fuel → punycodeRun fuel s = some (punycode s)) ∧
      rfc3492.decode (punycode s) = some (s.map Char.toNat) ∧
      ∀ t : List Char, t.length ≤ 3800 → punycode t = punycode s → t = s := by
  refine ⟨fun fuel => punycodeRun_eq, decode_punycode hlen, ?_⟩
  intro t ht heq
  have hdecode := decode_punycode ht
  rw [heq, decode_punycode hlen] at hdecode
  exact (List.map_injective_iff.mpr fun _ _ => Char.toNat_inj.mp)
    (Option.some.inj hdecode).symm

/-- A code with a basic code point and another one stands for both. -/
theorem decode_punycode_two : rfc3492.decode (punycode ['é', 'a']) = some [0xE9, 0x61] :=
  (punycode_decodable ['é', 'a'] (by decide)).2.1

end Uscan.Mdns
