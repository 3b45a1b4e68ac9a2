import Uscan.Lib.Regex
import Uscan.Lib.Str

/-!
# Captures

What the first group of an expression captures, in the preferred match at the front of a text
(`captureAt`) and in the leftmost match (`capture`). A loop that looks for a fixed text and goes on
behind it by hand returns the capture of the leftmost match, if it goes on to a place before which
no other match can start (`searchLoop_eq_capture`).
-/

namespace Uscan.Re

variable {α : Type}

/-- What the first group captures in the preferred match at the front of a text. -/
def captureAt (r : Re α) (s : List α) : Option (List α) := (first r s).bind fun h => h.groups.head?

/-- What the first group captures in the leftmost match. -/
def capture (r : Re α) (s : List α) : Option (List α) :=
  (search r s).bind fun x => x.2.groups.head?

/-! ## At the front of a text -/

/-- After a text the expression captures what its second part captures. -/
theorem captureAt_lit_append [DecidableEq α] (w : List α) (q : Re α) (s : List α) :
    captureAt (seq (lit w) q) (w ++ s) = captureAt q s := by
  rw [captureAt, captureAt, first, run_seq_lit_append, List.head?_map, Option.bind_map]
  rfl

/-- Where that text does not stand, it captures nothing. -/
theorem captureAt_lit_neg [DecidableEq α] {w s : List α} (h : ¬ w <+: s) (q : Re α) :
    captureAt (seq (lit w) q) s = none := by
  rw [captureAt, first, run_seq_lit_neg h]
  rfl

/-- A repetition before an expression that cannot start with an element of its class captures
nothing and is passed over. -/
theorem captureAt_many {p : α → Bool} {q : Re α} (hq : ∀ a t, p a = true → run q (a :: t) = [])
    (s : List α) : captureAt (seq (many p) q) s = captureAt q (s.dropWhile p) := by
  rw [captureAt, (commits_many hq).first_seq, first_many, Option.bind_some, Option.bind_map]
  rfl

/-- A group of a repetition, closed by a text that does not start with an element of its class. -/
theorem captureAt_group_many [DecidableEq α] {p : α → Bool} {c : α} (hc : p c = false)
    (w s : List α) :
    captureAt (seq (group (many p)) (lit (c :: w))) s =
      if c :: w <+: s.dropWhile p then some (s.takeWhile p) else none := by
  have hstop (a : α) (t : List α) (ha : p a = true) : run (lit (c :: w)) (a :: t) = [] := by
    apply run_lit_neg
    rw [List.cons_prefix_cons]
    rintro ⟨rfl, -⟩
    rw [hc] at ha
    cases ha
  rw [captureAt, first, ((greedy_many p s).group).run_seq hstop]
  split_ifs with h
  · obtain ⟨t, ht⟩ := h
    simp only [← ht, run_lit_append]
    rfl
  · rw [run_lit_neg h]
    rfl

/-- An expression with one group captures something wherever it matches. -/
theorem captureAt_eq_none_iff {r : Re α} (hr : r.arity = some 1) {s : List α} :
    captureAt r s = none ↔ first r s = none := by
  unfold captureAt
  cases hfirst : first r s with
  | none => simp
  | some h =>
    obtain ⟨t, ht⟩ := List.length_eq_one_iff.mp (length_groups hr (List.mem_of_mem_head? hfirst))
    simp [ht]

/-! ## In the leftmost match -/

/-- The leftmost match is at the front if there is one. -/
theorem capture_of_captureAt {r : Re α} {s t : List α} (h : captureAt r s = some t) :
    capture r s = some t := by
  obtain ⟨x, hx, hcapture⟩ := Option.bind_eq_some_iff.mp h
  rw [capture, search_of_first hx]
  exact hcapture

/-- A stretch where no match starts is passed over. -/
theorem capture_skip {r : Re α} {u v : List α}
    (h : ∀ u', u' <:+ u → u' ≠ [] → first r (u' ++ v) = none) :
    capture r (u ++ v) = capture r v := by
  rw [capture, search_skip h, Option.bind_map]
  rfl

/-- Where no match starts, nothing is captured. -/
theorem capture_eq_none {r : Re α} {s : List α} (h : ∀ t, t <:+ s → first r t = none) :
    capture r s = none := by
  have hskip := @capture_skip α r s [] fun u' hu' _ => by rw [List.append_nil]; exact h u' hu'
  rw [List.append_nil] at hskip
  rw [hskip, capture, search, h [] List.nil_suffix]
  rfl

/-! ## Loops that search -/

/-- A loop that looks for `pat` from left to right, where `loop u v` is its result on the text
`u ++ v` after `u`. Where `pat` does not stand in `v`, it returns nothing. Otherwise it returns what
`q` captures after the first place of `pat`, and if that is nothing, it goes on after a part `x` in
which `pat` starts nowhere but at the front. Then it returns what the leftmost match of `pat` and
`q` captures. The induction is on the length of `v`. -/
theorem searchLoop_eq_capture {ε : Type} {pat : List Char} {q : Re Char}
    (hq : (seq (lit pat) q).arity = some 1)
    {loop : List Char → List Char → Res ε (Option (List Char))}
    (hnone : ∀ u v, strFind pat v = none → loop u v = .ok none)
    (hsome : ∀ u s w t, strFind pat (s ++ (pat ++ w)) = some (byteLen s) →
      captureAt q w = some t → loop u (s ++ (pat ++ w)) = .ok (some t))
    (hnext : ∀ u s w, strFind pat (s ++ (pat ++ w)) = some (byteLen s) → captureAt q w = none →
      ∃ x y, pat ++ w = x ++ y ∧ x ≠ [] ∧
        (∀ x', x' <:+ x → x' ≠ [] → x' ≠ x → ¬ pat <+: x' ++ y) ∧
        loop u (s ++ (pat ++ w)) = loop (u ++ s ++ x) y)
    (u v : List Char) : loop u v = .ok (capture (seq (lit pat) q) v) := by
  have hneg {t : List Char} (h : ¬ pat <+: t) : first (seq (lit pat) q) t = none := by
    rw [first, run_seq_lit_neg h]
    rfl
  induction hlen : v.length using Nat.strongRecOn generalizing u v with
  | ind n ih =>
    cases hfind : strFind pat v with
    | none =>
      rw [hnone u v hfind,
        capture_eq_none fun t ht => hneg (not_prefix_of_strFind hfind ht)]
    | some off =>
      obtain ⟨s, v', rfl, rfl, hfound⟩ := exists_of_strFind hfind
      obtain ⟨w, rfl⟩ := hfound.here
      have hskip : capture (seq (lit pat) q) (s ++ (pat ++ w)) =
          capture (seq (lit pat) q) (pat ++ w) :=
        capture_skip fun s' hs' hne => hneg (hfound.not_before s' hs' hne)
      have hfront := captureAt_lit_append pat q w
      rw [hskip]
      cases hcapture : captureAt q w with
      | some t =>
        rw [hsome u s w t hfind hcapture]
        rw [hcapture] at hfront
        rw [capture_of_captureAt hfront]
      | none =>
        obtain ⟨x, y, hxy, hx, hinside, hloop⟩ := hnext u s w hfind hcapture
        rw [hcapture, captureAt_eq_none_iff hq] at hfront
        -- No match starts in the part that the loop passes over.
        have hpassed (x' : List Char) (hx' : x' <:+ x) (hne : x' ≠ []) :
            first (seq (lit pat) q) (x' ++ y) = none := by
          by_cases heq : x' = x
          · rw [heq, ← hxy, hfront]
          · exact hneg (hinside x' hx' hne heq)
        have hshort : y.length < n := by
          have hpos := List.length_pos_iff.mpr hx
          have hlength := congrArg List.length hxy
          rw [← hlen, List.length_append, hlength, List.length_append]
          omega
        rw [hloop, ih y.length hshort (u ++ s ++ x) y rfl, hxy, capture_skip hpassed]

end Uscan.Re
