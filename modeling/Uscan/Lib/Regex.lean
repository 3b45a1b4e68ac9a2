import Mathlib.Data.List.TakeWhile
import Mathlib.Data.List.Basic

/-!
# Regular expressions

Backtracking regular expressions over an arbitrary alphabet, with classes, repetition of a class,
sequence, ordered alternatives, and capturing groups. `run r s` lists the ways in which `r` matches
at the front of `s`, the preferred one first: a repetition takes as much as it can and gives back
one element at a time, and an alternative is tried before the next one. `first` is the preferred
match, `search` the leftmost one, and `findAll` all matches from left to right without overlap;
`deleteAll` cuts these out of the text.

A scanner that looks for the same thing by hand is compared with these. The rules for that are
`Greedy.run_seq`, where what follows a repetition cannot start with an element of its class, so that
giving back is useless; `search_skip` and `findAll_skip`, which pass over a stretch where no match
starts; and `search_of_first` and `findAll_of_first`, which take one.
-/

namespace Uscan

variable {α : Type}

/-- A regular expression. -/
inductive Re (α : Type) where
  /-- Matches the empty text. -/
  | eps
  /-- Matches one element of a class. -/
  | sym (p : α → Bool)
  /-- Matches any number of elements of a class, as many as possible. -/
  | many (p : α → Bool)
  /-- Matches `r` and then `q`. -/
  | seq (r q : Re α)
  /-- Matches `r`, or else `q`. -/
  | alt (r q : Re α)
  /-- Matches `r` and captures what it matched. -/
  | group (r : Re α)

/-- A match at the front of a text. -/
structure Hit (α : Type) where
  /-- What was matched. -/
  text : List α
  /-- What the groups captured, in order. -/
  groups : List (List α)
  /-- The text after the match. -/
  rest : List α
  deriving DecidableEq, Repr

/-- The match `h` and after it the match `h'`. -/
def Hit.andThen (h h' : Hit α) : Hit α :=
  ⟨h.text ++ h'.text, h.groups ++ h'.groups, h'.rest⟩

namespace Re

/-- The ways to match a repetition, the longest one first. -/
def runMany (p : α → Bool) : List α → List (Hit α)
  | [] => [⟨[], [], []⟩]
  | a :: s =>
    if p a then (runMany p s).map (fun h => ⟨a :: h.text, h.groups, h.rest⟩) ++ [⟨[], [], a :: s⟩]
    else [⟨[], [], a :: s⟩]

/-- The ways in which an expression matches at the front of a text, the preferred one first. -/
def run : Re α → List α → List (Hit α)
  | eps, s => [⟨[], [], s⟩]
  | sym _, [] => []
  | sym p, a :: s => if p a then [⟨[a], [], s⟩] else []
  | many p, s => runMany p s
  | seq r q, s => (run r s).flatMap fun h => (run q h.rest).map h.andThen
  | alt r q, s => run r s ++ run q s
  | group r, s => (run r s).map fun h => ⟨h.text, h.groups ++ [h.text], h.rest⟩

/-- At least one element of a class. -/
def many1 (p : α → Bool) : Re α := seq (sym p) (many p)

/-- A given text. -/
def lit [DecidableEq α] : List α → Re α
  | [] => eps
  | a :: w => seq (sym (· == a)) (lit w)

/-- The preferred match at the front of a text. -/
def first (r : Re α) (s : List α) : Option (Hit α) := (run r s).head?

/-- The leftmost match in a text, with what stands before it. -/
def search (r : Re α) : List α → Option (List α × Hit α)
  | [] => (first r []).map fun h => ([], h)
  | a :: s =>
    match first r (a :: s) with
    | some h => some ([], h)
    | none => (search r s).map fun x => (a :: x.1, x.2)

/-- All matches in a text, from left to right, without overlap. After an empty match the search goes
on one element further. -/
def findAll (r : Re α) (s : List α) : List (Hit α) :=
  match first r s with
  | some h =>
    if _hlt : h.rest.length < s.length then h :: findAll r h.rest
    else
      match s with
      | [] => [h]
      | _ :: t => h :: findAll r t
  | none =>
    match s with
    | [] => []
    | _ :: t => findAll r t
termination_by s.length
decreasing_by all_goals simp_all

/-! ## Matches are parts of the text -/

/-- A way to match a repetition splits the text. -/
theorem text_append_rest_of_mem_runMany {p : α → Bool} {s : List α} {h : Hit α}
    (hh : h ∈ runMany p s) : h.text ++ h.rest = s := by
  induction s generalizing h with
  | nil =>
    rw [runMany, List.mem_singleton] at hh
    rw [hh]
    rfl
  | cons a s ih =>
    unfold runMany at hh
    split_ifs at hh with hp
    · rcases List.mem_append.mp hh with hh | hh
      · obtain ⟨h', hh', rfl⟩ := List.mem_map.mp hh
        rw [List.cons_append, ih hh']
      · rw [List.mem_singleton.mp hh]
        rfl
    · rw [List.mem_singleton.mp hh]
      rfl

/-- A match splits the text. -/
theorem text_append_rest {r : Re α} {s : List α} {h : Hit α} (hh : h ∈ run r s) :
    h.text ++ h.rest = s := by
  induction r generalizing s h with
  | eps =>
    rw [run, List.mem_singleton] at hh
    rw [hh]
    rfl
  | sym p =>
    cases s with
    | nil => cases hh
    | cons a s =>
      unfold run at hh
      split_ifs at hh with hp
      · rw [List.mem_singleton.mp hh]
        rfl
      · cases hh
  | many p => exact text_append_rest_of_mem_runMany hh
  | seq r q ihr ihq =>
    obtain ⟨h1, hh1, hh⟩ := List.mem_flatMap.mp hh
    obtain ⟨h2, hh2, rfl⟩ := List.mem_map.mp hh
    rw [Hit.andThen, List.append_assoc, ihq hh2, ihr hh1]
  | alt r q ihr ihq =>
    rcases List.mem_append.mp hh with hh | hh
    · exact ihr hh
    · exact ihq hh
  | group r ih =>
    obtain ⟨h', hh', rfl⟩ := List.mem_map.mp hh
    have hsplit : h'.text ++ h'.rest = s := ih hh'
    exact hsplit

/-- The preferred match splits the text. -/
theorem text_append_rest_of_first {r : Re α} {s : List α} {h : Hit α}
    (hh : first r s = some h) : h.text ++ h.rest = s :=
  text_append_rest (List.mem_of_mem_head? hh)

/-! ## Classes and texts -/

/-- A class matches at an element of it. -/
theorem run_sym_pos {p : α → Bool} {a : α} (h : p a = true) (s : List α) :
    run (sym p) (a :: s) = [⟨[a], [], s⟩] := by
  rw [run, if_pos h]

/-- A class does not match at another element. -/
theorem run_sym_neg {p : α → Bool} {a : α} (h : p a = false) (s : List α) :
    run (sym p) (a :: s) = [] := by
  rw [run, if_neg (by simp [h])]

/-- A sequence that starts with a class matches at an element of it as its second part does after
it. -/
theorem run_seq_sym_pos {p : α → Bool} {a : α} (h : p a = true) (q : Re α) (s : List α) :
    run (seq (sym p) q) (a :: s) = (run q s).map (Hit.andThen ⟨[a], [], s⟩) := by
  rw [run, run_sym_pos h, List.flatMap_cons, List.flatMap_nil, List.append_nil]

/-- A sequence that starts with a class does not match at another element. -/
theorem run_seq_sym_neg {p : α → Bool} {a : α} (h : p a = false) (q : Re α) (s : List α) :
    run (seq (sym p) q) (a :: s) = [] := by
  rw [run, run_sym_neg h, List.flatMap_nil]

/-- A text matches itself. -/
theorem run_lit_append [DecidableEq α] (w s : List α) : run (lit w) (w ++ s) = [⟨w, [], s⟩] := by
  induction w with
  | nil => rfl
  | cons a w ih =>
    rw [lit, List.cons_append, run_seq_sym_pos (by simp), ih]
    rfl

/-- A text does not match where it is not a prefix. -/
theorem run_lit_neg [DecidableEq α] {w s : List α} (h : ¬ w <+: s) : run (lit w) s = [] := by
  induction w generalizing s with
  | nil => exact absurd List.nil_prefix h
  | cons a w ih =>
    cases s with
    | nil => rfl
    | cons b s =>
      by_cases hab : b = a
      · subst hab
        rw [lit, run_seq_sym_pos (by simp), ih (fun hw => h (List.cons_prefix_cons.mpr ⟨rfl, hw⟩))]
        rfl
      · rw [lit, run_seq_sym_neg (by simpa using hab)]

/-- A sequence that starts with a text matches after that text as its second part does. -/
theorem run_seq_lit_append [DecidableEq α] (w : List α) (q : Re α) (s : List α) :
    run (seq (lit w) q) (w ++ s) = (run q s).map (Hit.andThen ⟨w, [], s⟩) := by
  rw [run, run_lit_append, List.flatMap_cons, List.flatMap_nil, List.append_nil]

/-- A sequence that starts with a text does not match where that text is not a prefix. -/
theorem run_seq_lit_neg [DecidableEq α] {w s : List α} (h : ¬ w <+: s) (q : Re α) :
    run (seq (lit w) q) s = [] := by
  rw [run, run_lit_neg h, List.flatMap_nil]

/-- A sequence that starts with one element matches after it as its second part does. -/
theorem run_seq_lit_cons [DecidableEq α] (a : α) (q : Re α) (s : List α) :
    run (seq (lit [a]) q) (a :: s) = (run q s).map (Hit.andThen ⟨[a], [], s⟩) :=
  run_seq_lit_append [a] q s

/-- One element matches itself. -/
theorem run_lit_cons [DecidableEq α] (a : α) (s : List α) :
    run (lit [a]) (a :: s) = [⟨[a], [], s⟩] :=
  run_lit_append [a] s

/-- A sequence that starts with one element does not match at another one. -/
theorem run_seq_lit_cons_neg [DecidableEq α] {a b : α} (h : b ≠ a) (q : Re α) (s : List α) :
    run (seq (lit [a]) q) (b :: s) = [] :=
  run_seq_lit_neg (fun hp => h (List.cons_prefix_cons.mp hp).1.symm) q

/-- One element does not match another one. -/
theorem run_lit_cons_neg [DecidableEq α] {a b : α} (h : b ≠ a) (s : List α) :
    run (lit [a]) (b :: s) = [] :=
  run_lit_neg fun hp => h (List.cons_prefix_cons.mp hp).1.symm

/-! ## Repetitions -/

/-- The preferred way to match `r` at the front of `s` is `h`, and after every other way there is an
element of the class `p`: `r` ends in a repetition of `p`, which gave something back. -/
def Greedy (p : α → Bool) (r : Re α) (s : List α) (h : Hit α) : Prop :=
  ∃ hs, run r s = h :: hs ∧ ∀ h' ∈ hs, ∃ a t, h'.rest = a :: t ∧ p a = true

/-- A repetition takes all elements of its class. -/
theorem greedy_many (p : α → Bool) (s : List α) :
    Greedy p (many p) s ⟨s.takeWhile p, [], s.dropWhile p⟩ := by
  induction s with
  | nil => exact ⟨[], rfl, by simp⟩
  | cons a s ih =>
    by_cases hp : p a = true
    · obtain ⟨hs, hrun, hgive⟩ := ih
      unfold run at hrun
      refine ⟨hs.map (fun h => ⟨a :: h.text, h.groups, h.rest⟩) ++ [⟨[], [], a :: s⟩], ?_, ?_⟩
      · rw [run, runMany, if_pos hp, hrun, List.takeWhile_cons_of_pos hp,
          List.dropWhile_cons_of_pos hp, List.map_cons, List.cons_append]
      · intro h hh
        rcases List.mem_append.mp hh with hh | hh
        · obtain ⟨h', hh', rfl⟩ := List.mem_map.mp hh
          exact hgive h' hh'
        · -- The last way gives back all elements, the first of which is `a`.
          rw [List.mem_singleton.mp hh]
          exact ⟨a, s, rfl, hp⟩
    · -- The repetition takes nothing, and has nothing to give back.
      refine ⟨[], ?_, by simp⟩
      rw [run, runMany, if_neg hp, List.takeWhile_cons_of_neg hp, List.dropWhile_cons_of_neg hp]

/-- An element of a class before it does not change how an expression gives back. -/
theorem Greedy.seq_sym {p c : α → Bool} {r : Re α} {s : List α} {h : Hit α} {a : α}
    (hr : Greedy p r s h) (ha : c a = true) :
    Greedy p (seq (sym c) r) (a :: s) (Hit.andThen ⟨[a], [], s⟩ h) := by
  obtain ⟨hs, hrun, hgive⟩ := hr
  refine ⟨hs.map (Hit.andThen ⟨[a], [], s⟩), ?_, ?_⟩
  · rw [run_seq_sym_pos ha, hrun, List.map_cons]
  · intro h' hh'
    obtain ⟨h'', hh'', rfl⟩ := List.mem_map.mp hh'
    exact hgive h'' hh''

/-- A group does not change how an expression gives back. -/
theorem Greedy.group {p : α → Bool} {r : Re α} {s : List α} {h : Hit α} (hr : Greedy p r s h) :
    Greedy p (group r) s ⟨h.text, h.groups ++ [h.text], h.rest⟩ := by
  obtain ⟨hs, hrun, hgive⟩ := hr
  refine ⟨hs.map fun h => ⟨h.text, h.groups ++ [h.text], h.rest⟩, ?_, ?_⟩
  · rw [run, hrun, List.map_cons]
  · intro h' hh'
    obtain ⟨h'', hh'', rfl⟩ := List.mem_map.mp hh'
    exact hgive h'' hh''

/-- Where what follows a repetition cannot start with an element of its class, giving back is
useless: the sequence matches after the preferred way only. -/
theorem Greedy.run_seq {p : α → Bool} {r q : Re α} {s : List α} {h : Hit α} (hr : Greedy p r s h)
    (hq : ∀ a t, p a = true → run q (a :: t) = []) :
    run (seq r q) s = (run q h.rest).map h.andThen := by
  obtain ⟨hs, hrun, hgive⟩ := hr
  -- After a way that gives something back, the second part would have to start in the class.
  have hnone : (hs.flatMap fun h' => (run q h'.rest).map h'.andThen) = [] := by
    rw [List.flatMap_eq_nil_iff]
    intro h' hh'
    obtain ⟨a, t, hrest, ha⟩ := hgive h' hh'
    rw [hrest, hq a t ha, List.map_nil]
  rw [run, hrun, List.flatMap_cons, hnone, List.append_nil]

/-- A repetition takes all elements of its class, if what follows cannot start with one. -/
theorem run_seq_many {p : α → Bool} {q : Re α} (hq : ∀ a t, p a = true → run q (a :: t) = [])
    (s : List α) :
    run (seq (many p) q) s =
      (run q (s.dropWhile p)).map (Hit.andThen ⟨s.takeWhile p, [], s.dropWhile p⟩) :=
  (greedy_many p s).run_seq hq

/-! ## Sequences without backtracking -/

/-- A sequence matches after the preferred way of its first part only. -/
def Commits (r q : Re α) : Prop :=
  ∀ s, run (seq r q) s = (first r s).elim [] fun h => (run q h.rest).map h.andThen

/-- An expression matches in at most one way. -/
def Single (r : Re α) : Prop := ∀ s, (run r s).length ≤ 1

/-- A text matches in at most one way. -/
theorem single_lit [DecidableEq α] (w : List α) : Single (lit w) := by
  intro s
  by_cases h : w <+: s
  · obtain ⟨t, rfl⟩ := h
    rw [run_lit_append, List.length_singleton]
  · rw [run_lit_neg h]
    exact Nat.zero_le 1

/-- After an expression with at most one way there is nothing to give back. -/
theorem Single.commits {r : Re α} (h : Single r) (q : Re α) : Commits r q := by
  intro s
  have hlen := h s
  rw [run, first]
  cases hrun : run r s with
  | nil => rfl
  | cons x hs =>
    have hnil : hs = [] := List.length_eq_zero_iff.mp (by simpa [hrun] using hlen)
    rw [hnil, List.flatMap_cons, List.flatMap_nil, List.append_nil]
    rfl

/-- Where what follows cannot start with an element of the class, nothing is given back. -/
theorem commits_of_greedy {p : α → Bool} {r q : Re α}
    (hr : ∀ s, run r s = [] ∨ ∃ h, Greedy p r s h)
    (hq : ∀ a t, p a = true → run q (a :: t) = []) : Commits r q := by
  intro s
  rcases hr s with hnil | ⟨h, hgreedy⟩
  · rw [run, first, hnil]
    rfl
  · rw [hgreedy.run_seq hq, first]
    obtain ⟨hs, hrun, -⟩ := hgreedy
    rw [hrun]
    rfl

/-- A repetition gives nothing back to what cannot start with an element of its class. -/
theorem commits_many {p : α → Bool} {q : Re α} (hq : ∀ a t, p a = true → run q (a :: t) = []) :
    Commits (many p) q :=
  commits_of_greedy (fun s => .inr ⟨_, greedy_many p s⟩) hq

/-- So does a repetition of at least one element. -/
theorem commits_many1 {p : α → Bool} {q : Re α} (hq : ∀ a t, p a = true → run q (a :: t) = []) :
    Commits (many1 p) q := by
  refine commits_of_greedy (fun s => ?_) hq
  cases s with
  | nil => exact .inl rfl
  | cons a s =>
    by_cases ha : p a = true
    · exact .inr ⟨_, (greedy_many p s).seq_sym ha⟩
    · exact .inl (run_seq_sym_neg (by simpa using ha) _ s)

/-- Then a sequence has at most one way if its second part does. -/
theorem Commits.single {r q : Re α} (h : Commits r q) (hq : Single q) : Single (seq r q) := by
  intro s
  rw [h s]
  cases first r s with
  | none => exact Nat.zero_le 1
  | some x =>
    rw [Option.elim_some, List.length_map]
    exact hq x.rest

/-- The preferred match of such a sequence. -/
theorem Commits.first_seq {r q : Re α} (h : Commits r q) (s : List α) :
    first (seq r q) s = (first r s).bind fun x => (first q x.rest).map x.andThen := by
  rw [first, h s]
  cases first r s with
  | none => rfl
  | some x =>
    rw [Option.elim_some, List.head?_map]
    rfl

/-! ## Preferred matches -/

/-- The preferred match of a text where it stands. -/
theorem first_lit_append [DecidableEq α] (w s : List α) :
    first (lit w) (w ++ s) = some ⟨w, [], s⟩ := by
  rw [first, run_lit_append, List.head?_cons]

/-- A text has no match where it does not stand. -/
theorem first_lit_neg [DecidableEq α] {w s : List α} (h : ¬ w <+: s) : first (lit w) s = none := by
  rw [first, run_lit_neg h, List.head?_nil]

/-- The preferred match of a repetition of at least one element. -/
theorem first_many1_pos {p : α → Bool} {a : α} (ha : p a = true) (s : List α) :
    first (many1 p) (a :: s) = some ⟨(a :: s).takeWhile p, [], (a :: s).dropWhile p⟩ := by
  obtain ⟨hs, hrun, -⟩ := (greedy_many p s).seq_sym (c := p) ha
  rw [first, many1, hrun, List.head?_cons, List.takeWhile_cons_of_pos ha,
    List.dropWhile_cons_of_pos ha]
  rfl

/-- A repetition of at least one element has no match where there is none. -/
theorem first_many1_neg {p : α → Bool} {s : List α} (h : s.takeWhile p = []) :
    first (many1 p) s = none := by
  cases s with
  | nil => rfl
  | cons a s =>
    have ha : p a = false := by
      by_contra hpos
      rw [List.takeWhile_cons_of_pos (by simpa using hpos)] at h
      cases h
    rw [first, many1, run_seq_sym_neg ha, List.head?_nil]

/-- The preferred match of a repetition. -/
theorem first_many (p : α → Bool) (s : List α) :
    first (many p) s = some ⟨s.takeWhile p, [], s.dropWhile p⟩ := by
  obtain ⟨hs, hrun, -⟩ := greedy_many p s
  rw [first, hrun, List.head?_cons]

/-- The preferred match of a sequence, if the second part matches after the preferred match of the
first one. -/
theorem first_seq_of_first {r q : Re α} {s : List α} {h x : Hit α} (hr : first r s = some h)
    (hq : first q h.rest = some x) : first (seq r q) s = some (h.andThen x) := by
  obtain ⟨hs, hrun⟩ := List.head?_eq_some_iff.mp hr
  obtain ⟨xs, hrun'⟩ := List.head?_eq_some_iff.mp hq
  rw [first, run, hrun, List.flatMap_cons, hrun', List.map_cons, List.cons_append, List.head?_cons]

/-- The preferred match of an alternative is that of its first part, if it has one. -/
theorem first_alt (r q : Re α) (s : List α) :
    first (alt r q) s = (first r s).or (first q s) := by
  rw [first, run, List.head?_append]
  rfl

/-- The preferred match of a group captures its text. -/
theorem first_group (r : Re α) (s : List α) :
    first (group r) s =
      (first r s).map fun h => ⟨h.text, h.groups ++ [h.text], h.rest⟩ := by
  rw [first, run, List.head?_map]
  rfl

/-! ## Groups -/

/-- The number of groups of an expression, if its alternatives have the same. -/
def arity : Re α → Option ℕ
  | eps => some 0
  | sym _ => some 0
  | many _ => some 0
  | seq r q => r.arity.bind fun m => q.arity.map fun n => m + n
  | alt r q => if r.arity = q.arity then r.arity else none
  | group r => r.arity.map (· + 1)

/-- A text has no groups. -/
theorem arity_lit [DecidableEq α] (w : List α) : (lit w).arity = some 0 := by
  induction w with
  | nil => rfl
  | cons a w ih =>
    rw [lit, arity, ih]
    rfl

/-- A match of a repetition captures nothing. -/
theorem groups_of_mem_runMany {p : α → Bool} {s : List α} {h : Hit α} (hh : h ∈ runMany p s) :
    h.groups = [] := by
  induction s generalizing h with
  | nil =>
    rw [runMany, List.mem_singleton] at hh
    rw [hh]
  | cons a s ih =>
    unfold runMany at hh
    split_ifs at hh with hp
    · rcases List.mem_append.mp hh with hh | hh
      · obtain ⟨h', hh', rfl⟩ := List.mem_map.mp hh
        have hgroups : h'.groups = [] := ih hh'
        exact hgroups
      · rw [List.mem_singleton.mp hh]
    · rw [List.mem_singleton.mp hh]

/-- A match captures once for each group. -/
theorem length_groups {r : Re α} {n : ℕ} (hr : r.arity = some n) {s : List α} {h : Hit α}
    (hh : h ∈ run r s) : h.groups.length = n := by
  induction r generalizing n s h with
  | eps =>
    cases hr
    rw [List.mem_singleton.mp hh]
    rfl
  | sym p =>
    cases hr
    cases s with
    | nil => cases hh
    | cons a s =>
      unfold run at hh
      split_ifs at hh
      · rw [List.mem_singleton.mp hh]
        rfl
      · cases hh
  | many p =>
    cases hr
    rw [groups_of_mem_runMany hh, List.length_nil]
  | seq r q ihr ihq =>
    obtain ⟨m, hm, hr⟩ := Option.bind_eq_some_iff.mp hr
    obtain ⟨n', hn, rfl⟩ := Option.map_eq_some_iff.mp hr
    obtain ⟨h1, hh1, hh⟩ := List.mem_flatMap.mp hh
    obtain ⟨h2, hh2, rfl⟩ := List.mem_map.mp hh
    rw [Hit.andThen, List.length_append, ihr hm hh1, ihq hn hh2]
  | alt r q ihr ihq =>
    -- Both branches have the same number of groups.
    unfold arity at hr
    split_ifs at hr with heq
    rcases List.mem_append.mp hh with hh | hh
    · exact ihr hr hh
    · exact ihq (heq ▸ hr) hh
  | group r ih =>
    obtain ⟨m, hm, rfl⟩ := Option.map_eq_some_iff.mp hr
    -- A group is one more than those inside it.
    obtain ⟨h', hh', rfl⟩ := List.mem_map.mp hh
    rw [List.length_append, ih hm hh', List.length_singleton]

/-! ## Leftmost matches -/

/-- A search takes a match at the front. -/
theorem search_of_first {r : Re α} {s : List α} {h : Hit α} (hh : first r s = some h) :
    search r s = some ([], h) := by
  cases s with
  | nil => rw [search, hh]; rfl
  | cons a s => rw [search, hh]

/-- A search passes over an element where no match starts. -/
theorem search_cons {r : Re α} {a : α} {s : List α} (h : first r (a :: s) = none) :
    search r (a :: s) = (search r s).map fun x => (a :: x.1, x.2) := by
  rw [search, h]

/-- A search passes over a stretch where no match starts. -/
theorem search_skip {r : Re α} {u v : List α}
    (h : ∀ u', u' <:+ u → u' ≠ [] → first r (u' ++ v) = none) :
    search r (u ++ v) = (search r v).map fun x => (u ++ x.1, x.2) := by
  induction u with
  | nil => simp
  | cons a u ih =>
    have hrest := ih fun u' hu' hne => h u' (hu'.trans (List.suffix_cons a u)) hne
    have hhead := h (a :: u) List.suffix_rfl (by simp)
    rw [List.cons_append] at hhead ⊢
    rw [search_cons hhead, hrest, Option.map_map]
    rfl

/-- A search splits the text. -/
theorem append_of_search {r : Re α} {s : List α} {x : List α × Hit α}
    (h : search r s = some x) : x.1 ++ (x.2.text ++ x.2.rest) = s := by
  induction s generalizing x with
  | nil =>
    obtain ⟨h', hh', rfl⟩ := Option.map_eq_some_iff.mp h
    exact text_append_rest_of_first hh'
  | cons a s ih =>
    cases hfirst : first r (a :: s) with
    | some h' =>
      rw [search_of_first hfirst] at h
      cases h
      exact text_append_rest_of_first hfirst
    | none =>
      rw [search_cons hfirst] at h
      obtain ⟨y, hy, rfl⟩ := Option.map_eq_some_iff.mp h
      rw [List.cons_append, ih hy]

/-- Taking all matches passes over an element where none starts. -/
theorem findAll_cons {r : Re α} {a : α} {s : List α} (h : first r (a :: s) = none) :
    findAll r (a :: s) = findAll r s := by
  rw [findAll, h]

/-- Taking all matches passes over a stretch where none starts. -/
theorem findAll_skip {r : Re α} {u v : List α}
    (h : ∀ u', u' <:+ u → u' ≠ [] → first r (u' ++ v) = none) :
    findAll r (u ++ v) = findAll r v := by
  induction u with
  | nil => rfl
  | cons a u ih =>
    have hhead := h (a :: u) List.suffix_rfl (by simp)
    rw [List.cons_append] at hhead ⊢
    rw [findAll_cons hhead]
    exact ih fun u' hu' hne => h u' (hu'.trans (List.suffix_cons a u)) hne

/-- Taking all matches takes one that starts at the front, and goes on after it. -/
theorem findAll_of_first {r : Re α} {s : List α} {h : Hit α} (hh : first r s = some h)
    (hne : h.text ≠ []) : findAll r s = h :: findAll r h.rest := by
  have hlt : h.rest.length < s.length := by
    have hpos := List.length_pos_iff.mpr hne
    rw [← text_append_rest_of_first hh, List.length_append]
    omega
  rw [findAll.eq_def, hh]
  simp only [dif_pos hlt]

/-! ## Deleting the matches -/

/-- A text without the given matches, which are in order: what stands before each of them, and what
stands after the last one. -/
def cut : List (Hit α) → List α → List α
  | [], s => s
  | h :: hs, s => s.take (s.length - (h.text ++ h.rest).length) ++ cut hs h.rest

/-- A text without all matches. -/
def deleteAll (r : Re α) (s : List α) : List α := cut (findAll r s) s

/-- The first of all matches, and what follows it, are the end of the text. -/
theorem suffix_of_findAll_cons {r : Re α} {s : List α} {h : Hit α} {hs : List (Hit α)}
    (hh : findAll r s = h :: hs) : h.text ++ h.rest <:+ s := by
  induction s with
  | nil =>
    rw [findAll] at hh
    cases hfirst : first r [] with
    | none =>
      rw [hfirst] at hh
      cases hh
    | some h' =>
      rw [hfirst] at hh
      cases hh
      exact ⟨[], text_append_rest_of_first hfirst⟩
  | cons a s ih =>
    cases hfirst : first r (a :: s) with
    | none =>
      rw [findAll_cons hfirst] at hh
      exact (ih hh).trans (List.suffix_cons a s)
    | some h' =>
      -- The search goes on after the match, or one character on after an empty one.
      have hhead : h' = h := by
        rw [findAll, hfirst] at hh
        simp only at hh
        split_ifs at hh
        · exact (List.cons.inj hh).1
        · exact (List.cons.inj hh).1
      rw [← hhead]
      exact ⟨[], text_append_rest_of_first hfirst⟩

/-- An element where no match starts is kept. -/
theorem deleteAll_cons {r : Re α} {a : α} {s : List α} (h : first r (a :: s) = none) :
    deleteAll r (a :: s) = a :: deleteAll r s := by
  rw [deleteAll, deleteAll, findAll_cons h]
  cases hs : findAll r s with
  | nil => rfl
  | cons h' hs' =>
    have hle := (suffix_of_findAll_cons hs).length_le
    rw [cut, cut, List.length_cons, Nat.sub_add_comm hle, List.take_succ_cons, List.cons_append]

/-- A stretch where no match starts is kept. -/
theorem deleteAll_skip {r : Re α} {u v : List α}
    (h : ∀ u', u' <:+ u → u' ≠ [] → first r (u' ++ v) = none) :
    deleteAll r (u ++ v) = u ++ deleteAll r v := by
  induction u with
  | nil => rfl
  | cons a u ih =>
    have hhead := h (a :: u) List.suffix_rfl (List.cons_ne_nil a u)
    rw [List.cons_append] at hhead
    rw [List.cons_append, deleteAll_cons hhead, List.cons_append,
      ih fun u' hu' hne => h u' (hu'.trans (List.suffix_cons a u)) hne]

/-- A match at the front is deleted. -/
theorem deleteAll_of_first {r : Re α} {s : List α} {h : Hit α} (hh : first r s = some h)
    (hne : h.text ≠ []) : deleteAll r s = deleteAll r h.rest := by
  rw [deleteAll, deleteAll, findAll_of_first hh hne, cut, text_append_rest_of_first hh,
    Nat.sub_self, List.take_zero, List.nil_append]

/-- A text without a match keeps everything. -/
theorem deleteAll_of_search {r : Re α} {s : List α} (h : search r s = none) :
    deleteAll r s = s := by
  induction s with
  | nil =>
    have hfirst : first r [] = none := Option.map_eq_none_iff.mp h
    rw [deleteAll, findAll, hfirst, cut]
  | cons a s ih =>
    cases hfirst : first r (a :: s) with
    | some h' =>
      rw [search_of_first hfirst] at h
      cases h
    | none =>
      rw [search_cons hfirst, Option.map_eq_none_iff] at h
      rw [deleteAll_cons hfirst, ih h]

end Re

end Uscan
