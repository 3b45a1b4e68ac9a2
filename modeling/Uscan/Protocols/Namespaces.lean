import Uscan.Protocols.Wsd

/-!
# The removal of namespaces

`remove_namespace` stands for the deletion of all matches of a regular expression, which the comment
of the source gives; it is `namespaceRe` here. The loop takes a run of name characters from a
character that starts a name. A match that starts anywhere in the run must end with the run, as its
colon is no name character: so the run is one match if a colon follows it, and has none otherwise
(`first_namespaceRe_run`). What is kept of a run is followed by no name character and no colon, now
and after later deletions, so that the result has no match (`search_removeNamespace`).
-/

namespace Uscan.Wsd

/-- `[a-zA-Z_][a-zA-Z_0-9-]*:`. -/
def namespaceRe : Re Char := .seq (.sym nameStart) (.seq (.many nameChar) (.lit [':']))

/-- Neither a name character nor a colon comes first. -/
def EndsName (v : List Char) : Prop := ∀ x ∈ v.head?, nameChar x = false ∧ x ≠ ':'

/-- A character that starts a name is a name character. -/
theorem nameChar_of_nameStart {c : Char} (h : nameStart c = true) : nameChar c = true := by
  simp only [nameStart, nameChar, asciiClass, isAsciiAlphanumeric, Bool.and_eq_true,
    Bool.or_eq_true] at h ⊢
  obtain ⟨hlt, halpha | hunder⟩ := h
  · exact ⟨hlt, .inl (.inl (.inl halpha))⟩
  · exact ⟨hlt, .inl (.inr hunder)⟩

/-! ## Where the expression matches -/

/-- A colon is no name character. -/
theorem run_colon_neg (a : Char) (s : List Char) (ha : nameChar a = true) :
    (Re.lit [':']).run (a :: s) = [] := by
  apply Re.run_lit_cons_neg
  rintro rfl
  exact absurd ha (by decide)

/-- At a character that starts a name, the expression matches the whole run if a colon follows. -/
theorem first_namespaceRe_colon {c : Char} {s rest : List Char} (hc : nameStart c = true)
    (hrest : s.dropWhile nameChar = ':' :: rest) :
    namespaceRe.first (c :: s) = some ⟨c :: (s.takeWhile nameChar ++ [':']), [], rest⟩ := by
  rw [Re.first, namespaceRe, Re.run_seq_sym_pos hc, Re.run_seq_many run_colon_neg, hrest,
    Re.run_lit_cons]
  rfl

/-- A character that starts no name starts no match. -/
theorem first_namespaceRe_cons {c : Char} (hc : ¬ nameStart c = true) (s : List Char) :
    namespaceRe.first (c :: s) = none := by
  rw [Re.first, namespaceRe, Re.run_seq_sym_neg (by simpa using hc)]
  rfl

/-- The expression does not match in a run that no colon follows. -/
theorem first_namespaceRe_neg {c : Char} {t v : List Char} (ht : ∀ x ∈ t, nameChar x = true)
    (hv : EndsName v) : namespaceRe.first (c :: (t ++ v)) = none := by
  by_cases hc : nameStart c = true
  · have hdrop : (t ++ v).dropWhile nameChar = v := by
      rw [List.dropWhile_append_of_pos ht]
      cases v with
      | nil => rfl
      | cons x v => exact List.dropWhile_cons_of_neg (by simp [(hv x rfl).1])
    have hcolon : (Re.lit [':']).run v = [] := by
      cases v with
      | nil => rfl
      | cons x v => exact Re.run_lit_cons_neg (hv x rfl).2 v
    rw [Re.first, namespaceRe, Re.run_seq_sym_pos hc, Re.run_seq_many run_colon_neg, hdrop, hcolon]
    rfl
  · exact first_namespaceRe_cons hc (t ++ v)

/-- Nor does it match at any place of such a run. -/
theorem first_namespaceRe_run {c : Char} {t v : List Char} (ht : ∀ x ∈ t, nameChar x = true)
    (hv : EndsName v) {u : List Char} (hu : u <:+ c :: t) (hne : u ≠ []) :
    namespaceRe.first (u ++ v) = none := by
  obtain ⟨x, w, rfl⟩ := List.exists_cons_of_ne_nil hne
  rcases List.suffix_cons_iff.mp hu with heq | hsuffix
  · cases heq
    exact first_namespaceRe_neg ht hv
  · have hw : ∀ y ∈ w, nameChar y = true :=
      fun y hy => ht y (hsuffix.subset (List.mem_cons_of_mem x hy))
    exact first_namespaceRe_neg hw hv

/-! ## The loop -/

/-- All characters of a run are name characters. -/
theorem nameChar_of_mem_takeWhile {s : List Char} :
    ∀ x ∈ s.takeWhile nameChar, nameChar x = true :=
  fun _ hx => List.mem_takeWhile_imp hx

/-- After a run that no colon follows, neither a name character nor a colon comes first. -/
theorem endsName_dropWhile {s : List Char} (h : ∀ rest, s.dropWhile nameChar ≠ ':' :: rest) :
    EndsName (s.dropWhile nameChar) := by
  intro x hx
  obtain ⟨rest, hrest⟩ := List.head?_eq_some_iff.mp hx
  constructor
  · have hne : s.dropWhile nameChar ≠ [] := by rw [hrest]; exact List.cons_ne_nil x rest
    have hnot := List.head_dropWhile_not nameChar hne
    simpa [hrest] using hnot
  · rintro rfl
    exact h rest hrest

/-- A run with a colon is removed. -/
theorem removeNamespace_colon {c : Char} {s rest : List Char} (hc : nameStart c = true)
    (hrest : s.dropWhile nameChar = ':' :: rest) :
    removeNamespace (c :: s) = removeNamespace rest := by
  rw [removeNamespace, if_pos hc]
  split
  · rename_i h
    cases hrest.symm.trans h
    rfl
  · rename_i h
    exact absurd hrest (h rest)

/-- A run without a colon is kept. -/
theorem removeNamespace_run {c : Char} {s : List Char} (hc : nameStart c = true)
    (hrest : ∀ rest, s.dropWhile nameChar ≠ ':' :: rest) :
    removeNamespace (c :: s) =
      c :: s.takeWhile nameChar ++ removeNamespace (s.dropWhile nameChar) := by
  rw [removeNamespace, if_pos hc]
  split
  · rename_i h
    exact absurd h (hrest _)
  · rfl

/-- A character that starts no run is kept. -/
theorem removeNamespace_cons {c : Char} (hc : ¬ nameStart c = true) (s : List Char) :
    removeNamespace (c :: s) = c :: removeNamespace s := by
  rw [removeNamespace, if_neg hc]

/-- Where neither a name character nor a colon comes first, none does after the removal. -/
theorem EndsName.removeNamespace {v : List Char} (hv : EndsName v) :
    EndsName (removeNamespace v) := by
  cases v with
  | nil =>
    rw [Wsd.removeNamespace]
    exact hv
  | cons x v =>
    have hx := hv x rfl
    have hstart : ¬ nameStart x = true := fun h =>
      Bool.false_ne_true (hx.1.symm.trans (nameChar_of_nameStart h))
    rw [removeNamespace_cons hstart]
    intro y hy
    cases hy
    exact hx

/-- Removing namespaces deletes the matches of the expression. The induction is along the loop. -/
theorem removeNamespace_eq_deleteAll (s : List Char) :
    removeNamespace s = namespaceRe.deleteAll s := by
  induction s using removeNamespace.induct with
  | case1 =>
    rw [removeNamespace, Re.deleteAll_of_search]
    rfl
  | case2 c s hc rest hrest ih =>
    have hmatch := first_namespaceRe_colon hc hrest
    rw [removeNamespace_colon hc hrest, ih,
      Re.deleteAll_of_first hmatch (List.cons_ne_nil c _)]
  | case3 c s hc hrest ih =>
    have hskip := fun u hu hne => first_namespaceRe_run (u := u) (c := c)
      (nameChar_of_mem_takeWhile (s := s)) (endsName_dropWhile hrest) hu hne
    have hkept := Re.deleteAll_skip hskip
    rw [List.cons_append, List.takeWhile_append_dropWhile] at hkept
    rw [removeNamespace_run hc hrest, ih, hkept]
  | case4 c s hc ih =>
    rw [removeNamespace_cons hc, ih, Re.deleteAll_cons (first_namespaceRe_cons hc s)]

/-- After the removal, the expression has no match: what follows a run that is kept comes first in
what is left of the rest too. -/
theorem search_removeNamespace (s : List Char) :
    namespaceRe.search (removeNamespace s) = none := by
  induction s using removeNamespace.induct with
  | case1 =>
    rw [removeNamespace]
    rfl
  | case2 c s hc rest hrest ih =>
    rw [removeNamespace_colon hc hrest]
    exact ih
  | case3 c s hc hrest ih =>
    have hskip := fun u hu hne => first_namespaceRe_run (u := u) (c := c)
      (nameChar_of_mem_takeWhile (s := s)) (endsName_dropWhile hrest).removeNamespace hu hne
    rw [removeNamespace_run hc hrest, Re.search_skip hskip, ih, Option.map_none]
  | case4 c s hc ih =>
    rw [removeNamespace_cons hc, Re.search_cons (first_namespaceRe_cons hc _), ih, Option.map_none]

/-- `remove_namespace` deletes the matches of the expression, and leaves none: a second removal
changes nothing. -/
theorem removeNamespace_exact (s : List Char) :
    removeNamespace s = namespaceRe.deleteAll s ∧
      namespaceRe.search (removeNamespace s) = none ∧
      removeNamespace (removeNamespace s) = removeNamespace s := by
  have hnone := search_removeNamespace s
  refine ⟨removeNamespace_eq_deleteAll s, hnone, ?_⟩
  rw [removeNamespace_eq_deleteAll (removeNamespace s), Re.deleteAll_of_search hnone]

end Uscan.Wsd
