import Mathlib.Data.List.Basic
import Mathlib.Order.Basic

/-!
# Interleavings

A loop over items of several kinds, in any monad, so that a step may also end the loop. Where steps
of different kinds change places without effect, the loop depends on the order of the items only
through the order within each kind (`Commutes.foldlM_eq`): items of different kinds may be
interleaved in any way. Items without a kind are those that no step looks at.
-/

namespace Uscan

variable {ι κ σ : Type} {m : Type → Type} [Monad m] [LawfulMonad m]

/-- Steps of different kinds change places, and a step of no kind does nothing. -/
structure Commutes (kind : ι → Option κ) (step : σ → ι → m σ) : Prop where
  /-- Two steps of different kinds. -/
  swap : ∀ s i j, kind i ≠ none → kind j ≠ none → kind i ≠ kind j →
    (step s i >>= fun s => step s j) = (step s j >>= fun s => step s i)
  /-- A step of no kind. -/
  skip : ∀ s i, kind i = none → step s i = pure s

variable {kind : ι → Option κ} {step : σ → ι → m σ}

/-- Items of no kind can be left out. -/
theorem Commutes.foldlM_filter (h : Commutes kind step) (l : List ι) (s : σ) :
    (l.filter fun i => (kind i).isSome).foldlM step s = l.foldlM step s := by
  rw [List.foldlM_filter]
  congr 1
  funext s i
  split_ifs with hi
  · rfl
  · rw [h.skip s i (by simpa using hi)]

/-- An item moves to the front over items of other kinds. -/
theorem Commutes.foldlM_bubble (h : Commutes kind step) {i : ι} (hi : kind i ≠ none) {u : List ι}
    (hu : ∀ j ∈ u, kind j ≠ none ∧ kind j ≠ kind i) (v : List ι) (s : σ) :
    (u ++ i :: v).foldlM step s = (i :: (u ++ v)).foldlM step s := by
  induction u generalizing s with
  | nil => rfl
  | cons j u ih =>
    obtain ⟨hj, hne⟩ := hu j List.mem_cons_self
    have ih := ih fun j' hj' => hu j' (List.mem_cons_of_mem j hj')
    calc (j :: u ++ i :: v).foldlM step s
        = step s j >>= fun s => (u ++ i :: v).foldlM step s := List.foldlM_cons
      _ = step s j >>= fun s => step s i >>= fun s => (u ++ v).foldlM step s := by
          simp only [ih, List.foldlM_cons]
      _ = (step s j >>= fun s => step s i) >>= fun s => (u ++ v).foldlM step s :=
          (bind_assoc ..).symm
      _ = (step s i >>= fun s => step s j) >>= fun s => (u ++ v).foldlM step s := by
          rw [h.swap s j i hj hi hne]
      _ = (i :: (j :: u ++ v)).foldlM step s := by
          simp only [bind_assoc, List.cons_append, List.foldlM_cons]

/-- A list with an item of a kind starts with items of other kinds and the first one of it. -/
theorem exists_first_of_filter [DecidableEq κ] {l t : List ι} {i : ι} {k : κ}
    (h : (l.filter fun j => kind j = some k) = i :: t) :
    ∃ u v, l = u ++ i :: v ∧ ∀ j ∈ u, kind j ≠ some k := by
  induction l with
  | nil => cases h
  | cons j l ih =>
    by_cases hj : kind j = some k
    · rw [List.filter_cons_of_pos (by simpa using hj)] at h
      obtain ⟨rfl, -⟩ := List.cons.inj h
      exact ⟨[], l, rfl, by simp⟩
    · rw [List.filter_cons_of_neg (by simpa using hj)] at h
      obtain ⟨u, v, rfl, hu⟩ := ih h
      exact ⟨j :: u, v, rfl, List.forall_mem_cons.mpr ⟨hj, hu⟩⟩

/-- The items of a kind after the first one of another list is taken out of both. -/
theorem filter_kind_tail [DecidableEq κ] {i : ι} {t u v : List ι} {k : κ} (hi : kind i = some k)
    (hu : ∀ j ∈ u, kind j ≠ some k)
    (hsub : ∀ k, ((i :: t).filter fun j => kind j = some k) =
      (u ++ i :: v).filter fun j => kind j = some k) (k' : κ) :
    (t.filter fun j => kind j = some k') = (u ++ v).filter fun j => kind j = some k' := by
  have hsub := hsub k'
  rw [List.filter_append] at hsub ⊢
  by_cases hk : kind i = some k'
  · -- No item of the kind of `i` stands before it.
    obtain rfl : k = k' := Option.some.inj (hi.symm.trans hk)
    have hnone : (u.filter fun j => kind j = some k) = [] := by
      rw [List.filter_eq_nil_iff]
      intro j hj
      simpa using hu j hj
    rw [List.filter_cons_of_pos (by simpa using hk), List.filter_cons_of_pos (by simpa using hk),
      hnone, List.nil_append] at hsub
    rw [hnone, List.nil_append]
    exact (List.cons.inj hsub).2
  · rwa [List.filter_cons_of_neg (by simpa using hk), List.filter_cons_of_neg (by simpa using hk)]
      at hsub

/-- The loop over two lists of items that have a kind. -/
theorem Commutes.foldlM_eq_of_kinds [DecidableEq κ] (h : Commutes kind step) {l l' : List ι}
    (hl : ∀ i ∈ l, kind i ≠ none) (hl' : ∀ i ∈ l', kind i ≠ none)
    (hsub : ∀ k, (l.filter fun i => kind i = some k) = l'.filter fun i => kind i = some k) (s : σ) :
    l.foldlM step s = l'.foldlM step s := by
  induction l generalizing l' s with
  | nil =>
    -- An item of the other list would have a kind.
    have hnil : l' = [] := by
      rw [List.eq_nil_iff_forall_not_mem]
      intro i hi
      obtain ⟨k, hk⟩ := Option.ne_none_iff_exists'.mp (hl' i hi)
      have hmem : i ∈ l'.filter fun i => kind i = some k :=
        List.mem_filter.mpr ⟨hi, by simpa using hk⟩
      rw [← hsub k] at hmem
      cases hmem
    rw [hnil]
  | cons i t ih =>
    obtain ⟨hi, ht⟩ := List.forall_mem_cons.mp hl
    obtain ⟨k, hk⟩ := Option.ne_none_iff_exists'.mp hi
    have hfirst : (l'.filter fun j => kind j = some k) =
        i :: t.filter fun j => kind j = some k := by
      rw [← hsub k, List.filter_cons_of_pos (by simpa using hk)]
    obtain ⟨u, v, rfl, hu⟩ := exists_first_of_filter hfirst
    have huv : ∀ j ∈ u ++ v, kind j ≠ none := fun j hj =>
      hl' j (by rcases List.mem_append.mp hj with hj | hj <;> simp [hj])
    -- The first item changes places with those before it in the other list.
    have hother : ∀ j ∈ u, kind j ≠ none ∧ kind j ≠ kind i := fun j hj =>
      ⟨huv j (List.mem_append_left v hj), hk ▸ hu j hj⟩
    rw [h.foldlM_bubble hi hother, List.foldlM_cons, List.foldlM_cons]
    congr 1
    funext s
    exact ih ht huv (filter_kind_tail hk hu hsub) s

/-- Where steps of different kinds change places, a loop is the same over two lists with the same
items of each kind in the same order. -/
theorem Commutes.foldlM_eq [DecidableEq κ] (h : Commutes kind step) {l l' : List ι}
    (hsub : ∀ k, (l.filter fun i => kind i = some k) = l'.filter fun i => kind i = some k) (s : σ) :
    l.foldlM step s = l'.foldlM step s := by
  have hkinds (l : List ι) : ∀ i ∈ l.filter fun i => (kind i).isSome, kind i ≠ none := by
    intro i hi
    exact Option.isSome_iff_ne_none.mp (List.mem_filter.mp hi).2
  have hfilter (l : List ι) (k : κ) :
      ((l.filter fun i => (kind i).isSome).filter fun i => kind i = some k) =
        l.filter fun i => kind i = some k := by
    rw [List.filter_filter]
    apply List.filter_congr
    intro i _
    cases hi : kind i <;> simp
  rw [← h.foldlM_filter l, ← h.foldlM_filter l']
  exact h.foldlM_eq_of_kinds (hkinds l) (hkinds l') (fun k => by rw [hfilter, hfilter, hsub k]) s

/-- The same for a loop that never ends early. -/
theorem foldl_eq_of_commutes [DecidableEq κ] {step : σ → ι → σ}
    (h : Commutes (m := Id) kind step) {l l' : List ι}
    (hsub : ∀ k, (l.filter fun i => kind i = some k) = l'.filter fun i => kind i = some k) (s : σ) :
    l.foldl step s = l'.foldl step s := by
  rw [List.foldl_eq_foldlM, List.foldl_eq_foldlM]
  exact congrArg Id.run (h.foldlM_eq hsub s)

end Uscan
