import Mathlib.Data.List.Iterate
import Uscan.Lib.Runs
import Uscan.Ports

/-!
# Runs of the provider of ports

The provider over any sequence of reservations and searches, with any answers to the trial binds.
A call only adds to the ports in use, and what it returns or reserves is in use afterwards; so all
the ports returned in a run differ, and none was in use or reserved before (`returned_fresh`).

A search draws its candidates from the pseudo-random stream. The candidates that one search examines
are a stretch of the stream that ends with the first one that fits, or after 64
(`freePortTraced_spec`). The state is written back with a port only, so a search without one leaves
the same stretch to the search after it: the searches of a run examine one stretch after the other
exactly when each search but the last has a candidate that fits (`examined_eq_stretch_iff`).
-/

namespace Uscan

open Machine (run outputs)

/-- The generator after one candidate. -/
def SplitMix64.step (rng : SplitMix64) : SplitMix64 := rng.pick.2

/-- A place of the stream is named by the generator before its candidate is drawn. These are the
next `n` places. -/
def SplitMix64.stretch (rng : SplitMix64) (n : ℕ) : List SplitMix64 := List.iterate step rng n

/-- The place of the generator comes first. -/
theorem SplitMix64.stretch_succ (rng : SplitMix64) (n : ℕ) :
    rng.stretch (n + 1) = rng :: rng.step.stretch n :=
  rfl

/-- A step adds the constant of the generator. -/
theorem SplitMix64.iterate_step_state (rng : SplitMix64) (n : ℕ) :
    (step^[n] rng).state = rng.state + UInt64.ofNat n * 0x9E3779B97F4A7C15 := by
  induction n with
  | zero => simp
  | succ n ih =>
    have hstep : ∀ rng : SplitMix64, rng.step.state = rng.state + 0x9E3779B97F4A7C15 :=
      fun _ => rfl
    rw [Function.iterate_succ_apply', hstep, ih, UInt64.ofNat_add, UInt64.add_mul, UInt64.add_assoc]
    rfl

namespace PortProvider

/-- A call of the provider: a reservation, or a search with the answers to its trial binds. -/
inductive Call where
  | reserve (ports : List UInt16)
  | freePort (trial : ℕ → UInt16 → Bool)

/-- The provider after a call. -/
def call (p : PortProvider) : Call → PortProvider
  | .reserve ports => p.reserve ports
  | .freePort trial => (p.freePort trial).2

/-- The port that a call returns, if it returns one. -/
def returnedBy (p : PortProvider) : Call → List UInt16
  | .reserve _ => []
  | .freePort trial => (p.freePort trial).1.toList

/-- The ports that the calls of a run return. -/
def returned (p : PortProvider) (calls : List Call) : List UInt16 :=
  outputs call returnedBy p calls

/-! ### The ports in use -/

/-- A reservation adds its ports to the ports in use. -/
theorem mem_used_reserve {p : PortProvider} {ports : List UInt16} {port : UInt16} :
    port ∈ (p.reserve ports).used ↔ port ∈ ports ∨ port ∈ p.used := by
  have hfold : ∀ used : Finset UInt16,
      port ∈ ports.foldl (fun used port => insert port used) used ↔ port ∈ ports ∨ port ∈ used := by
    induction ports with
    | nil => simp
    | cons first ports ih =>
      intro used
      rw [List.foldl_cons, ih, Finset.mem_insert, List.mem_cons, or_left_comm, or_assoc]
  exact hfold p.used

/-- A port that a call returns is in the range of the provider, was not in use, and is in use
afterwards. -/
theorem returnedBy_spec {p : PortProvider} {c : Call} {port : UInt16} (h : port ∈ p.returnedBy c) :
    (portMin ≤ port ∧ port ≤ portMax) ∧ port ∉ p.used ∧ port ∈ (p.call c).used := by
  cases c with
  | reserve ports => exact absurd h List.not_mem_nil
  | freePort trial =>
    obtain ⟨found, state, hfree, hmin, hmax, hused⟩ | hfree := p.freePort_spec trial
    · rw [returnedBy, hfree] at h
      obtain rfl : port = found := List.mem_singleton.mp h
      rw [call, hfree]
      exact ⟨⟨hmin, hmax⟩, hused, Finset.mem_insert_self port p.used⟩
    · rw [returnedBy, hfree] at h
      exact absurd h List.not_mem_nil

/-- A call returns one port at most. -/
theorem nodup_returnedBy (p : PortProvider) (c : Call) : (p.returnedBy c).Nodup := by
  cases c with
  | reserve ports => exact List.nodup_nil
  | freePort trial =>
    change (p.freePort trial).1.toList.Nodup
    cases (p.freePort trial).1 with
    | none => exact List.nodup_nil
    | some port => exact List.nodup_singleton port

/-- A port in use stays in use. -/
theorem mem_used_call (p : PortProvider) (c : Call) (port : UInt16) (h : port ∈ p.used) :
    port ∈ (p.call c).used := by
  cases c with
  | reserve ports => exact mem_used_reserve.mpr (.inr h)
  | freePort trial =>
    obtain ⟨found, state, hfree, -⟩ | hfree := p.freePort_spec trial
    · rw [call, hfree]
      exact Finset.mem_insert_of_mem h
    · rw [call, hfree]
      exact h

/-- A port that a run reserves is in use at its end. -/
theorem mem_used_run {p : PortProvider} {calls : List Call} {ports : List UInt16} {port : UInt16}
    (hcall : .reserve ports ∈ calls) (hport : port ∈ ports) : port ∈ (run call p calls).used := by
  obtain ⟨pre, post, rfl⟩ := List.append_of_mem hcall
  rw [Machine.run_append, Machine.run_cons]
  have hreserved : port ∈ ((run call p pre).call (.reserve ports)).used :=
    mem_used_reserve.mpr (.inl hport)
  exact Machine.run_inv (fun p c => mem_used_call p c port) hreserved post

/-- The ports that a run returns are pairwise different, in the range, and not in use at the start;
and each was not reserved before the search that returned it. -/
theorem returned_fresh (p : PortProvider) (calls : List Call) :
    (p.returned calls).Nodup ∧
      (∀ port ∈ p.returned calls, (1024 ≤ port ∧ port ≤ 65533) ∧ port ∉ p.used) ∧
      ∀ pre trial post port, calls = pre ++ .freePort trial :: post →
        ((run call p pre).freePort trial).1 = some port →
        ∀ ports, .reserve ports ∈ pre → port ∉ ports := by
  obtain ⟨hnodup, hnew⟩ := Machine.outputs_fresh mem_used_call nodup_returnedBy
    (fun p c port h => (returnedBy_spec h).2) p calls
  have hrange : ∀ port ∈ p.returned calls, portMin ≤ port ∧ port ≤ portMax :=
    Machine.outputs_forall (fun p c port h => (returnedBy_spec h).1) p calls
  refine ⟨hnodup, fun port h => ⟨hrange port h, hnew port h⟩, ?_⟩
  intro pre trial post port _ hfree ports hcall hport
  have hreturned : port ∈ (run call p pre).returnedBy (.freePort trial) := by
    rw [returnedBy, hfree]
    exact List.mem_singleton_self port
  exact (returnedBy_spec hreturned).2.1 (mem_used_run hcall hport)

/-! ### The places of the stream that the searches examine -/

/-- A candidate of a search, number `n` of it, fits: it is not in use and its trial bind
succeeds. -/
def Fits (used : Finset UInt16) (trial : ℕ → UInt16 → Bool) (n : ℕ) (rng : SplitMix64) : Prop :=
  rng.pick.1 ∉ used ∧ trial n rng.pick.1 = true

/-- One of the 64 candidates of a search fits. -/
def HasFit (p : PortProvider) (trial : ℕ → UInt16 → Bool) : Prop :=
  ∃ k < 64, Fits p.used trial k (SplitMix64.step^[k] ⟨p.state⟩)

/-- The loop of `free_port`, with the places whose candidates it examines. -/
def freePortTraced (used : Finset UInt16) (trial : ℕ → UInt16 → Bool) :
    ℕ → ℕ → SplitMix64 → List SplitMix64 × Option (UInt16 × SplitMix64)
  | 0, _, _ => ([], none)
  | left + 1, n, rng =>
    let (candidate, after) := rng.pick
    if candidate ∈ used then
      let (places, found) := freePortTraced used trial left (n + 1) after
      (rng :: places, found)
    else if trial n candidate then ([rng], some (candidate, after))
    else
      let (places, found) := freePortTraced used trial left (n + 1) after
      (rng :: places, found)

/-- One candidate of the loop, by what it meets. -/
theorem freePortTraced_succ (used : Finset UInt16) (trial : ℕ → UInt16 → Bool) (left n : ℕ)
    (rng : SplitMix64) :
    freePortTraced used trial (left + 1) n rng =
      if rng.pick.1 ∈ used then (rng :: (freePortTraced used trial left (n + 1) rng.step).1,
        (freePortTraced used trial left (n + 1) rng.step).2)
      else if trial n rng.pick.1 then ([rng], some (rng.pick.1, rng.step))
      else (rng :: (freePortTraced used trial left (n + 1) rng.step).1,
        (freePortTraced used trial left (n + 1) rng.step).2) :=
  rfl

/-- Without the places, it is the loop. -/
theorem freePortTraced_snd (used : Finset UInt16) (trial : ℕ → UInt16 → Bool) (left n : ℕ)
    (rng : SplitMix64) :
    (freePortTraced used trial left n rng).2 = freePortLoop used trial left n rng := by
  induction left generalizing n rng with
  | zero => rfl
  | succ left ih =>
    have hloop : freePortLoop used trial (left + 1) n rng =
        if rng.pick.1 ∈ used then freePortLoop used trial left (n + 1) rng.step
        else if trial n rng.pick.1 then some (rng.pick.1, rng.step)
        else freePortLoop used trial left (n + 1) rng.step := rfl
    rw [freePortTraced_succ, hloop]
    split_ifs
    · exact ih (n + 1) rng.step
    · rfl
    · exact ih (n + 1) rng.step

/-- A candidate that does not fit is examined, and the loop goes on after it. -/
theorem freePortTraced_of_not_fits {used : Finset UInt16} {trial : ℕ → UInt16 → Bool} {left n : ℕ}
    {rng : SplitMix64} (h : ¬ Fits used trial n rng) :
    freePortTraced used trial (left + 1) n rng =
      (rng :: (freePortTraced used trial left (n + 1) rng.step).1,
        (freePortTraced used trial left (n + 1) rng.step).2) := by
  rw [freePortTraced_succ]
  split_ifs with hused htrial
  · rfl
  · exact absurd ⟨hused, htrial⟩ h
  · rfl

/-- The loop examines a stretch of the stream: up to the first candidate that fits, which it takes,
or as far as it may go. -/
theorem freePortTraced_spec (used : Finset UInt16) (trial : ℕ → UInt16 → Bool) (left n : ℕ)
    (rng : SplitMix64) :
    (∃ k < left, Fits used trial (n + k) (SplitMix64.step^[k] rng) ∧
      freePortTraced used trial left n rng = (rng.stretch (k + 1),
        some ((SplitMix64.step^[k] rng).pick.1, SplitMix64.step^[k + 1] rng))) ∨
    ((∀ k < left, ¬ Fits used trial (n + k) (SplitMix64.step^[k] rng)) ∧
      freePortTraced used trial left n rng = (rng.stretch left, none)) := by
  induction left generalizing n rng with
  | zero => exact .inr ⟨fun k hk => absurd hk (Nat.not_lt_zero k), rfl⟩
  | succ left ih =>
    by_cases hfits : Fits used trial n rng
    · refine .inl ⟨0, Nat.succ_pos left, ?_, ?_⟩
      · rwa [Nat.add_zero, Function.iterate_zero_apply]
      · rw [freePortTraced_succ, if_neg hfits.1, if_pos hfits.2, Function.iterate_zero_apply,
          Function.iterate_succ_apply, Function.iterate_zero_apply, SplitMix64.stretch_succ]
        rfl
    · rw [freePortTraced_of_not_fits hfits]
      -- The search goes on with the next place, which is place 0 of the rest.
      have hshift : ∀ k, n + 1 + k = n + (k + 1) := fun k => by omega
      rcases ih (n + 1) rng.step with ⟨k, hk, hfit, hrest⟩ | ⟨hnone, hrest⟩
      · rw [hshift] at hfit
        refine .inl ⟨k + 1, Nat.succ_lt_succ hk, ?_, ?_⟩
        · rwa [Function.iterate_succ_apply]
        · have hstep : ∀ k, SplitMix64.step^[k + 1] rng = SplitMix64.step^[k] rng.step :=
            fun k => Function.iterate_succ_apply SplitMix64.step k rng
          rw [hrest, hstep, hstep, SplitMix64.stretch_succ rng]
      · refine .inr ⟨fun k hk => ?_, ?_⟩
        · cases k with
          | zero => rwa [Nat.add_zero, Function.iterate_zero_apply]
          | succ k =>
            have := hnone k (Nat.lt_of_succ_lt_succ hk)
            rwa [hshift, ← Function.iterate_succ_apply] at this
        · rw [hrest, SplitMix64.stretch_succ]

/-- The places that a call examines. -/
def examinedBy (p : PortProvider) : Call → List SplitMix64
  | .reserve _ => []
  | .freePort trial => (freePortTraced p.used trial 64 0 ⟨p.state⟩).1

/-- The places that the calls of a run examine. -/
def examined (p : PortProvider) (calls : List Call) : List SplitMix64 :=
  outputs call examinedBy p calls

/-- A search with a candidate that fits examines a stretch, and the next one starts after it. -/
theorem examinedBy_of_hasFit {p : PortProvider} {trial : ℕ → UInt16 → Bool} (h : p.HasFit trial) :
    ∃ n, p.examinedBy (.freePort trial) = SplitMix64.stretch ⟨p.state⟩ n ∧
      (⟨(p.freePort trial).2.state⟩ : SplitMix64) = SplitMix64.step^[n] ⟨p.state⟩ := by
  have hsnd := freePortTraced_snd p.used trial 64 0 ⟨p.state⟩
  rcases freePortTraced_spec p.used trial 64 0 ⟨p.state⟩ with ⟨k, _, _, htrace⟩ | ⟨hnone, _⟩
  · rw [htrace] at hsnd
    refine ⟨k + 1, ?_, ?_⟩
    · rw [examinedBy, htrace]
    · rw [freePort, ← hsnd]
  · obtain ⟨k, hk, hfit⟩ := h
    have := hnone k hk
    rw [Nat.zero_add] at this
    exact absurd hfit this

/-- A search without one examines 64 places and leaves the provider as it was. -/
theorem examinedBy_of_not_hasFit {p : PortProvider} {trial : ℕ → UInt16 → Bool}
    (h : ¬ p.HasFit trial) :
    p.examinedBy (.freePort trial) = SplitMix64.stretch ⟨p.state⟩ 64 ∧
      (p.freePort trial).2 = p := by
  have hsnd := freePortTraced_snd p.used trial 64 0 ⟨p.state⟩
  rcases freePortTraced_spec p.used trial 64 0 ⟨p.state⟩ with ⟨k, hk, hfit, _⟩ | ⟨_, htrace⟩
  · rw [Nat.zero_add] at hfit
    exact absurd ⟨k, hk, hfit⟩ h
  · rw [htrace] at hsnd
    refine ⟨?_, ?_⟩
    · rw [examinedBy, htrace]
    · rw [freePort, ← hsnd]

/-- A search returns a port exactly when one of its candidates fits. -/
theorem isSome_freePort_iff (p : PortProvider) (trial : ℕ → UInt16 → Bool) :
    (p.freePort trial).1.isSome ↔ p.HasFit trial := by
  have hsnd := freePortTraced_snd p.used trial 64 0 ⟨p.state⟩
  rcases freePortTraced_spec p.used trial 64 0 ⟨p.state⟩ with
    ⟨k, hk, hfit, htrace⟩ | ⟨hnone, htrace⟩
  · rw [htrace] at hsnd
    rw [Nat.zero_add] at hfit
    have hfree : (p.freePort trial).1 = some (SplitMix64.step^[k] ⟨p.state⟩).pick.1 := by
      rw [freePort, ← hsnd]
    rw [hfree]
    exact iff_of_true Option.isSome_some ⟨k, hk, hfit⟩
  · rw [htrace] at hsnd
    have hfree : (p.freePort trial).1 = none := by rw [freePort, ← hsnd]
    rw [hfree]
    refine iff_of_false Bool.false_ne_true ?_
    rintro ⟨k, hk, hfit⟩
    have := hnone k hk
    rw [Nat.zero_add] at this
    exact this hfit

/-- A search examines the place of its state first, whether or not it fits. -/
theorem examinedBy_head (p : PortProvider) (trial : ℕ → UInt16 → Bool) :
    ∃ places, p.examinedBy (.freePort trial) = ⟨p.state⟩ :: places := by
  by_cases hfits : Fits p.used trial 0 ⟨p.state⟩
  · rw [examinedBy, freePortTraced_succ, if_neg hfits.1, if_pos hfits.2]
    exact ⟨_, rfl⟩
  · rw [examinedBy, freePortTraced_of_not_fits hfits]
    exact ⟨_, rfl⟩

/-- A run with a search examines the place of its first state first. -/
theorem examined_head {p : PortProvider} {calls : List Call}
    (h : ∃ trial, .freePort trial ∈ calls) : ∃ rest, p.examined calls = ⟨p.state⟩ :: rest := by
  induction calls generalizing p with
  | nil =>
    obtain ⟨trial, htrial⟩ := h
    exact absurd htrial List.not_mem_nil
  | cons c calls ih =>
    cases c with
    | reserve ports =>
      obtain ⟨trial, htrial⟩ := h
      obtain htrial | htrial := List.mem_cons.mp htrial
      · cases htrial
      · exact ih ⟨trial, htrial⟩
    | freePort trial =>
      obtain ⟨places, hplaces⟩ := p.examinedBy_head trial
      refine ⟨places ++ (p.call (.freePort trial)).examined calls, ?_⟩
      rw [examined, outputs, hplaces]
      rfl

/-- Without a search, a run examines nothing. -/
theorem examined_eq_nil {p : PortProvider} {calls : List Call}
    (h : ¬ ∃ trial, .freePort trial ∈ calls) : p.examined calls = [] := by
  induction calls generalizing p with
  | nil => rfl
  | cons c calls ih =>
    cases c with
    | reserve ports =>
      exact ih fun ⟨trial, htrial⟩ => h ⟨trial, List.mem_cons_of_mem _ htrial⟩
    | freePort trial => exact absurd ⟨trial, List.mem_cons_self⟩ h

/-- Every search of a run that has a search after it has a candidate that fits. -/
def EarlierFit : PortProvider → List Call → Prop
  | _, [] => True
  | p, .reserve ports :: calls => EarlierFit (p.reserve ports) calls
  | p, .freePort trial :: calls =>
    ((∃ later, .freePort later ∈ calls) → p.HasFit trial) ∧ EarlierFit (p.freePort trial).2 calls

/-- After 64 steps, the generator is at another place. -/
theorem iterate_step_ne (rng : SplitMix64) : SplitMix64.step^[64] rng ≠ rng := by
  intro h
  have hstate := rng.iterate_step_state 64
  rw [h] at hstate
  have hzero : UInt64.ofNat 64 * 0x9E3779B97F4A7C15 = 0 := by
    have := congrArg (· - rng.state) hstate
    simpa using this.symm
  exact absurd hzero (by decide)

/-- The searches of a run examine consecutive stretches of the stream from the first state exactly
when each of them but the last has a candidate that fits. -/
theorem examined_eq_stretch_iff (p : PortProvider) (calls : List Call) :
    p.examined calls = SplitMix64.stretch ⟨p.state⟩ (p.examined calls).length ↔
      p.EarlierFit calls := by
  induction calls generalizing p with
  | nil => exact iff_of_true rfl trivial
  | cons c calls ih =>
    cases c with
    | reserve ports => exact ih (p.reserve ports)
    | freePort trial =>
      have hsplit : p.examined (.freePort trial :: calls) =
        p.examinedBy (.freePort trial) ++ (p.freePort trial).2.examined calls := rfl
      by_cases hfit : p.HasFit trial
      · -- The rest of the run starts where the search stopped.
        obtain ⟨n, hplaces, hstate⟩ := examinedBy_of_hasFit hfit
        have hrest := ih (p.freePort trial).2
        rw [hstate] at hrest
        have hlength : (SplitMix64.stretch ⟨p.state⟩ n).length = n := List.length_iterate _ _ _
        rw [hsplit, hplaces, List.length_append, hlength, SplitMix64.stretch,
          SplitMix64.stretch, List.iterate_add, List.append_cancel_left_eq, EarlierFit]
        exact hrest.trans (and_iff_right fun _ => hfit).symm
      · obtain ⟨hplaces, hsame⟩ := examinedBy_of_not_hasFit hfit
        -- The provider is as it was, although 64 places have been examined.
        have hlength : (SplitMix64.stretch ⟨p.state⟩ 64).length = 64 := List.length_iterate _ _ _
        rw [hsplit, hplaces, hsame, EarlierFit, hsame]
        by_cases hlater : ∃ later, .freePort later ∈ calls
        · -- A search after it examines the first place of the 64 again.
          refine iff_of_false (fun heq => ?_) (fun h => hfit (h.1 hlater))
          obtain ⟨rest, hrest⟩ := examined_head (p := p) hlater
          rw [hrest, List.length_append, hlength, List.length_cons, SplitMix64.stretch,
            SplitMix64.stretch, List.iterate_add, List.append_cancel_left_eq] at heq
          exact iterate_step_ne _ (List.cons.inj heq).1.symm
        · have hnone : EarlierFit p calls := by
            have := ih p
            rw [examined_eq_nil hlater] at this
            exact this.mp rfl
          rw [examined_eq_nil hlater, List.append_nil, hlength]
          exact iff_of_true rfl ⟨fun h => absurd h hlater, hnone⟩

/-- A search that fails twice examines the same 64 places twice. -/
theorem examined_again :
    examined ⟨∅, 0xC0FFEE⟩ [.freePort fun _ _ => false, .freePort fun _ _ => false] ≠
      SplitMix64.stretch ⟨0xC0FFEE⟩
        (examined ⟨∅, 0xC0FFEE⟩
          [.freePort fun _ _ => false, .freePort fun _ _ => false]).length := by
  decide +kernel

end PortProvider

end Uscan
