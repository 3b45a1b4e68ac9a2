import Mathlib.Data.Finset.Insert
import Mathlib.Data.UInt
import Mathlib.Tactic.Common

/-!
# Free ports

`ports.rs`: the provider of the ports of the interface sockets. It draws candidates from a
pseudo-random stream and takes the first of 64 that is not in use and passes a trial bind; the
answers to the trial binds are the operating system's. A port that it returns is in the range of the
provider, was not in use before, and is in use afterwards; without a port, the provider stays as it
was (`PortProvider.freePort_spec`).
-/

namespace Uscan

/-- `PORT_MIN`. -/
def portMin : UInt16 := 1024

/-- `PORT_MAX`. -/
def portMax : UInt16 := 65533

/-- `SplitMix64`. -/
structure SplitMix64 where
  /-- The state of the generator. -/
  state : UInt64
  deriving DecidableEq, Repr

/-- `SplitMix64::next_u64`. -/
def SplitMix64.nextU64 (rng : SplitMix64) : UInt64 × SplitMix64 :=
  let state := rng.state + 0x9E3779B97F4A7C15
  let z := (state ^^^ (state >>> 30)) * 0xBF58476D1CE4E5B9
  let z := (z ^^^ (z >>> 27)) * 0x94D049BB133111EB
  (z ^^^ (z >>> 31), ⟨state⟩)

/-- `SplitMix64::pick`. -/
def SplitMix64.pick (rng : SplitMix64) : UInt16 × SplitMix64 :=
  let (n, rng) := rng.nextU64
  (portMin + (n % (portMax - portMin + 1).toUInt64).toUInt16, rng)

/-- A candidate is in the range of the provider. -/
theorem SplitMix64.pick_mem (rng : SplitMix64) :
    portMin ≤ rng.pick.1 ∧ rng.pick.1 ≤ portMax := by
  have hrange : (portMax - portMin + 1).toUInt64.toNat = 64510 := rfl
  have hmin : portMin.toNat = 1024 := rfl
  have hmax : portMax.toNat = 65533 := rfl
  have hlt : rng.nextU64.1.toNat % 64510 < 64510 := Nat.mod_lt _ (by omega)
  -- The sum does not wrap, as the range ends below `2^16`.
  have hpick : rng.pick.1.toNat = 1024 + rng.nextU64.1.toNat % 64510 := by
    simp only [pick, UInt16.toNat_add, UInt64.toNat_toUInt16, UInt64.toNat_mod, hrange, hmin]
    omega
  rw [UInt16.le_iff_toNat_le, UInt16.le_iff_toNat_le, hpick, hmin, hmax]
  omega

/-- `PortProvider`. -/
structure PortProvider where
  /-- The ports in use, reserved or given out. -/
  used : Finset UInt16
  /-- The state of the generator. -/
  state : UInt64
  deriving DecidableEq

namespace PortProvider

/-- `PortProvider::reserve`. -/
def reserve (p : PortProvider) (ports : List UInt16) : PortProvider :=
  { p with used := ports.foldl (fun used port => insert port used) p.used }

/-- The loop of `free_port`, with `left` candidates to go; `trial n` is the answer to the trial bind
of candidate number `n`. -/
def freePortLoop (used : Finset UInt16) (trial : ℕ → UInt16 → Bool) :
    ℕ → ℕ → SplitMix64 → Option (UInt16 × SplitMix64)
  | 0, _, _ => none
  | left + 1, n, rng =>
    let (candidate, rng) := rng.pick
    if candidate ∈ used then freePortLoop used trial left (n + 1) rng
    else if trial n candidate then some (candidate, rng)
    else freePortLoop used trial left (n + 1) rng

/-- `PortProvider::free_port`. -/
def freePort (p : PortProvider) (trial : ℕ → UInt16 → Bool) : Option UInt16 × PortProvider :=
  match freePortLoop p.used trial 64 0 ⟨p.state⟩ with
  | some (port, rng) => (some port, ⟨insert port p.used, rng.state⟩)
  | none => (none, p)

/-- A port that the loop returns is in the range and was not in use. -/
theorem freePortLoop_eq_some {used : Finset UInt16} {trial : ℕ → UInt16 → Bool} {left n : ℕ}
    {rng rng' : SplitMix64} {port : UInt16}
    (h : freePortLoop used trial left n rng = some (port, rng')) :
    portMin ≤ port ∧ port ≤ portMax ∧ port ∉ used := by
  induction left generalizing n rng with
  | zero => cases h
  | succ left ih =>
    have hmem := rng.pick_mem
    cases hpick : rng.pick with
    | mk candidate rng'' =>
      rw [hpick] at hmem
      simp only [freePortLoop, hpick] at h
      split_ifs at h with hused htrial
      · exact ih h
      · cases h
        exact ⟨hmem.1, hmem.2, hused⟩
      · exact ih h

/-- What a search of a port does: it returns one in the range that was not in use, and marks it as
used, or it returns none and changes nothing. -/
theorem freePort_spec (p : PortProvider) (trial : ℕ → UInt16 → Bool) :
    (∃ port state, p.freePort trial = (some port, ⟨insert port p.used, state⟩) ∧
      portMin ≤ port ∧ port ≤ portMax ∧ port ∉ p.used) ∨ p.freePort trial = (none, p) := by
  unfold freePort
  cases h : freePortLoop p.used trial 64 0 ⟨p.state⟩ with
  | none => exact .inr rfl
  | some found => exact .inl ⟨found.1, found.2.state, rfl, freePortLoop_eq_some h⟩

end PortProvider

end Uscan
