import Uscan.Lib.Bytes

/-!
# Calls with a trace

A call together with what it did on the way, in order: `Traced τ ε α` is a `Res ε α` with a trace of
`τ`. A model of a function in this monad leaves the same result as the one without the trace
(`result_bind`), and says of every index that the function reads (`Traced.index`) where it lies
(`All.bind`).
-/

namespace Uscan

/-- How a call ends, and what it did before. -/
structure Traced (τ ε α : Type) where
  /-- What the call did, in order. -/
  trace : List τ
  /-- How the call ends. -/
  result : Res ε α

namespace Traced

variable {τ ε α β : Type}

/-- A call that leaves no trace. -/
def lift (x : Res ε α) : Traced τ ε α := ⟨[], x⟩

/-- Sequencing: an error and a panic end the block, with the trace so far. -/
def bind (x : Traced τ ε α) (f : α → Traced τ ε β) : Traced τ ε β :=
  match x.result with
  | .ok a => ⟨x.trace ++ (f a).trace, (f a).result⟩
  | .err e => ⟨x.trace, .err e⟩
  | .panicked => ⟨x.trace, .panicked⟩

instance : Monad (Traced τ ε) where
  pure a := lift (.ok a)
  bind := bind

/-- `b[i]`, with the index in the trace. -/
def index (b : List α) (i : ℕ) : Traced ℕ ε α := ⟨[i], Uscan.index b i⟩

@[simp] theorem result_pure (a : α) : (pure a : Traced τ ε α).result = .ok a := rfl
@[simp] theorem result_lift (x : Res ε α) : (lift x : Traced τ ε α).result = x := rfl

@[simp] theorem result_index (b : List α) (i : ℕ) :
    (index b i : Traced ℕ ε α).result = Uscan.index b i := rfl

/-- A block without its trace is the block of the calls without theirs. -/
@[simp] theorem result_bind (x : Traced τ ε α) (f : α → Traced τ ε β) :
    (x >>= f).result = x.result >>= fun a => (f a).result := by
  change (bind x f).result = _
  unfold bind
  cases x.result <;> rfl

/-- Everything in the trace of a call satisfies `P`. -/
def All (P : τ → Prop) (x : Traced τ ε α) : Prop := ∀ t ∈ x.trace, P t

theorem All.pure {P : τ → Prop} (a : α) : (Pure.pure a : Traced τ ε α).All P :=
  fun _ h => absurd h List.not_mem_nil

theorem All.lift {P : τ → Prop} (x : Res ε α) : (Traced.lift x : Traced τ ε α).All P :=
  fun _ h => absurd h List.not_mem_nil

theorem All.index {P : ℕ → Prop} (b : List α) {i : ℕ} (h : P i) :
    (Traced.index b i : Traced ℕ ε α).All P := by
  intro t ht
  rwa [List.mem_singleton.mp ht]

/-- The rule of sequencing: the second call may rely on what the first one returned. -/
theorem All.bind {P : τ → Prop} {x : Traced τ ε α} {f : α → Traced τ ε β} (hx : x.All P)
    (hf : ∀ a, x.result = .ok a → (f a).All P) : (x >>= f).All P := by
  change (Traced.bind x f).All P
  unfold Traced.bind
  split
  · rename_i a ha
    intro t ht
    rcases List.mem_append.mp ht with ht | ht
    · exact hx t ht
    · exact hf a ha t ht
  · exact hx
  · exact hx

end Traced

end Uscan
