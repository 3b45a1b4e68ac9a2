import Mathlib.Tactic.Common
import Mathlib.Data.UInt

/-!
# Outcomes of a call that can fail or panic

A Rust call returns a value, returns an error through `?`, or panics. `Res ε α` has one constructor
for each, so that a model says of every index, slice and addition whether it can panic, instead of
leaving the panic out. `Res.Safe` is the pre- and postcondition form of "returns normally": its
rules go through a `do` block one step at a time, and `Res.Safe.ne_panicked` reads the absence of a
panic off the end. `Res.Yields` is the form without the absence of a panic.

A function without an error result is a `Res Empty`.
-/

namespace Uscan

/-- How a call ends: with a value, with an error, or in a panic. -/
inductive Res (ε α : Type) where
  /-- The call returns `a`. -/
  | ok (a : α)
  /-- The call returns the error `e`, as `?` propagates it. -/
  | err (e : ε)
  /-- The call panics: an index or a slice out of range, or an overflow. -/
  | panicked
  deriving DecidableEq, Repr

namespace Res

variable {ε α β γ : Type}

/-- Sequencing: an error and a panic end the block. -/
def bind (x : Res ε α) (f : α → Res ε β) : Res ε β :=
  match x with
  | ok a => f a
  | err e => err e
  | panicked => panicked

instance : Monad (Res ε) where
  pure := ok
  bind := bind

@[simp] theorem pure_eq (a : α) : (pure a : Res ε α) = ok a := rfl
@[simp] theorem ok_bind (a : α) (f : α → Res ε β) : (ok a >>= f) = f a := rfl
@[simp] theorem err_bind (e : ε) (f : α → Res ε β) : (err e >>= f) = err e := rfl
@[simp] theorem panicked_bind (f : α → Res ε β) : ((panicked : Res ε α) >>= f) = panicked := rfl

instance : LawfulMonad (Res ε) :=
  LawfulMonad.mk' _ (fun x => by cases x <;> rfl) (fun _ _ => rfl)
    (fun x _ _ => by cases x <;> rfl)

@[simp] theorem map_ok (f : α → β) (a : α) : (f <$> (ok a : Res ε α)) = ok (f a) := rfl

/-- A block returns a value exactly when each of its steps does. -/
theorem bind_eq_ok {x : Res ε α} {f : α → Res ε β} {b : β} :
    (x >>= f) = ok b ↔ ∃ a, x = ok a ∧ f a = ok b := by
  cases x <;> simp

/-- A block ends in an error if its first step does, or if it returns a value from which the rest
ends in an error. -/
theorem exists_err_bind {x : Res ε α} {a : α} {f : α → Res ε β} {p : Prop}
    (hx : (∃ e, x = err e) ∨ x = ok a ∧ p) (hf : p → ∃ e, f a = err e) :
    ∃ e, (x >>= f) = err e := by
  rcases hx with ⟨e, rfl⟩ | ⟨rfl, hp⟩
  · exact ⟨e, rfl⟩
  · exact hf hp

/-! ## Normal return -/

/-- The call does not panic, and a value that it returns satisfies `P`. -/
def Safe (x : Res ε α) (P : α → Prop) : Prop :=
  match x with
  | ok a => P a
  | err _ => True
  | panicked => False

@[simp] theorem safe_ok {a : α} {P : α → Prop} : (ok a : Res ε α).Safe P ↔ P a := Iff.rfl
@[simp] theorem safe_err {e : ε} {P : α → Prop} : (err e : Res ε α).Safe P := trivial
@[simp] theorem not_safe_panicked {P : α → Prop} : ¬ (panicked : Res ε α).Safe P := id

/-- The rule of sequencing: the second call may rely on what the first one established. -/
theorem Safe.bind {x : Res ε α} {f : α → Res ε β} {P : α → Prop} {Q : β → Prop}
    (hx : x.Safe P) (hf : ∀ a, P a → (f a).Safe Q) : (x >>= f).Safe Q := by
  cases x with
  | ok a => exact hf a hx
  | err e => trivial
  | panicked => exact hx

/-- The rule of consequence. -/
theorem Safe.mono {x : Res ε α} {P Q : α → Prop} (hx : x.Safe P) (h : ∀ a, P a → Q a) :
    x.Safe Q := by
  cases x with
  | ok a => exact h a hx
  | err e => trivial
  | panicked => exact hx

/-- The postcondition may name the call that returned the value. -/
theorem Safe.with_eq {x : Res ε α} {P : α → Prop} (hx : x.Safe P) :
    x.Safe fun a => x = ok a ∧ P a := by
  cases x with
  | ok a => exact ⟨rfl, hx⟩
  | err e => trivial
  | panicked => exact hx

/-- A call that returns is safe, if its value satisfies the postcondition. -/
theorem safe_of_eq_ok {x : Res ε α} {a : α} {P : α → Prop} (hx : x = ok a) (h : P a) : x.Safe P :=
  hx ▸ h

/-- A safe call does not panic. -/
theorem Safe.ne_panicked {x : Res ε α} {P : α → Prop} (hx : x.Safe P) : x ≠ panicked := by
  rintro rfl
  exact hx

/-- A safe call returns a value that satisfies its postcondition, or an error. -/
theorem Safe.ok_or_err {x : Res ε α} {P : α → Prop} (hx : x.Safe P) :
    (∃ a, x = ok a ∧ P a) ∨ ∃ e, x = err e := by
  cases x with
  | ok a => exact .inl ⟨a, rfl, hx⟩
  | err e => exact .inr ⟨e, rfl⟩
  | panicked => exact hx.elim

/-! ## Partial correctness -/

/-- A value that the call returns, if it returns one, satisfies `P`. -/
def Yields (x : Res ε α) (P : α → Prop) : Prop := ∀ a, x = ok a → P a

/-- A value that is returned. -/
theorem yields_ok {a : α} {P : α → Prop} (h : P a) : (ok a : Res ε α).Yields P := by
  rintro _ ⟨⟩
  exact h

/-- A safe call yields what satisfies its postcondition. -/
theorem Safe.yields {x : Res ε α} {P : α → Prop} (hx : x.Safe P) : x.Yields P := by
  rintro a rfl
  exact hx

/-- A call that returns a value is safe, if the value it yields satisfies the postcondition. -/
theorem Yields.safe {x : Res ε α} {P : α → Prop} (hx : x.Yields P) (hok : ∃ a, x = ok a) :
    x.Safe P := by
  obtain ⟨a, ha⟩ := hok
  exact safe_of_eq_ok ha (hx a ha)

/-- The rule of sequencing, where nothing is known of the first call. -/
theorem Yields.bind {x : Res ε α} {f : α → Res ε β} {Q : β → Prop} (hf : ∀ a, (f a).Yields Q) :
    (x >>= f).Yields Q := by
  intro b hb
  obtain ⟨a, -, ha⟩ := bind_eq_ok.mp hb
  exact hf a b ha

end Res

end Uscan
