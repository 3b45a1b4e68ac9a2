import Mathlib.Tactic.Common

/-!
# Channels

An unbounded channel hands over values in the order in which they are sent. It remembers what it has
handed over, so that what was sent through it is what has been received and what still waits
(`Fifo.sent`): a send adds to it at the end, and a receive leaves it as it is. So a receiver gets
every value once, in order, and none that was not sent.
-/

namespace Uscan

/-- A channel. -/
structure Fifo (α : Type) where
  /-- What has been received from it. -/
  received : List α
  /-- What waits in it. -/
  waiting : List α
  deriving DecidableEq, Repr

namespace Fifo

variable {α : Type}

/-- A new channel. -/
def new : Fifo α := ⟨[], []⟩

/-- Everything that was sent. -/
def sent (c : Fifo α) : List α := c.received ++ c.waiting

/-- Some values are sent. -/
def send (c : Fifo α) (xs : List α) : Fifo α := { c with waiting := c.waiting ++ xs }

/-- The first value that waits is received. -/
def recv (c : Fifo α) : Option α × Fifo α :=
  match c.waiting with
  | [] => (none, c)
  | x :: xs => (some x, ⟨c.received ++ [x], xs⟩)

/-- All values that wait are received. -/
def recvAll (c : Fifo α) : Fifo α := ⟨c.received ++ c.waiting, []⟩

@[simp] theorem sent_new : (new : Fifo α).sent = [] := rfl

@[simp] theorem received_send (c : Fifo α) (xs : List α) : (c.send xs).received = c.received := rfl

@[simp] theorem sent_send (c : Fifo α) (xs : List α) : (c.send xs).sent = c.sent ++ xs := by
  rw [sent, send, sent, List.append_assoc]

@[simp] theorem sent_recvAll (c : Fifo α) : c.recvAll.sent = c.sent := List.append_nil _

/-- A receive takes the first value that was not received before. -/
theorem recv_cases (c : Fifo α) :
    (c.recv = (none, c) ∧ c.received = c.sent) ∨
      ∃ x c', c.recv = (some x, c') ∧ c'.received = c.received ++ [x] ∧ c'.sent = c.sent := by
  obtain ⟨received, waiting⟩ := c
  cases waiting with
  | nil => exact .inl ⟨rfl, (List.append_nil received).symm⟩
  | cons x xs => exact .inr ⟨x, ⟨received ++ [x], xs⟩, rfl, rfl, by simp [sent]⟩

/-- What has been received was sent, in this order. -/
theorem received_prefix (c : Fifo α) : c.received <+: c.sent := List.prefix_append _ _

end Fifo

end Uscan
