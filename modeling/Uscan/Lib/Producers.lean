import Uscan.Lib.Fifo
import Uscan.Lib.Runs
import Mathlib.Logic.Function.Basic

/-!
# Producers that share a channel

Some tasks each take one input after the other, make a list of values of it, and send the values
through a channel that they share. A task that fails to make values of an input ends. Between any
two sends, other tasks may send, and the receiver may receive. The tasks also share a state, which
what they make of an input depends on and which an input changes, whether its task fails or not.

Whatever the order of the steps, what a task has sent and has still to send are the values of the
inputs that it has taken, each once and in order, and it ends just where it fails (`Inv`). What each
input leaves of the shared state is what the next one finds (`Leads`), so that what no input that is
taken breaks holds for all of them (`Leads.forall`).
-/

namespace Uscan.Producers

variable {ι α β σ : Type}

/-- What a task does with an input, in a shared state. -/
structure Handler (ι α β σ : Type) where
  /-- The values that it makes of the input, unless it fails. -/
  values : ι → σ × α → Option (List β)
  /-- The shared state after it. -/
  next : ι → σ × α → σ

/-- The tasks, their channel and what they share. -/
structure State (ι β σ : Type) where
  /-- The tasks that have not ended. -/
  alive : ι → Bool
  /-- What the tasks are to send. -/
  pending : ι → List β
  /-- The channel. Each value goes with the task that sends it. -/
  channel : Fifo (ι × β)
  /-- The shared state. -/
  shared : σ

/-- A step. -/
inductive Event (ι α : Type) where
  /-- A task takes an input. -/
  | take (i : ι) (input : α)
  /-- A task sends a value. -/
  | send (i : ι)
  /-- The receiver receives a value. -/
  | receive
  deriving DecidableEq, Repr

/-- No task has taken anything. -/
def State.new (start : σ) : State ι β σ := ⟨fun _ => true, fun _ => [], .new, start⟩

/-- A task is ready for an input: it has sent everything. -/
def State.ready (s : State ι β σ) (i : ι) : Bool := s.alive i && (s.pending i).isEmpty

/-- The shared state before an input, with the input. -/
def State.with (s : State ι β σ) (input : α) : σ × α := (s.shared, input)

/-- The input that is taken in a step, with its task and the shared state before it. -/
def taken (s : State ι β σ) : Event ι α → List (ι × σ × α)
  | .take i input => if s.ready i then [(i, s.with input)] else []
  | .send _ => []
  | .receive => []

/-- Inputs, each with the shared state before it, lead from a shared state to another one. -/
def Leads (handler : Handler ι α β σ) : σ → List (ι × σ × α) → σ → Prop
  | start, [], shared => shared = start
  | start, (i, input) :: inputs, shared =>
    input.1 = start ∧ Leads handler (handler.next i input) inputs shared

/-- A further input. -/
theorem Leads.snoc {handler : Handler ι α β σ} {start shared : σ} {inputs : List (ι × σ × α)}
    (h : Leads handler start inputs shared) (i : ι) (input : α) :
    Leads handler start (inputs ++ [(i, shared, input)]) (handler.next i (shared, input)) := by
  induction inputs generalizing start with
  | nil =>
    obtain rfl := h
    exact ⟨rfl, rfl⟩
  | cons first inputs ih => exact ⟨h.1, ih h.2⟩

/-- What holds of the shared state at the start, and after every input that is taken if it holds
before it, holds before every input and at the end. -/
theorem Leads.forall {handler : Handler ι α β σ} {P : σ → Prop} {start shared : σ}
    {inputs : List (ι × σ × α)} (h : Leads handler start inputs shared)
    (hstart : P start)
    (hnext : ∀ i input, (i, input) ∈ inputs → P input.1 → P (handler.next i input)) :
    P shared ∧ ∀ i input, (i, input) ∈ inputs → P input.1 := by
  induction inputs generalizing start with
  | nil =>
    obtain rfl := h
    exact ⟨hstart, fun i input hmem => absurd hmem List.not_mem_nil⟩
  | cons first inputs ih =>
    obtain ⟨j, first⟩ := first
    obtain ⟨hfirst, hrest⟩ := h
    have hP : P first.1 := by rwa [hfirst]
    obtain ⟨hshared, hall⟩ := ih hrest (hnext j first List.mem_cons_self hP)
      fun i input hmem => hnext i input (List.mem_cons_of_mem _ hmem)
    refine ⟨hshared, fun i input hmem => ?_⟩
    rcases List.mem_cons.mp hmem with heq | hmem
    · cases heq
      exact hP
    · exact hall i input hmem

variable [DecidableEq ι]

/-- A task takes an input, which it makes some values of, or fails, and which leaves a shared
state. -/
def State.takeInput (s : State ι β σ) (i : ι) (values : Option (List β)) (shared : σ) :
    State ι β σ :=
  match values with
  | some ys => { s with pending := Function.update s.pending i ys, shared := shared }
  | none => { s with alive := Function.update s.alive i false, shared := shared }

/-- A step of the tasks. -/
def step (handler : Handler ι α β σ) (s : State ι β σ) : Event ι α → State ι β σ
  | .take i input =>
    if s.ready i then
      s.takeInput i (handler.values i (s.with input)) (handler.next i (s.with input))
    else s
  | .send i =>
    match s.pending i with
    | [] => s
    | y :: ys =>
      { s with pending := Function.update s.pending i ys, channel := s.channel.send [(i, y)] }
  | .receive => { s with channel := s.channel.recv.2 }

/-- Only a receive receives anything. -/
theorem received_take (handler : Handler ι α β σ) (s : State ι β σ) (i : ι) (input : α) :
    (step handler s (.take i input)).channel.received = s.channel.received := by
  rw [step]
  split_ifs
  · unfold State.takeInput
    split <;> rfl
  · rfl

theorem received_send (handler : Handler ι α β σ) (s : State ι β σ) (i : ι) :
    (step handler s (.send i)).channel.received = s.channel.received := by
  rw [step]
  split <;> rfl

/-- What belongs to a task. -/
def of (i : ι) {γ : Type} (xs : List (ι × γ)) : List γ := (xs.filter (·.1 = i)).map Prod.snd

@[simp] theorem of_nil (i : ι) {γ : Type} : of i ([] : List (ι × γ)) = [] := rfl

@[simp] theorem of_append (i : ι) {γ : Type} (xs ys : List (ι × γ)) :
    of i (xs ++ ys) = of i xs ++ of i ys := by
  rw [of, List.filter_append, List.map_append]
  rfl

@[simp] theorem of_singleton (i j : ι) {γ : Type} (x : γ) :
    of i [(j, x)] = if j = i then [x] else [] := by
  by_cases hij : j = i <;> simp [of, hij]

theorem mem_of {i : ι} {γ : Type} {xs : List (ι × γ)} {x : γ} : x ∈ of i xs ↔ (i, x) ∈ xs := by
  simp [of]

/-- What holds of the tasks and their channel, after some inputs have been taken. -/
structure Inv (handler : Handler ι α β σ) (start : σ) (s : State ι β σ)
    (inputs : List (ι × σ × α)) : Prop where
  /-- What a task has sent and is to send are the values of its inputs. -/
  values : ∀ i, of i s.channel.sent ++ s.pending i =
    (of i inputs).flatMap fun input => (handler.values i input).getD []
  /-- A task that has not ended has made values of all its inputs. -/
  alive : ∀ i, s.alive i = true → ∀ input ∈ of i inputs, (handler.values i input).isSome
  /-- A task that has ended has failed at its last input, and at no other one. -/
  ended : ∀ i, s.alive i = false → ∃ before input, of i inputs = before ++ [input] ∧
    handler.values i input = none ∧ ∀ input' ∈ before, (handler.values i input').isSome
  /-- The inputs have led to the shared state. -/
  leads : Leads handler start inputs s.shared

variable {handler : Handler ι α β σ} {start : σ} {s : State ι β σ} {inputs : List (ι × σ × α)}

/-- What holds before the first input. -/
theorem Inv.new (handler : Handler ι α β σ) (start : σ) :
    Inv handler start (State.new start : State ι β σ) [] where
  values i := rfl
  alive i _ input hmem := absurd hmem List.not_mem_nil
  ended i h := by cases h
  leads := rfl

/-- A task that is ready takes an input. -/
theorem Inv.takeInput (h : Inv handler start s inputs) {i : ι} (hready : s.ready i = true)
    (input : α) :
    Inv handler start
      (s.takeInput i (handler.values i (s.with input)) (handler.next i (s.with input)))
      (inputs ++ [(i, s.with input)]) := by
  obtain ⟨halive, hpending⟩ := Bool.and_eq_true_iff.mp hready
  have hpending : s.pending i = [] := List.isEmpty_iff.mp hpending
  have hall := h.alive i halive
  have hvalues := h.values i
  rw [hpending, List.append_nil] at hvalues
  have hother : ∀ j, j ≠ i → of j (inputs ++ [(i, s.with input)]) = of j inputs := by
    intro j hj
    rw [of_append, of_singleton, if_neg (Ne.symm hj), List.append_nil]
  cases hmake : handler.values i (s.with input) with
  | some ys =>
    -- The values wait behind the task, which has nothing else to send.
    refine ⟨fun j => ?_, fun j hj => ?_, fun j hj => ?_, h.leads.snoc i input⟩
    · change of j s.channel.sent ++ Function.update s.pending i ys j = _
      by_cases hji : j = i
      · subst hji
        rw [Function.update_self, of_append, of_singleton, if_pos rfl, List.flatMap_append,
          ← hvalues]
        simp [hmake]
      · rw [Function.update_of_ne hji, hother j hji]
        exact h.values j
    · by_cases hji : j = i
      · subst hji
        rw [of_append, of_singleton, if_pos rfl]
        intro x hx
        rcases List.mem_append.mp hx with hx | hx
        · exact hall x hx
        · rw [List.mem_singleton.mp hx, hmake]
          rfl
      · rw [hother j hji]
        exact h.alive j hj
    · -- The task itself has not ended.
      have hji : j ≠ i := by
        rintro rfl
        exact absurd hj (by simp [State.takeInput, halive])
      rw [hother j hji]
      exact h.ended j hj
  | none =>
    -- The task ends at this input, and makes nothing of it.
    refine ⟨fun j => ?_, fun j hj => ?_, fun j hj => ?_, h.leads.snoc i input⟩
    · change of j s.channel.sent ++ s.pending j = _
      by_cases hji : j = i
      · subst hji
        rw [of_append, of_singleton, if_pos rfl, List.flatMap_append, ← hvalues, hpending]
        simp [hmake]
      · rw [hother j hji]
        exact h.values j
    · change Function.update s.alive i false j = true at hj
      have hji : j ≠ i := by
        rintro rfl
        rw [Function.update_self] at hj
        cases hj
      rw [Function.update_of_ne hji] at hj
      rw [hother j hji]
      exact h.alive j hj
    · change Function.update s.alive i false j = false at hj
      by_cases hji : j = i
      · subst hji
        refine ⟨of j inputs, s.with input, ?_, hmake, hall⟩
        rw [of_append, of_singleton, if_pos rfl]
      · rw [Function.update_of_ne hji] at hj
        rw [hother j hji]
        exact h.ended j hj

/-- A task sends the next value. -/
theorem Inv.send (h : Inv handler start s inputs) {i : ι} {y : β} {ys : List β}
    (hpending : s.pending i = y :: ys) :
    Inv handler start { s with
      pending := Function.update s.pending i ys
      channel := s.channel.send [(i, y)] } inputs where
  values j := by
    have hvalues := h.values j
    dsimp only
    rw [Fifo.sent_send, of_append, of_singleton]
    by_cases hij : i = j
    · subst hij
      rw [hpending] at hvalues
      rw [if_pos rfl, Function.update_self, ← hvalues, List.append_assoc]
      rfl
    · rw [if_neg hij, Function.update_of_ne (Ne.symm hij), List.append_nil]
      exact hvalues
  alive := h.alive
  ended := h.ended
  leads := h.leads

/-- A receive leaves what was sent. -/
theorem Inv.receive (h : Inv handler start s inputs) :
    Inv handler start { s with channel := s.channel.recv.2 } inputs where
  values j := by
    have hsent : s.channel.recv.2.sent = s.channel.sent := by
      obtain ⟨hrecv, -⟩ | ⟨x, c, hrecv, -, hsent⟩ := s.channel.recv_cases
      · rw [hrecv]
      · rw [hrecv, hsent]
    rw [hsent]
    exact h.values j
  alive := h.alive
  ended := h.ended
  leads := h.leads

/-- Every step keeps what holds. -/
theorem Inv.step (h : Inv handler start s inputs) (e : Event ι α) :
    Inv handler start (step handler s e) (inputs ++ taken s e) := by
  cases e with
  | take i input =>
    rw [Producers.step, taken]
    split_ifs with hready
    · exact h.takeInput hready input
    · rwa [List.append_nil]
  | send i =>
    rw [Producers.step, taken, List.append_nil]
    split
    next => exact h
    next y ys hpending => exact h.send hpending
  | receive =>
    rw [taken, List.append_nil]
    exact h.receive

/-- Every run keeps it. -/
theorem run_inv (handler : Handler ι α β σ) (start : σ) (es : List (Event ι α)) :
    Inv handler start (Machine.run (step handler) (.new start) es)
      (Machine.outputs (step handler) taken (.new start) es) := by
  have hstep : ∀ (s : State ι β σ) inputs e, Inv handler start s inputs →
      Inv handler start (step handler s e) (inputs ++ taken s e) :=
    fun s inputs e h => h.step e
  exact Machine.run_outputs hstep (Inv.new handler start) es

/-- What has been received from a task is the start of the values of its inputs. -/
theorem Inv.received_prefix (h : Inv handler start s inputs) (i : ι) :
    of i s.channel.received <+:
      (of i inputs).flatMap fun input => (handler.values i input).getD [] := by
  rw [← h.values i, Fifo.sent, of_append, List.append_assoc]
  exact List.prefix_append _ _

/-- Everything has been received from a task that has nothing left to send, once the channel is
empty. -/
theorem Inv.received_all (h : Inv handler start s inputs) {i : ι} (hpending : s.pending i = [])
    (hwaiting : s.channel.waiting = []) :
    of i s.channel.received =
      (of i inputs).flatMap fun input => (handler.values i input).getD [] := by
  rw [← h.values i, hpending, Fifo.sent, hwaiting, List.append_nil, List.append_nil]

/-- What is received comes from an input of the task that has sent it. -/
theorem Inv.exists_input (h : Inv handler start s inputs) {i : ι} {y : β}
    (hy : (i, y) ∈ s.channel.received) :
    ∃ input ys, (i, input) ∈ inputs ∧ handler.values i input = some ys ∧ y ∈ ys := by
  have hmem := (h.received_prefix i).subset (mem_of.mpr hy)
  obtain ⟨input, hinput, hvalue⟩ := List.mem_flatMap.mp hmem
  cases hmake : handler.values i input with
  | none =>
    rw [hmake] at hvalue
    cases hvalue
  | some ys =>
    rw [hmake] at hvalue
    exact ⟨input, ys, mem_of.mp hinput, hmake, hvalue⟩

end Uscan.Producers
