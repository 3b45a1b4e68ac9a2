/-!
# Runs of a state machine

A machine takes one step for each event. A property of all its states is an invariant that every
step keeps (`Machine.run_inv`), possibly only under a condition on the state and the event, which
then must hold along the run (`Machine.run_inv_along`); a property that relates the state to the
events so far goes by induction on the last event (`Machine.run_history`). A machine may output
values at each step; where the state remembers them, no value is output twice
(`Machine.outputs_fresh`), and what relates its outputs to the state goes step by step
(`Machine.run_outputs`). One machine refines another one, with its outputs, if their steps do
(`Machine.run_simulates`).
-/

namespace Uscan.Machine

variable {σ ε : Type} {step : σ → ε → σ}

/-- The state after a sequence of events. -/
def run (step : σ → ε → σ) (s : σ) (es : List ε) : σ := es.foldl step s

@[simp] theorem run_nil (s : σ) : run step s [] = s := rfl

@[simp] theorem run_cons (s : σ) (e : ε) (es : List ε) :
    run step s (e :: es) = run step (step s e) es := rfl

/-- A run in two parts. -/
theorem run_append (s : σ) (es es' : List ε) :
    run step s (es ++ es') = run step (run step s es) es' :=
  List.foldl_append

/-- Every event of a run meets a condition on it and on the state before it. -/
def Along (step : σ → ε → σ) (ok : σ → ε → Prop) : σ → List ε → Prop
  | _, [] => True
  | s, e :: es => ok s e ∧ Along step ok (step s e) es

/-- Whether a run meets a condition can be decided by running it. -/
instance decidableAlong {ok : σ → ε → Prop} [∀ s e, Decidable (ok s e)] :
    (s : σ) → (es : List ε) → Decidable (Along step ok s es)
  | _, [] => .isTrue trivial
  | s, e :: es =>
    have : Decidable (Along step ok (step s e) es) := decidableAlong (step s e) es
    inferInstanceAs (Decidable (ok s e ∧ Along step ok (step s e) es))

/-- What the first state satisfies and every step keeps under a condition holds after every run
that meets the condition. -/
theorem run_inv_along {inv : σ → Prop} {ok : σ → ε → Prop}
    (hstep : ∀ s e, inv s → ok s e → inv (step s e)) {s : σ} (hs : inv s) {es : List ε}
    (hok : Along step ok s es) : inv (run step s es) := by
  induction es generalizing s with
  | nil => exact hs
  | cons e es ih => exact ih (hstep s e hs hok.1) hok.2

/-- What the first state satisfies and every step keeps holds after every run. -/
theorem run_inv {inv : σ → Prop} (hstep : ∀ s e, inv s → inv (step s e)) {s : σ} (hs : inv s)
    (es : List ε) : inv (run step s es) := by
  induction es generalizing s with
  | nil => exact hs
  | cons e es ih => exact ih (hstep s e hs)

/-- What relates the events so far to the state, at the start and through every step, relates the
events of every run to its last state. -/
theorem run_history {rel : List ε → σ → Prop}
    (hstep : ∀ es s e, rel es s → rel (es ++ [e]) (step s e)) {s : σ} (hs : rel [] s)
    (es : List ε) : rel es (run step s es) := by
  have hrest : ∀ es' past (s : σ), rel past s → rel (past ++ es') (run step s es') := by
    intro es'
    induction es' with
    | nil =>
      intro past s h
      rw [List.append_nil]
      exact h
    | cons e es' ih =>
      intro past s h
      have := ih (past ++ [e]) (step s e) (hstep past s e h)
      rw [List.append_assoc] at this
      exact this
  exact hrest es [] s hs

/-- What the steps of a run output, in order; `out` is what one step does. -/
def outputs {β : Type} (step : σ → ε → σ) (out : σ → ε → List β) : σ → List ε → List β
  | _, [] => []
  | s, e :: es => out s e ++ outputs step out (step s e) es

/-- What every step's outputs satisfy, every output of a run satisfies. -/
theorem outputs_forall {β : Type} {out : σ → ε → List β} {P : β → Prop}
    (hout : ∀ s e, ∀ b ∈ out s e, P b) (s : σ) (es : List ε) :
    ∀ b ∈ outputs step out s es, P b := by
  induction es generalizing s with
  | nil => exact fun b hb => absurd hb List.not_mem_nil
  | cons e es ih =>
    intro b hb
    rcases List.mem_append.mp hb with hb | hb
    · exact hout s e b hb
    · exact ih (step s e) b hb

/-- A machine refines another one, whose outputs it remembers: what relates their states and the
outputs so far, at the start and through every step, relates them after every run. -/
theorem run_simulates {τ β : Type} {astep : τ → ε → τ} {out : τ → ε → List β}
    {rel : σ → τ → List β → Prop}
    (hstep : ∀ s t bs e, rel s t bs → rel (step s e) (astep t e) (bs ++ out t e)) {s : σ} {t : τ}
    {bs : List β} (h : rel s t bs) (es : List ε) :
    rel (run step s es) (run astep t es) (bs ++ outputs astep out t es) := by
  induction es generalizing s t bs with
  | nil =>
    rw [outputs, List.append_nil]
    exact h
  | cons e es ih =>
    rw [outputs, ← List.append_assoc]
    exact ih (hstep s t bs e h)

/-- What relates the outputs so far to the state, at the start and through every step, relates the
outputs of every run to its last state. -/
theorem run_outputs {β : Type} {out : σ → ε → List β} {rel : σ → List β → Prop}
    (hstep : ∀ s bs e, rel s bs → rel (step s e) (bs ++ out s e)) {s : σ} (h : rel s [])
    (es : List ε) : rel (run step s es) (outputs step out s es) := by
  have hself : ∀ s t bs e, s = t ∧ rel s bs →
      step s e = step t e ∧ rel (step s e) (bs ++ out t e) := by
    rintro s t bs e ⟨rfl, hrel⟩
    exact ⟨rfl, hstep s bs e hrel⟩
  exact (run_simulates hself ⟨rfl, h⟩ es).2

/-- If a state remembers what was seen, and a step outputs different values not seen before that are
seen afterwards, then a run outputs different values not seen at its start. -/
theorem outputs_fresh {β : Type} {out : σ → ε → List β} {seen : σ → β → Prop}
    (hseen : ∀ s e b, seen s b → seen (step s e) b) (hnodup : ∀ s e, (out s e).Nodup)
    (hnew : ∀ s e, ∀ b ∈ out s e, ¬ seen s b ∧ seen (step s e) b) (s : σ) (es : List ε) :
    (outputs step out s es).Nodup ∧ ∀ b ∈ outputs step out s es, ¬ seen s b := by
  induction es generalizing s with
  | nil => exact ⟨List.nodup_nil, fun b hb => absurd hb List.not_mem_nil⟩
  | cons e es ih =>
    obtain ⟨ihnodup, ihnew⟩ := ih (step s e)
    constructor
    · -- A later output was not seen after this step, where the outputs of the step are.
      refine List.nodup_append.mpr ⟨hnodup s e, ihnodup, ?_⟩
      intro b hb b' hb' heq
      rw [heq] at hb
      exact ihnew b' hb' (hnew s e b' hb).2
    · intro b hb
      rcases List.mem_append.mp hb with hb | hb
      · exact (hnew s e b hb).1
      · exact fun h => ihnew b hb (hseen s e b h)

end Uscan.Machine
