import Uscan.Lib.Runs
import Mathlib.Data.List.Basic
import Mathlib.Tactic.Common

/-!
# Tasks that supersede each other

A task is started from time to time, with a plan: it is to make one round for each item. Each start
cancels the token of the task that was started before. A task looks at its tokens between its
rounds, and ends if it is cancelled or all tasks are stopped; it may have looked just before. Where
a task waits for a timer and for its tokens at the same time, it may also overlook that it is to
end, if the timer has run out (`Policy.racy`); it then looks again right after the round.

In every run, no task but the last one is not cancelled (`run_spec`). Each task makes the rounds of
its plan in order, and at most one after it is to end (`run_task`).
-/

namespace Uscan.Supersede

/-- What a task does next. -/
inductive Phase where
  /-- It looks at its tokens. -/
  | waiting
  /-- It makes a round. -/
  | armed
  /-- Nothing. -/
  | ended
  deriving DecidableEq, Repr

/-- A task. -/
structure Task (α : Type) where
  /-- What its rounds are to be about. -/
  plan : List α
  /-- What it does next. -/
  phase : Phase
  /-- Its own token is cancelled. -/
  cancelled : Bool
  /-- The rounds that it has made. -/
  rounds : ℕ
  /-- Those of them that it has made after it was to end. -/
  late : ℕ

/-- How tasks look at their tokens. -/
structure Policy where
  /-- A task makes its first round without looking. -/
  eager : Bool
  /-- A task may overlook that it is to end, and looks again right after a round. -/
  racy : Bool

/-- The tasks, in the order of their starts. -/
structure State (α : Type) where
  /-- The tasks. -/
  tasks : List (Task α)
  /-- The task that the next start cancels. -/
  current : Option ℕ
  /-- All tasks are to end. -/
  stopped : Bool

/-- A step. -/
inductive Event (α β : Type) where
  /-- A task with a plan is started. -/
  | start (plan : List α)
  /-- All tasks are to end. -/
  | stop
  /-- A task looks at its tokens, and may overlook them. -/
  | look (i : ℕ) (overlook : Bool)
  /-- A task makes a round, in some surroundings. -/
  | round (i : ℕ) (around : β)

/-- A round that is made. -/
structure Round (α β : Type) where
  /-- The task. -/
  task : ℕ
  /-- What it is about. -/
  item : α
  /-- The surroundings. -/
  around : β

variable {α β : Type}

/-- No tasks. -/
def State.new : State α := ⟨[], none, false⟩

/-- A task is to end. -/
def State.toEnd (s : State α) (t : Task α) : Bool := t.cancelled || s.stopped

/-- A task before its first round. -/
def Policy.task (p : Policy) (plan : List α) : Task α where
  plan := plan
  phase := if plan = [] then .ended else if p.eager then .armed else .waiting
  cancelled := false
  rounds := 0
  late := 0

/-- A task after it has looked at its tokens. -/
def Policy.look (p : Policy) (toEnd overlook : Bool) (t : Task α) : Task α :=
  if t.phase = .waiting then
    { t with phase := if toEnd && !(p.racy && overlook) then .ended else .armed }
  else t

/-- A task after a round. -/
def Policy.round (p : Policy) (toEnd : Bool) (t : Task α) : Task α :=
  if t.phase = .armed then
    { t with
      phase := if t.rounds + 1 = t.plan.length then .ended
        else if p.racy && toEnd then .ended else .waiting
      rounds := t.rounds + 1
      late := t.late + if toEnd then 1 else 0 }
  else t

/-- The tasks with one of them changed. -/
def State.modify (s : State α) (i : ℕ) (f : Task α → Task α) : State α :=
  { s with tasks := s.tasks.modify i f }

/-- The tasks, after the token of the last one is cancelled. -/
def State.cancelCurrent (s : State α) : List (Task α) :=
  match s.current with
  | some i => s.tasks.modify i fun t => { t with cancelled := true }
  | none => s.tasks

/-- A step of the tasks. -/
def step (p : Policy) (s : State α) : Event α β → State α
  | .start plan =>
    { s with tasks := s.cancelCurrent ++ [p.task plan], current := some s.tasks.length }
  | .stop => { s with stopped := true }
  | .look i overlook => s.modify i fun t => p.look (s.toEnd t) overlook t
  | .round i _ => s.modify i fun t => p.round (s.toEnd t) t

/-- What the next round of a task is about. -/
def Task.next (t : Task α) : Option α := if t.phase = .armed then t.plan[t.rounds]? else none

/-- The round that a step makes. -/
def rounds (s : State α) : Event α β → List (Round α β)
  | .round i around =>
    ((s.tasks[i]?.bind Task.next).map fun item => Round.mk i item around).toList
  | _ => []

/-! ## One task -/

/-- What holds of a task, which is to end or not. -/
structure Task.Ok (p : Policy) (toEnd : Bool) (t : Task α) : Prop where
  /-- It does not make more rounds than it is to make. -/
  rounds_le : t.rounds ≤ t.plan.length
  /-- A task that has not ended has rounds to make. -/
  rounds_lt : t.phase ≠ .ended → t.rounds < t.plan.length
  /-- It makes one round at most after it is to end. -/
  late_le : t.late ≤ 1
  /-- It has made one only if it is to end. -/
  late_pos : 0 < t.late → toEnd = true
  /-- It makes no other one after it. -/
  late_armed : t.phase = .armed → t.late = 0
  /-- It has ended after it, if it may overlook its tokens. -/
  late_racy : p.racy = true → t.phase ≠ .ended → t.late = 0
  /-- It has ended only because it is to end, or has made all its rounds. -/
  ended : t.phase = .ended → toEnd = true ∨ t.rounds = t.plan.length
  /-- It makes its first round in any case, if it does not look before. -/
  first : p.eager = true → t.plan ≠ [] → t.phase = .armed ∨ 0 < t.rounds

variable {p : Policy} {toEnd : Bool} {t : Task α}

/-- A new task. -/
theorem Task.ok_task (p : Policy) (toEnd : Bool) (plan : List α) : (p.task plan).Ok p toEnd where
  rounds_le := Nat.zero_le _
  rounds_lt h := by
    refine List.length_pos_iff.mpr fun hnil => h ?_
    exact if_pos hnil
  late_le := Nat.zero_le _
  late_pos h := absurd h (Nat.lt_irrefl 0)
  late_armed _ := rfl
  late_racy _ _ := rfl
  ended h := by
    refine .inr (List.length_eq_zero_iff.mpr ?_).symm
    change (if plan = [] then Phase.ended else if p.eager then .armed else .waiting) = .ended at h
    split_ifs at h with hnil
    exact hnil
  first heager hne := .inl ((if_neg hne).trans (if_pos heager))

/-- A task stays as it is when it comes to its end. -/
theorem Task.Ok.mono {toEnd' : Bool} (h : t.Ok p toEnd) (hle : toEnd = true → toEnd' = true) :
    t.Ok p toEnd' :=
  { h with
    late_pos := fun hpos => hle (h.late_pos hpos)
    ended := fun hended => (h.ended hended).imp_left hle }

/-- A task looks at its tokens. -/
theorem Task.Ok.look (h : t.Ok p toEnd) (overlook : Bool) :
    (p.look toEnd overlook t).Ok p toEnd := by
  rw [Policy.look]
  split_ifs with hphase hend
  · exact { h with
      rounds_lt := fun hne => absurd rfl hne
      late_armed := fun heq => Phase.noConfusion heq
      late_racy := fun _ hne => absurd rfl hne
      ended := fun _ => .inl (Bool.and_eq_true_iff.mp hend).1
      first := fun heager hne => .inr ((h.first heager hne).resolve_left (by simp [hphase])) }
  · have hwaiting : t.phase ≠ .ended := by simp [hphase]
    have hnone : t.late = 0 := by
      cases htoEnd : toEnd with
      | false =>
        by_contra hlate
        rw [h.late_pos (Nat.pos_of_ne_zero hlate)] at htoEnd
        cases htoEnd
      | true =>
        -- Only a task that may overlook its tokens goes on.
        have hracy : p.racy = true := by
          simp only [htoEnd, Bool.true_and, Bool.not_eq_true', Bool.not_eq_false,
            Bool.and_eq_true] at hend
          exact hend.1
        exact h.late_racy hracy hwaiting
    exact { h with
      rounds_lt := fun _ => h.rounds_lt hwaiting
      late_armed := fun _ => hnone
      late_racy := fun _ _ => hnone
      ended := fun heq => Phase.noConfusion heq
      first := fun _ _ => .inl rfl }
  · exact h

/-- A task makes a round. -/
theorem Task.Ok.round (h : t.Ok p toEnd) : (p.round toEnd t).Ok p toEnd := by
  rw [Policy.round]
  by_cases hphase : t.phase = .armed
  · have hlt : t.rounds < t.plan.length := h.rounds_lt (by simp [hphase])
    have hnone : t.late = 0 := h.late_armed hphase
    rw [if_pos hphase]
    refine ⟨hlt, fun hne => ?_, ?_, fun hpos => ?_, fun heq => ?_, fun hracy hne => ?_,
      fun hended => ?_, fun _ _ => .inr (Nat.succ_pos _)⟩
    · exact Nat.lt_of_le_of_ne hlt fun heq => hne (if_pos heq)
    · dsimp only
      split_ifs <;> omega
    · dsimp only at hpos
      split_ifs at hpos with htoEnd
      · exact htoEnd
      · omega
    · dsimp only at heq
      split_ifs at heq
    · -- A task that is to end has looked again.
      dsimp only at hne ⊢
      rw [hracy, Bool.true_and] at hne
      split_ifs at hne ⊢
      · exact absurd rfl hne
      · exact absurd rfl hne
      · exact absurd rfl hne
      · exact hnone
    · dsimp only at hended
      split_ifs at hended with hall hend
      · exact .inr hall
      · exact .inl (Bool.and_eq_true_iff.mp hend).2
  · rwa [if_neg hphase]

/-- A task with a round to make has the item of its plan. -/
theorem Task.Ok.next (h : t.Ok p toEnd) (hphase : t.phase = .armed) :
    ∃ hlt : t.rounds < t.plan.length, t.next = some t.plan[t.rounds] := by
  have hlt : t.rounds < t.plan.length := h.rounds_lt (by simp [hphase])
  exact ⟨hlt, by rw [Task.next, if_pos hphase, List.getElem?_eq_getElem]⟩

/-! ## All tasks -/

/-- What holds of all tasks. -/
structure State.Ok (p : Policy) (s : State α) : Prop where
  /-- Each task is as it should be. -/
  task : ∀ t ∈ s.tasks, t.Ok p (s.toEnd t)
  /-- Only the last one is not cancelled, and the next start cancels it. -/
  current : ∀ i t, s.tasks[i]? = some t → t.cancelled = false →
    s.current = some i ∧ i + 1 = s.tasks.length

/-- A task of a list in which one is changed. -/
theorem exists_of_getElem?_modify {l : List (Task α)} {i j : ℕ} {f : Task α → Task α}
    {t' : Task α} (h : (l.modify i f)[j]? = some t') :
    ∃ t, l[j]? = some t ∧ t' = if i = j then f t else t := by
  rw [List.getElem?_modify] at h
  obtain ⟨t, ht, rfl⟩ := Option.map_eq_some_iff.mp h
  exact ⟨t, ht, rfl⟩

/-- One task is changed, and it is cancelled exactly if it was before. -/
theorem State.Ok.modify {s : State α} (h : s.Ok p) (i : ℕ) {f : Task α → Task α}
    (hf : ∀ t, t.Ok p (s.toEnd t) → (f t).Ok p (s.toEnd t))
    (hcancelled : ∀ t, (f t).cancelled = t.cancelled) : (s.modify i f).Ok p := by
  constructor
  · intro t' ht'
    obtain ⟨j, hj⟩ := List.mem_iff_getElem?.mp ht'
    obtain ⟨t, ht, rfl⟩ := exists_of_getElem?_modify hj
    have hok := h.task t (List.mem_of_getElem? ht)
    split_ifs
    · have hsame : (s.modify i f).toEnd (f t) = s.toEnd t := by
        rw [State.toEnd, State.toEnd, hcancelled]
        rfl
      rw [hsame]
      exact hf t hok
    · exact hok
  · intro j t' hj hlive
    obtain ⟨t, ht, rfl⟩ := exists_of_getElem?_modify hj
    have hlive : t.cancelled = false := by
      split_ifs at hlive
      · rwa [hcancelled] at hlive
      · exact hlive
    obtain ⟨hcurrent, hlast⟩ := h.current j t ht hlive
    exact ⟨hcurrent, hlast.trans (List.length_modify f s.tasks i).symm⟩

/-- Every task is cancelled then. -/
theorem State.Ok.of_cancelCurrent {s : State α} (h : s.Ok p) {i : ℕ} {t' : Task α}
    (ht' : s.cancelCurrent[i]? = some t') :
    t'.cancelled = true ∧ ∃ t, s.tasks[i]? = some t ∧ t' = { t with cancelled := true } := by
  -- A task that the start does not cancel was cancelled before.
  have hbefore {t : Task α} (ht : s.tasks[i]? = some t) (hne : s.current ≠ some i) :
      t.cancelled = true := by
    cases hlive : t.cancelled with
    | true => rfl
    | false => exact absurd (h.current i t ht hlive).1 hne
  rw [cancelCurrent] at ht'
  cases hcurrent : s.current with
  | none =>
    rw [hcurrent] at ht'
    have hlive := hbefore ht' (by simp [hcurrent])
    exact ⟨hlive, t', ht', by rw [← hlive]⟩
  | some j =>
    simp only [hcurrent] at ht'
    obtain ⟨t, ht, rfl⟩ := exists_of_getElem?_modify ht'
    split_ifs with hij
    · exact ⟨rfl, t, ht, rfl⟩
    · have hlive := hbefore ht (by simpa [hcurrent] using hij)
      exact ⟨hlive, t, ht, by rw [← hlive]⟩

/-- The tasks are as many as before. -/
theorem State.length_cancelCurrent (s : State α) : s.cancelCurrent.length = s.tasks.length := by
  rw [cancelCurrent]
  split
  · exact List.length_modify _ _ _
  · rfl

/-- A start cancels the last task. -/
theorem State.Ok.start {s : State α} (h : s.Ok p) (plan : List α) :
    (Supersede.step p s (.start plan : Event α β)).Ok p := by
  constructor
  · intro t' ht'
    rcases List.mem_append.mp ht' with ht' | ht'
    · obtain ⟨i, hi⟩ := List.mem_iff_getElem?.mp ht'
      obtain ⟨hcancelled, t, ht, rfl⟩ := h.of_cancelCurrent hi
      have hok := h.task t (List.mem_of_getElem? ht)
      exact ⟨hok.rounds_le, hok.rounds_lt, hok.late_le, fun _ => rfl, hok.late_armed,
        hok.late_racy, fun _ => .inl rfl, hok.first⟩
    · rw [List.mem_singleton.mp ht']
      exact Task.ok_task p _ plan
  · intro i t' ht' hlive
    change (s.cancelCurrent ++ [p.task plan])[i]? = some t' at ht'
    rw [List.getElem?_append] at ht'
    split_ifs at ht' with hi
    · rw [(h.of_cancelCurrent ht').1] at hlive
      cases hlive
    · rw [s.length_cancelCurrent] at hi ht'
      have hlast : i = s.tasks.length := by
        obtain ⟨hlt, -⟩ := List.getElem?_eq_some_iff.mp ht'
        simp only [List.length_singleton] at hlt
        omega
      subst hlast
      exact ⟨rfl, by simp [Supersede.step, s.length_cancelCurrent]⟩

/-- Every step keeps what holds of all tasks. -/
theorem State.Ok.step {s : State α} (h : s.Ok p) (e : Event α β) :
    (Supersede.step p s e).Ok p := by
  cases e with
  | start plan => exact h.start plan
  | stop =>
    refine ⟨fun t ht => (h.task t ht).mono fun _ => ?_, h.current⟩
    simp [Supersede.step, State.toEnd]
  | look i overlook =>
    refine h.modify i (fun t ht => ht.look overlook) fun t => ?_
    rw [Policy.look]
    split_ifs <;> rfl
  | round i around =>
    refine h.modify i (fun t ht => ht.round) fun t => ?_
    rw [Policy.round]
    split_ifs <;> rfl

/-- No tasks are as they should be. -/
theorem State.ok_new (p : Policy) : (State.new : State α).Ok p :=
  ⟨fun t ht => absurd ht List.not_mem_nil, fun i t ht => by cases ht⟩

/-- Every run keeps what holds of all tasks. -/
theorem run_ok (p : Policy) (es : List (Event α β)) : (Machine.run (step p) .new es).Ok p :=
  Machine.run_inv (fun s e (h : s.Ok p) => h.step e) (State.ok_new p) es

/-! ## The rounds of a run -/

/-- What the rounds that a task has made were about. -/
def Task.done (t : Task α) : List α := t.plan.take t.rounds

/-- The rounds of one task. -/
def roundsOf (i : ℕ) (rs : List (Round α β)) : List (Round α β) := rs.filter (·.task = i)

@[simp] theorem roundsOf_nil (i : ℕ) : roundsOf i ([] : List (Round α β)) = [] := rfl

@[simp] theorem roundsOf_append (i : ℕ) (rs rs' : List (Round α β)) :
    roundsOf i (rs ++ rs') = roundsOf i rs ++ roundsOf i rs' :=
  List.filter_append rs rs'

/-- A task goes on, with some rounds. -/
structure Advances (s s' : State α) (t t' : Task α) (rs : List (Round α β)) : Prop where
  /-- It keeps its plan. -/
  plan : t'.plan = t.plan
  /-- It stays to end. -/
  toEnd : s.toEnd t = true → s'.toEnd t' = true
  /-- The rounds are the next ones of its plan. -/
  done : t'.done = t.done ++ rs.map Round.item
  /-- They are late if it was to end. -/
  late : s.toEnd t = true → t'.late = t.late + rs.length

/-- A task goes on without a round. -/
theorem Advances.idle {s s' : State α} {t t' : Task α} (hplan : t'.plan = t.plan)
    (hrounds : t'.rounds = t.rounds) (hlate : t'.late = t.late)
    (htoEnd : s.toEnd t = true → s'.toEnd t' = true) :
    Advances s s' t t' ([] : List (Round α β)) where
  plan := hplan
  toEnd := htoEnd
  done := by rw [Task.done, Task.done, hplan, hrounds, List.map_nil, List.append_nil]
  late _ := hlate

/-- A task goes on and on. -/
theorem Advances.trans {s s' s'' : State α} {t t' t'' : Task α} {rs rs' : List (Round α β)}
    (h : Advances s s' t t' rs) (h' : Advances s' s'' t' t'' rs') :
    Advances s s'' t t'' (rs ++ rs') where
  plan := h'.plan.trans h.plan
  toEnd htoEnd := h'.toEnd (h.toEnd htoEnd)
  done := by rw [h'.done, h.done, List.map_append, List.append_assoc]
  late htoEnd := by
    rw [h'.late (h.toEnd htoEnd), h.late htoEnd, List.length_append, Nat.add_assoc]

/-- The task of a list in which one is changed. -/
theorem State.getElem?_modify {s : State α} {i : ℕ} {t : Task α} (h : s.tasks[i]? = some t) (j : ℕ)
    (f : Task α → Task α) : (s.modify j f).tasks[i]? = some (if j = i then f t else t) := by
  change (s.tasks.modify j f)[i]? = _
  rw [List.getElem?_modify, h]
  rfl

/-- A start leaves the tasks before it as they are, but that it cancels one. -/
theorem State.getElem?_start {s : State α} {i : ℕ} {t : Task α} (h : s.tasks[i]? = some t)
    (p : Policy) (plan : List α) : ∃ cancelled, (t.cancelled = true → cancelled = true) ∧
      (step p s (.start plan : Event α β)).tasks[i]? = some { t with cancelled := cancelled } := by
  have hlt : i < s.cancelCurrent.length := by
    rw [s.length_cancelCurrent]
    exact (List.getElem?_eq_some_iff.mp h).1
  have htasks : (step p s (.start plan : Event α β)).tasks[i]? = s.cancelCurrent[i]? :=
    List.getElem?_append_left hlt
  rw [htasks, cancelCurrent]
  split
  next j _ =>
    rw [List.getElem?_modify, h]
    by_cases hij : j = i
    · exact ⟨true, fun _ => rfl, by simp [hij]⟩
    · exact ⟨t.cancelled, id, by simp [hij]⟩
  next => exact ⟨t.cancelled, id, h⟩

/-- A task goes on in a step, with the rounds of it that the step makes. -/
theorem advances_step {s : State α} (h : s.Ok p) {i : ℕ} (ht : s.tasks[i]? = some t)
    (e : Event α β) : ∃ t', (step p s e).tasks[i]? = some t' ∧
      Advances s (step p s e) t t' (roundsOf i (rounds s e)) := by
  cases e with
  | start plan =>
    -- The task stays where it is, but may be cancelled by the new one.
    obtain ⟨cancelled, hcancelled, ht'⟩ := State.getElem?_start (β := β) ht p plan
    refine ⟨_, ht', .idle rfl rfl rfl fun htoEnd => ?_⟩
    rcases Bool.or_eq_true_iff.mp htoEnd with htoEnd | htoEnd
    · exact Bool.or_eq_true_iff.mpr (.inl (hcancelled htoEnd))
    · exact Bool.or_eq_true_iff.mpr (.inr htoEnd)
  | stop => exact ⟨t, ht, .idle rfl rfl rfl fun _ => Bool.or_true _⟩
  | look j overlook =>
    refine ⟨_, State.getElem?_modify ht j _, ?_⟩
    split_ifs
    · rw [Policy.look]
      split_ifs <;> exact .idle rfl rfl rfl id
    · exact .idle rfl rfl rfl id
  | round j around =>
    refine ⟨_, State.getElem?_modify ht j _, ?_⟩
    by_cases hij : j = i
    · subst hij
      rw [if_pos rfl, Policy.round, rounds, ht, Option.bind_some]
      by_cases hphase : t.phase = .armed
      · -- The round is the next one of the plan.
        have hok := h.task t (List.mem_of_getElem? ht)
        obtain ⟨hlt, hnext⟩ := hok.next hphase
        rw [if_pos hphase, hnext]
        refine ⟨rfl, id, ?_, fun htoEnd => ?_⟩
        · change t.plan.take (t.rounds + 1) = t.plan.take t.rounds ++ _
          rw [← List.take_append_getElem hlt]
          simp [roundsOf]
        · simp [htoEnd, roundsOf]
      · rw [if_neg hphase, Task.next, if_neg hphase]
        exact .idle rfl rfl rfl id
    · -- It is a round of another task.
      have hnone : roundsOf i (rounds s (.round j around)) = [] := by
        refine List.filter_eq_nil_iff.mpr fun r hr => ?_
        rw [rounds, Option.mem_toList, Option.map_eq_some_iff] at hr
        obtain ⟨item, -, rfl⟩ := hr
        simpa using hij
      rw [if_neg hij, hnone]
      exact .idle rfl rfl rfl id

/-- A task goes on in a run, with the rounds of it that the run makes. -/
theorem advances_run {s : State α} (h : s.Ok p) {i : ℕ} (ht : s.tasks[i]? = some t)
    (es : List (Event α β)) : ∃ t', (Machine.run (step p) s es).tasks[i]? = some t' ∧
      Advances s (Machine.run (step p) s es) t t'
        (roundsOf i (Machine.outputs (step p) rounds s es)) := by
  induction es generalizing s t with
  | nil => exact ⟨t, ht, .idle rfl rfl rfl id⟩
  | cons e es ih =>
    obtain ⟨t', ht', hstep⟩ := advances_step h ht e
    obtain ⟨t'', ht'', hrun⟩ := ih (h.step e) ht'
    refine ⟨t'', ht'', ?_⟩
    rw [Machine.outputs, roundsOf_append]
    exact hstep.trans hrun

/-- What the rounds of a task were about, if it has been started. -/
def State.doneOf (s : State α) (i : ℕ) : List α := (s.tasks[i]?.map Task.done).getD []

/-- A step makes the next round of a task, or none. -/
theorem doneOf_step {s : State α} (h : s.Ok p) (e : Event α β) (i : ℕ) :
    (step p s e).doneOf i = s.doneOf i ++ (roundsOf i (rounds s e)).map Round.item := by
  cases ht : s.tasks[i]? with
  | some t =>
    obtain ⟨t', ht', hstep⟩ := advances_step h ht e
    rw [State.doneOf, State.doneOf, ht', ht]
    exact hstep.done
  | none =>
    -- There is no task to make a round, and a new one has made none.
    have hnone : roundsOf i (rounds s e) = [] := by
      refine List.filter_eq_nil_iff.mpr fun r hr => ?_
      cases e with
      | round j around =>
        rw [rounds, Option.mem_toList, Option.map_eq_some_iff] at hr
        obtain ⟨item, hitem, rfl⟩ := hr
        rw [decide_eq_true_eq]
        rintro rfl
        rw [ht] at hitem
        cases hitem
      | start plan => cases hr
      | stop => cases hr
      | look j overlook => cases hr
    have hmodify : ∀ (j : ℕ) f, (s.modify j f).doneOf i = [] := by
      intro j f
      change ((s.tasks.modify j f)[i]?.map Task.done).getD [] = []
      rw [List.getElem?_modify, ht]
      rfl
    rw [hnone, List.map_nil, List.append_nil, State.doneOf, State.doneOf, ht]
    cases e with
    | start plan =>
      have htasks : (step p s (.start plan : Event α β)).tasks = s.cancelCurrent ++ [p.task plan] :=
        rfl
      have hle := List.getElem?_eq_none_iff.mp ht
      rw [← s.length_cancelCurrent] at hle
      rw [htasks, List.getElem?_append_right hle, List.getElem?_singleton]
      split_ifs <;> rfl
    | stop => exact congrArg (fun o => (o.map Task.done).getD []) ht
    | look j overlook => exact hmodify j _
    | round j around => exact hmodify j _

/-- The plan of the task that a step starts. -/
def Event.plan? : Event α β → Option (List α)
  | .start plan => some plan
  | _ => none

/-- A step starts a task, or leaves the plans as they are. -/
theorem map_plan_step (p : Policy) (s : State α) (e : Event α β) :
    (step p s e).tasks.map Task.plan = s.tasks.map Task.plan ++ e.plan?.toList := by
  have hmodify : ∀ (i : ℕ) (f : Task α → Task α), (∀ t, (f t).plan = t.plan) →
      (s.tasks.modify i f).map Task.plan = s.tasks.map Task.plan := by
    intro i f hf
    refine List.ext_getElem? fun j => ?_
    rw [List.getElem?_map, List.getElem?_map, List.getElem?_modify]
    cases s.tasks[j]? with
    | none => rfl
    | some t => by_cases hij : i = j <;> simp [hij, hf]
  cases e with
  | start plan =>
    have hcancel : s.cancelCurrent.map Task.plan = s.tasks.map Task.plan := by
      rw [State.cancelCurrent]
      split
      · exact hmodify _ _ fun _ => rfl
      · rfl
    change (s.cancelCurrent ++ [p.task plan]).map Task.plan = _
    rw [List.map_append, hcancel]
    rfl
  | stop => exact (List.append_nil _).symm
  | look i overlook =>
    refine (hmodify i _ fun t => ?_).trans (List.append_nil _).symm
    rw [Policy.look]
    split_ifs <;> rfl
  | round i around =>
    refine (hmodify i _ fun t => ?_).trans (List.append_nil _).symm
    rw [Policy.round]
    split_ifs <;> rfl

/-- The tasks of a run are those that it starts. -/
theorem run_plans (p : Policy) (es : List (Event α β)) :
    (Machine.run (step p) .new es).tasks.map Task.plan = es.filterMap Event.plan? := by
  have hstep : ∀ (es : List (Event α β)) (s : State α) e,
      s.tasks.map Task.plan = es.filterMap Event.plan? →
        (step p s e).tasks.map Task.plan = (es ++ [e]).filterMap Event.plan? := by
    intro es s e h
    rw [map_plan_step, h, List.filterMap_append]
    cases hplan : e.plan? <;> simp [hplan]
  exact Machine.run_history hstep rfl es

/-- In every run: no task but the one that was started last is not cancelled; each task makes the
first rounds of its plan, in order. It ends before the last one only if it is to end, and after the
first one at the earliest if it does not look before it. -/
theorem run_spec (p : Policy) (es : List (Event α β)) :
    let s := Machine.run (step p) .new es
    (∀ i t, s.tasks[i]? = some t → t.cancelled = false → i + 1 = s.tasks.length) ∧
      ∀ i t, s.tasks[i]? = some t →
        (roundsOf i (Machine.outputs (step p) rounds .new es)).map Round.item = t.done ∧
          (t.phase = .ended → (s.toEnd t = true ∨ t.done = t.plan) ∧
            (p.eager = true → t.plan ≠ [] → t.done ≠ [])) := by
  intro s
  have hok : s.Ok p := run_ok p es
  have hstep : ∀ i (s : State α) (rs : List (Round α β)) e,
      (s.Ok p ∧ s.doneOf i = (roundsOf i rs).map Round.item) → (step p s e).Ok p ∧
        (step p s e).doneOf i = (roundsOf i (rs ++ rounds s e)).map Round.item := by
    rintro i s rs e ⟨hok, hrs⟩
    exact ⟨hok.step e, by rw [doneOf_step hok, hrs, roundsOf_append, List.map_append]⟩
  refine ⟨fun i t ht hlive => (hok.current i t ht hlive).2, fun i t ht => ⟨?_, fun hended => ?_⟩⟩
  · have hrun := (Machine.run_outputs (hstep i) ⟨State.ok_new p, rfl⟩ es).2
    change s.doneOf i = _ at hrun
    rw [← hrun, State.doneOf, ht]
    rfl
  · have htask := hok.task t (List.mem_of_getElem? ht)
    refine ⟨(htask.ended hended).imp_right fun hall => ?_, fun heager hne => ?_⟩
    · rw [Task.done, hall, List.take_length]
    · have hpos := (htask.first heager hne).resolve_left (by simp [hended])
      rw [Task.done, ne_eq, List.take_eq_nil_iff]
      exact not_or.mpr ⟨Nat.pos_iff_ne_zero.mp hpos, hne⟩

/-- A task that is to end makes one more round at most. -/
theorem length_rounds_after (p : Policy) (es es' : List (Event α β)) {i : ℕ}
    (ht : (Machine.run (step p) .new es).tasks[i]? = some t)
    (htoEnd : (Machine.run (step p) .new es).toEnd t = true) :
    let s := Machine.run (step p) .new es
    (roundsOf i (Machine.outputs (step p) rounds s es')).length ≤ 1 := by
  intro s
  obtain ⟨t', ht', hrun⟩ := advances_run (run_ok p es) ht es'
  have hlate := ((run_ok p (es ++ es')).task t' (List.mem_of_getElem? (by
    rw [Machine.run_append]
    exact ht'))).late_le
  rw [hrun.late htoEnd] at hlate
  exact Nat.le_trans (Nat.le_add_left _ _) hlate

/-- The task that is started with a plan. It makes the first rounds of the plan, in order; it ends
before the last one only if it is to end; and then it makes one more round at most. -/
theorem run_task (p : Policy) (es es' : List (Event α β)) {i : ℕ} {plan : List α}
    (hplan : (es.filterMap Event.plan?)[i]? = some plan) :
    let s := Machine.run (step p) .new es
    let done := (roundsOf i (Machine.outputs (step p) rounds .new es)).map Round.item
    ∃ t, s.tasks[i]? = some t ∧ t.plan = plan ∧ done <+: plan ∧
      (t.phase = .ended → (s.toEnd t = true ∨ done = plan) ∧
        (p.eager = true → plan ≠ [] → done ≠ [])) ∧
      (s.toEnd t = true → (roundsOf i (Machine.outputs (step p) rounds s es')).length ≤ 1) := by
  intro s done
  rw [← run_plans p es, List.getElem?_map] at hplan
  obtain ⟨t, ht, rfl⟩ := Option.map_eq_some_iff.mp hplan
  obtain ⟨hdone, hended⟩ := (run_spec p es).2 i t ht
  change done = t.done at hdone
  refine ⟨t, ht, rfl, ?_, ?_, length_rounds_after p es es' ht⟩
  · rw [hdone]
    exact List.take_prefix _ _
  · rwa [hdone]

end Uscan.Supersede
