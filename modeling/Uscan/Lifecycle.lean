import Uscan.Scanner

/-!
# The life of the tasks

Any sequence of calls of `start`, `scan` and `stop` on one scanner. `Scanner.Inv` says that every
task that has been spawned is joined or has a handle that the next stop finds, and ends on a token
that is cancelled or that the next stop cancels. Every call keeps it, except two kinds of start: one
that fails after it has spawned a task, which drops the handle, and one after a scan on a stopped
scanner, which drops the contexts with the handles of the sweeps. So in every run without them, all
tasks are cancelled and joined when a stop returns (`stopped_all_joined`). No two tasks are the same
(`spawned_nodup`).
-/

namespace Uscan.Scanner

open Attempts

/-- A call of a method. -/
inductive Call where
  /-- `start`, with the answers of the operating system and the active interfaces. -/
  | start (os : Os) (ifaces : List Iface)
  /-- `scan`. -/
  | scan
  /-- `stop`. -/
  | stop

/-- The scanner after a call. -/
def call (s : Scanner) : Call → Scanner
  | .start os ifaces => (s.start os ifaces).1
  | .scan => s.scan
  | .stop => s.stop

/-- All tasks that have been spawned are cancelled and joined. A task that is joined has ended. -/
def AllJoined (s : Scanner) : Prop := ∀ t ∈ s.spawned, t ∈ s.joined ∧ t.token ∈ s.cancelled

/-- The condition on a start: the scanner is stopped; no context has a sweep, which a scan since the
stop has spawned; and no attempt is fatal, or none before the first fatal one opens its source. -/
def MayCall (s : Scanner) : Call → Prop
  | .start os ifaces => s.stopped = true ∧ (ifaces ≠ [] → (∀ c ∈ s.ctxs, c.sweeps = []) ∧
      ((∀ a ∈ s.attempts os ifaces, os.fatal a = false) ∨
        ∀ a ∈ performed os.fatal (s.attempts os ifaces), os.result a ≠ .bound))
  | .scan => True
  | .stop => True

/-- The condition can be decided. -/
instance (s : Scanner) : (c : Call) → Decidable (s.MayCall c)
  | .start os ifaces => inferInstanceAs (Decidable (s.stopped = true ∧ (ifaces ≠ [] →
      (∀ c ∈ s.ctxs, c.sweeps = []) ∧ ((∀ a ∈ s.attempts os ifaces, os.fatal a = false) ∨
        ∀ a ∈ performed os.fatal (s.attempts os ifaces), os.result a ≠ .bound))))
  | .scan => .isTrue trivial
  | .stop => .isTrue trivial

/-- Whether all tasks are joined can be decided. -/
instance (s : Scanner) : Decidable s.AllJoined :=
  inferInstanceAs (Decidable (∀ t ∈ s.spawned, t ∈ s.joined ∧ t.token ∈ s.cancelled))

/-! ## The numbers of the tasks -/

/-- The tasks are numbered as they are spawned. -/
def Numbered (s : Scanner) : Prop := s.spawned.map Task.id = List.range s.spawned.length

/-- Numbered tasks have the numbers from `n` on. -/
theorem map_id_numberTasks (token n : ℕ) (ws : List Work) :
    (numberTasks token n ws).map Task.id = List.range' n (numberTasks token n ws).length := by
  induction ws generalizing n with
  | nil => rfl
  | cons w ws ih =>
    rw [numberTasks, List.map_cons, ih, List.length_cons, List.range'_succ]

/-- The loop of `scan` numbers the new sweeps from `n` on. -/
theorem map_id_scanCtxs (config : Config) (n : ℕ) (cs : List Ctx) :
    (scanCtxs config n cs).2.map Task.id = List.range' n (scanCtxs config n cs).2.length := by
  induction cs generalizing n with
  | nil => rfl
  | cons c cs ih =>
    unfold scanCtxs
    rw [List.map_append, map_id_numberTasks, ih, List.length_append, ← List.range'_append_1]

/-- Further tasks that are numbered from the end on leave the tasks numbered. -/
theorem Numbered.append {s : Scanner} (h : s.Numbered) {ts : List Task}
    (hts : ts.map Task.id = List.range' s.spawned.length ts.length) :
    (s.spawned ++ ts).map Task.id = List.range (s.spawned ++ ts).length := by
  have happend := List.range'_append_1 (s := 0) (m := s.spawned.length) (n := ts.length)
  rw [Nat.zero_add] at happend
  calc (s.spawned ++ ts).map Task.id
      = List.range' 0 s.spawned.length ++ List.range' s.spawned.length ts.length := by
        rw [List.map_append, h, hts, List.range_eq_range']
    _ = List.range' 0 (s.spawned.length + ts.length) := happend
    _ = List.range (s.spawned ++ ts).length := by rw [List.length_append, List.range_eq_range']

/-- A call leaves the tasks numbered. -/
theorem Numbered.call {s : Scanner} (h : s.Numbered) (c : Call) : (s.call c).Numbered := by
  cases c with
  | start os ifaces =>
    obtain ⟨-, heq⟩ | ⟨-, engines, result, heq, -⟩ := s.start_cases os ifaces
    · simp only [Scanner.call, heq]
      exact h
    · simp only [Scanner.call, heq]
      exact h.append (map_id_numberTasks _ _ _)
  | scan => exact h.append (map_id_scanCtxs _ _ _)
  | stop => exact h

/-- No two tasks of a run are the same, so that each is joined for itself. -/
theorem spawned_nodup (config : Config) (selection : Selection) (calls : List Call) :
    (Machine.run call (Scanner.new config selection) calls).spawned.Nodup := by
  have hstep : ∀ (s : Scanner) (c : Call), s.Numbered → (s.call c).Numbered :=
    fun s c h => h.call c
  have hnumbered := Machine.run_inv hstep (s := Scanner.new config selection) rfl calls
  refine List.Nodup.of_map Task.id ?_
  rw [hnumbered]
  exact List.nodup_range

/-! ## The invariant -/

/-- What holds between the calls of a run that meets the condition. -/
structure Inv (s : Scanner) : Prop where
  /-- Every task is joined, or the next stop finds its handle. -/
  held : ∀ t ∈ s.spawned, t ∈ s.joined ∨ t ∈ s.handles ∨ ∃ c ∈ s.ctxs, t ∈ c.sweeps
  /-- Every task is cancelled, or the next stop cancels it. -/
  token : ∀ t ∈ s.spawned, t.token = s.token ∨ t.token ∈ s.cancelled
  /-- The contexts have the token of the scanner. -/
  ctx_token : ∀ c ∈ s.ctxs, c.token = s.token
  /-- A stopped scanner has no handle of a receive task. -/
  handles : s.stopped = true → s.handles = []
  /-- The tasks of a stopped scanner are cancelled. -/
  cancelled : s.stopped = true → ∀ t ∈ s.spawned, t.token ∈ s.cancelled
  /-- The token of a stopped scanner is cancelled, if it has contexts. -/
  stopped_token : s.stopped = true → s.ctxs = [] ∨ s.token ∈ s.cancelled

/-- A new scanner satisfies the invariant. -/
theorem Inv.new (config : Config) (selection : Selection) : (Scanner.new config selection).Inv where
  held t ht := by cases ht
  token t ht := by cases ht
  ctx_token c hc := by cases hc
  handles _ := rfl
  cancelled _ t ht := by cases ht
  stopped_token _ := .inl rfl

/-- Numbered tasks have the token that they are given. -/
theorem token_of_mem_numberTasks {token n : ℕ} {ws : List Work} {t : Task}
    (h : t ∈ numberTasks token n ws) : t.token = token := by
  induction ws generalizing n with
  | nil => cases h
  | cons w ws ih =>
    rcases List.mem_cons.mp h with rfl | h
    · rfl
    · exact ih h

/-- The loop of `scan` keeps the tokens of the contexts and the handles in them, and adds the
handles of the new sweeps. -/
theorem scanCtxs_spec (config : Config) (n token : ℕ) {cs : List Ctx}
    (hcs : ∀ c ∈ cs, c.token = token) :
    (∀ c ∈ (scanCtxs config n cs).1, c.token = token) ∧
    (∀ t ∈ (scanCtxs config n cs).2, t.token = token) ∧
    ∀ t, (t ∈ (scanCtxs config n cs).2 ∨ ∃ c ∈ cs, t ∈ c.sweeps) →
      ∃ c ∈ (scanCtxs config n cs).1, t ∈ c.sweeps := by
  induction cs generalizing n with
  | nil => simp [scanCtxs]
  | cons c cs ih =>
    obtain ⟨hctx, hnew, hheld⟩ := ih (n + (numberTasks c.token n (c.engine.sweeps config)).length)
      fun d hd => hcs d (List.mem_cons_of_mem _ hd)
    have hc := hcs c List.mem_cons_self
    simp only [scanCtxs, List.mem_cons, List.mem_append]
    refine ⟨?_, ?_, ?_⟩
    · rintro d (rfl | hd)
      · exact hc
      · exact hctx d hd
    · rintro t (ht | ht)
      · rw [token_of_mem_numberTasks ht, hc]
      · exact hnew t ht
    · rintro t ((ht | ht) | ⟨d, rfl | hd, ht⟩)
      · exact ⟨_, .inl rfl, List.mem_append_right _ ht⟩
      · obtain ⟨d, hd, ht⟩ := hheld t (.inl ht)
        exact ⟨d, .inr hd, ht⟩
      · exact ⟨_, .inl rfl, List.mem_append_left _ ht⟩
      · obtain ⟨d, hd, ht⟩ := hheld t (.inr ⟨d, hd, ht⟩)
        exact ⟨d, .inr hd, ht⟩

/-- A start that opens no source before its first fatal attempt spawns no task. -/
theorem startTasks_eq_nil {s : Scanner} {os : Os} {ifaces : List Iface}
    (h : ∀ a ∈ performed os.fatal (s.attempts os ifaces), os.result a ≠ .bound) :
    s.startTasks os ifaces = [] := by
  have hjobs : s.startJobs os ifaces = [] :=
    List.flatMap_eq_nil_iff.mpr fun a ha => if_neg (h a ha)
  rw [startTasks, hjobs]
  rfl

/-- A start that meets the condition keeps the invariant. -/
theorem Inv.start {s : Scanner} (h : s.Inv) (os : Os) (ifaces : List Iface)
    (hc : s.MayCall (.start os ifaces)) : (s.start os ifaces).1.Inv := by
  obtain ⟨hstopped, hifaces⟩ := hc
  obtain ⟨-, heq⟩ | ⟨hne, engines, result, heq, -⟩ := s.start_cases os ifaces
  · rw [heq]
    exact ⟨h.held, h.token, h.ctx_token, nofun, nofun, nofun⟩
  · rw [heq]
    -- The old contexts have no sweeps, and a start that fails has opened nothing.
    obtain ⟨hsweeps, hfatal⟩ := hifaces hne
    refine ⟨fun t ht => ?_, fun t ht => ?_, fun c hc => ?_, nofun, nofun, nofun⟩
    · rcases List.mem_append.mp ht with ht | ht
      · -- The handles of earlier tasks are all joined, since the scanner is stopped.
        rcases h.held t ht with hjoined | hhandle | ⟨c, hc, hsweep⟩
        · exact .inl hjoined
        · rw [h.handles hstopped] at hhandle
          cases hhandle
        · rw [hsweeps c hc] at hsweep
          cases hsweep
      · rcases hfatal with hall | hnone
        · rw [if_pos hall]
          exact .inr (.inl ht)
        · rw [startTasks_eq_nil hnone] at ht
          cases ht
    · -- The token is replaced, but the tasks of the old one have been cancelled.
      rcases List.mem_append.mp ht with ht | ht
      · exact .inr (h.cancelled hstopped t ht)
      · exact .inl (token_of_mem_numberTasks ht)
    · obtain ⟨e, -, rfl⟩ := List.mem_map.mp hc
      rfl

/-- A scan keeps the invariant. -/
theorem Inv.scan {s : Scanner} (h : s.Inv) : s.scan.Inv := by
  obtain ⟨hctx, hnew, hheld⟩ := scanCtxs_spec s.config s.spawned.length s.token h.ctx_token
  refine ⟨fun t ht => ?_, fun t ht => ?_, hctx, h.handles, fun hstopped t ht => ?_,
    fun hstopped => ?_⟩
  · rcases List.mem_append.mp ht with ht | ht
    · rcases h.held t ht with hjoined | hhandle | hsweep
      · exact .inl hjoined
      · exact .inr (.inl hhandle)
      · exact .inr (.inr (hheld t (.inr hsweep)))
    · exact .inr (.inr (hheld t (.inl ht)))
  · rcases List.mem_append.mp ht with ht | ht
    · exact h.token t ht
    · exact .inl (hnew t ht)
  · rcases List.mem_append.mp ht with ht | ht
    · exact h.cancelled hstopped t ht
    · -- A sweep of a stopped scanner starts with a token that is cancelled.
      rcases h.stopped_token hstopped with hnil | htoken
      · rw [hnil] at ht
        cases ht
      · rw [hnew t ht]
        exact htoken
  · rcases h.stopped_token hstopped with hnil | htoken
    · left
      rw [Scanner.scan, hnil]
      rfl
    · exact .inr htoken

/-- After a stop, the tasks of a scanner with the invariant are cancelled and joined. -/
theorem Inv.allJoined_stop {s : Scanner} (h : s.Inv) : s.stop.AllJoined := by
  intro t ht
  constructor
  · rcases h.held t ht with hjoined | hhandle | ⟨c, hc, hsweep⟩
    · exact List.mem_append_left _ (List.mem_append_left _ hjoined)
    · exact List.mem_append_left _ (List.mem_append_right _ hhandle)
    · exact List.mem_append_right _ (List.mem_flatMap.mpr ⟨c, hc, hsweep⟩)
  · rcases h.token t ht with htoken | hcancelled
    · rw [htoken]
      exact List.mem_cons_self
    · exact List.mem_cons_of_mem _ hcancelled

/-- A stop keeps the invariant. -/
theorem Inv.stop {s : Scanner} (h : s.Inv) : s.stop.Inv where
  held t ht := .inl (h.allJoined_stop t ht).1
  token t ht := .inr (h.allJoined_stop t ht).2
  ctx_token c hc := by
    obtain ⟨d, hd, rfl⟩ := List.mem_map.mp hc
    exact h.ctx_token d hd
  handles _ := rfl
  cancelled _ t ht := (h.allJoined_stop t ht).2
  stopped_token _ := .inr List.mem_cons_self

/-- A call that meets the condition keeps the invariant. -/
theorem Inv.call {s : Scanner} (h : s.Inv) (c : Call) (hc : s.MayCall c) : (s.call c).Inv := by
  cases c with
  | start os ifaces => exact h.start os ifaces hc
  | scan => exact h.scan
  | stop => exact h.stop

/-- In every run whose calls meet the condition, all tasks that have been spawned are cancelled and
joined when a stop returns. -/
theorem stopped_all_joined (config : Config) (selection : Selection) (calls : List Call)
    (h : Machine.Along call MayCall (Scanner.new config selection) calls) :
    (Machine.run call (Scanner.new config selection) (calls ++ [.stop])).AllJoined := by
  have hinv : (Machine.run call (Scanner.new config selection) calls).Inv :=
    Machine.run_inv_along (fun s c hs hc => hs.call c hc) (Inv.new config selection) h
  rw [Machine.run_append]
  exact hinv.allJoined_stop

/-- A scanner that is started twice, with a scan, and stopped after each start. -/
theorem stopped_all_joined_twice :
    (Machine.run call exampleScanner
      ([.start (exampleOs []) [exampleIface], .scan, .stop, .start (exampleOs []) [exampleIface]] ++
        [.stop])).AllJoined :=
  stopped_all_joined { } exampleSelection
    [.start (exampleOs []) [exampleIface], .scan, .stop, .start (exampleOs []) [exampleIface]]
    (by decide +kernel)

/-- A start that fails at the port of WSDiscovery leaves the receive tasks of SSDP behind. -/
theorem stopped_all_joined_busy :
    ¬ (Machine.run call exampleScanner
      [.start (exampleOs [3702]) [exampleIface], .stop]).AllJoined := by
  decide +kernel

end Uscan.Scanner
