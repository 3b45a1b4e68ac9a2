import Mathlib.Tactic.Common

/-!
# Programs that stop at a fatal attempt

A program that opens resources one after the other keeps a state, logs what it has opened, and gives
up at the first attempt that is fatal; what it has logged before stays logged. `Follows m p` says
that the program `m` makes the attempts that the script `p` lists for the state it starts in. The
rules of `Follows` compose it along the program; at its end, `Follows.isOk_iff` says when the
program succeeds and `Follows.log` what it has logged, however it ends.
-/

namespace Uscan.Attempts

variable {σ β ε γ δ α ι : Type}

/-! ## Programs -/

/-- A state, and the log so far. -/
structure Logged (σ β : Type) where
  /-- The state. -/
  state : σ
  /-- The log. -/
  log : List β

/-- A program with a state and a log that may fail. -/
def Prog (σ β ε γ : Type) : Type := Logged σ β → Except ε γ × Logged σ β

namespace Prog

instance : Monad (Prog σ β ε) where
  pure c s := (.ok c, s)
  bind m f s :=
    match m s with
    | (.ok c, s') => f c s'
    | (.error e, s') => (.error e, s')

/-- Gives up. -/
def fail (e : ε) : Prog σ β ε γ := fun s => (.error e, s)

/-- Adds an entry to the log. -/
def emit (b : β) : Prog σ β ε Unit := fun s => (.ok (), ⟨s.state, s.log ++ [b]⟩)

/-- A step on the state. -/
def onState (f : σ → γ × σ) : Prog σ β ε γ := fun s => (.ok (f s.state).1, ⟨(f s.state).2, s.log⟩)

/-- A program for each element of a list, in order. -/
def each (f : ι → Prog σ β ε Unit) : List ι → Prog σ β ε Unit
  | [] => pure ()
  | i :: is => do
    f i
    each f is

end Prog

/-! ## Scripts -/

/-- The attempts of a program in a state, were none of them fatal, and the state after them. -/
def Script (σ α : Type) : Type := σ → List α × σ

namespace Script

/-- No attempt. -/
def nil : Script σ α := fun s => ([], s)

/-- One attempt. -/
def one (a : α) : Script σ α := fun s => ([a], s)

/-- The attempts of one script and then those of another. -/
def seq (p q : Script σ α) : Script σ α := fun s =>
  ((p s).1 ++ (q (p s).2).1, (q (p s).2).2)

/-- A script after a step on the state. -/
def after (f : σ → γ × σ) (p : γ → Script σ α) : Script σ α := fun s => p (f s).1 (f s).2

/-- The scripts of the elements of a list, in order. -/
def each (p : ι → Script σ α) : List ι → Script σ α
  | [] => nil
  | i :: is => seq (p i) (each p is)

/-- Every script of a list has an attempt of a kind if one of an element has it in any state. -/
theorem exists_mem_each {p : ι → Script σ α} {P : α → Prop} {i : ι} {is : List ι} (hi : i ∈ is)
    (h : ∀ s, ∃ a ∈ (p i s).1, P a) (s : σ) : ∃ a ∈ (each p is s).1, P a := by
  induction is generalizing s with
  | nil => cases hi
  | cons j is ih =>
    rcases List.mem_cons.mp hi with rfl | hi
    · obtain ⟨a, ha, hP⟩ := h s
      exact ⟨a, List.mem_append_left _ ha, hP⟩
    · obtain ⟨a, ha, hP⟩ := ih hi (p j s).2
      exact ⟨a, List.mem_append_right _ ha, hP⟩

/-- An attempt of an element of a list, in whatever state its script starts. -/
theorem mem_each {p : ι → Script σ α} {a : α} {i : ι} {is : List ι} (hi : i ∈ is)
    (ha : ∀ s, a ∈ (p i s).1) (s : σ) : a ∈ (each p is s).1 := by
  obtain ⟨b, hb, rfl⟩ := exists_mem_each (P := (· = a)) hi (fun s => ⟨a, ha s, rfl⟩) s
  exact hb

theorem seq_assoc (p q r : Script σ α) : seq (seq p q) r = seq p (seq q r) := by
  funext s
  simp only [seq, List.append_assoc]

/-- The scripts of two lists, one after the other. -/
theorem each_append (p : ι → Script σ α) (is js : List ι) :
    each p (is ++ js) = seq (each p is) (each p js) := by
  induction is with
  | nil => rfl
  | cons i is ih => rw [List.cons_append, each, ih, each, seq_assoc]

/-! ### Scripts with more in them -/

/-- A script whose attempts stand for others. -/
def lift (f : α → β) (p : Script σ α) : Script σ β := fun s => ((p s).1.map f, (p s).2)

/-- The attempts among the entries of a script. -/
def erase (f : β → Option α) (p : Script σ β) : Script σ α := fun s =>
  ((p s).1.filterMap f, (p s).2)

theorem erase_seq (f : β → Option α) (p q : Script σ β) :
    erase f (seq p q) = seq (erase f p) (erase f q) := by
  funext s
  simp only [erase, seq, List.filterMap_append]

theorem erase_each (f : β → Option α) (p : ι → Script σ β) (is : List ι) :
    erase f (each p is) = each (fun i => erase f (p i)) is := by
  induction is with
  | nil => rfl
  | cons i is ih => rw [each, erase_seq, ih, each]

/-- An entry that is no attempt does not count. -/
theorem erase_one_seq {f : β → Option α} {b : β} (h : f b = none) (p : Script σ β) :
    erase f (seq (one b) p) = erase f p := by
  funext s
  simp only [erase, seq, one, List.cons_append, List.nil_append, List.filterMap_cons_none h]

/-- Attempts that stand for others are those others. -/
theorem erase_lift {f : β → Option α} {g : α → β} (h : ∀ a, f (g a) = some a) (p : Script σ α) :
    erase f (lift g p) = p := by
  have hfg : f ∘ g = some := funext h
  funext s
  simp only [erase, lift, List.filterMap_map, hfg, List.filterMap_some]

/-! ### Invariants -/

/-- From a state with `I`, a script has entries with `P` only, and ends in a state with `I`. -/
def Keeps (I : σ → Prop) (P : α → Prop) (p : Script σ α) : Prop :=
  ∀ s, I s → (∀ a ∈ (p s).1, P a) ∧ I (p s).2

section Keeps

variable {I : σ → Prop} {P : α → Prop}

theorem keeps_nil : Keeps I P (nil : Script σ α) := fun _ hs =>
  ⟨fun _ ha => absurd ha List.not_mem_nil, hs⟩

theorem keeps_one {a : α} (h : P a) : Keeps I P (one a : Script σ α) := fun _ hs =>
  ⟨fun _ hb => List.mem_singleton.mp hb ▸ h, hs⟩

theorem Keeps.seq {p q : Script σ α} (hp : Keeps I P p) (hq : Keeps I P q) :
    Keeps I P (seq p q) := by
  intro s hs
  obtain ⟨hfirst, hmid⟩ := hp s hs
  obtain ⟨hsecond, hend⟩ := hq _ hmid
  exact ⟨List.forall_mem_append.mpr ⟨hfirst, hsecond⟩, hend⟩

theorem Keeps.each {p : ι → Script σ α} {is : List ι} (hp : ∀ i ∈ is, Keeps I P (p i)) :
    Keeps I P (each p is) := by
  induction is with
  | nil => exact keeps_nil
  | cons i is ih =>
    obtain ⟨hi, his⟩ := List.forall_mem_cons.mp hp
    exact hi.seq (ih his)

end Keeps

/-! ### New values -/

/-- The state of a script remembers what it has seen, and what the entries of the script stand for
is different, was not seen before, and is seen afterwards. -/
structure Fresh (seen : σ → β → Prop) (out : α → List β) (p : Script σ α) : Prop where
  /-- What was seen is seen afterwards. -/
  mono (s : σ) (b : β) (h : seen s b) : seen (p s).2 b
  /-- The values differ. -/
  nodup (s : σ) : ((p s).1.flatMap out).Nodup
  /-- They are new. -/
  new (s : σ) : ∀ b ∈ (p s).1.flatMap out, ¬ seen s b ∧ seen (p s).2 b

section Fresh

variable {seen : σ → β → Prop} {out : α → List β}

theorem fresh_nil : Fresh seen out (nil : Script σ α) where
  mono _ _ h := h
  nodup _ := List.nodup_nil
  new _ _ hb := absurd hb List.not_mem_nil

/-- An entry that stands for nothing. -/
theorem fresh_one {a : α} (h : out a = []) : Fresh seen out (one a : Script σ α) where
  mono _ _ h := h
  nodup s := by rw [one, List.flatMap_singleton, h]; exact List.nodup_nil
  new s b hb := by rw [one, List.flatMap_singleton, h] at hb; cases hb

theorem Fresh.seq {p q : Script σ α} (hp : Fresh seen out p) (hq : Fresh seen out q) :
    Fresh seen out (seq p q) where
  mono s b h := hq.mono _ b (hp.mono s b h)
  nodup s := by
    rw [Script.seq, List.flatMap_append]
    refine List.nodup_append.mpr ⟨hp.nodup s, hq.nodup _, ?_⟩
    -- What the second one stands for was not seen when the first one ended.
    rintro b hb b' hb' rfl
    exact (hq.new _ b hb').1 (hp.new s b hb).2
  new s b hb := by
    rw [Script.seq, List.flatMap_append] at hb
    rcases List.mem_append.mp hb with hb | hb
    · exact ⟨(hp.new s b hb).1, hq.mono _ b (hp.new s b hb).2⟩
    · exact ⟨fun h => (hq.new _ b hb).1 (hp.mono s b h), (hq.new _ b hb).2⟩

theorem Fresh.each {p : ι → Script σ α} {is : List ι} (hp : ∀ i ∈ is, Fresh seen out (p i)) :
    Fresh seen out (each p is) := by
  induction is with
  | nil => exact fresh_nil
  | cons i is ih =>
    obtain ⟨hi, his⟩ := List.forall_mem_cons.mp hp
    exact hi.seq (ih his)

/-- A step on the state that remembers one more value, and a script that stands for no other. -/
theorem Fresh.after {f : σ → γ × σ} {p : γ → Script σ α} {value : γ → List β}
    (hseen : ∀ s b, seen s b → seen (f s).2 b)
    (hnew : ∀ s, (value (f s).1).Nodup ∧ ∀ b ∈ value (f s).1, ¬ seen s b ∧ seen (f s).2 b)
    (hp : ∀ c s, (p c s).2 = s ∧ ((p c s).1.flatMap out).Sublist (value c)) :
    Fresh seen out (after f p) where
  mono s b h := by
    change seen (p (f s).1 (f s).2).2 b
    rw [(hp _ _).1]
    exact hseen s b h
  nodup s := (hnew s).1.sublist (hp _ _).2
  new s b hb := by
    obtain ⟨hnot, hafter⟩ := (hnew s).2 b ((hp _ _).2.subset hb)
    change ¬ seen s b ∧ seen (p (f s).1 (f s).2).2 b
    rw [(hp _ _).1]
    exact ⟨hnot, hafter⟩

end Fresh

end Script

/-! ## Programs that follow a script -/

variable {fatal : α → Bool} {effect : α → List β}

/-- The attempts before the first fatal one. -/
def performed (fatal : α → Bool) (as : List α) : List α := as.takeWhile fun a => !fatal a

/-- After attempts that are not fatal, the others follow. -/
theorem performed_append_of_pos {as bs : List α} (h : ∀ a ∈ as, fatal a = false) :
    performed fatal (as ++ bs) = as ++ performed fatal bs :=
  List.takeWhile_append_of_pos fun a ha => by rw [h a ha]; rfl

/-- Without a fatal attempt, all are performed. -/
theorem performed_eq_self {as : List α} (h : ∀ a ∈ as, fatal a = false) :
    performed fatal as = as := by
  have happend : performed fatal (as ++ []) = as ++ performed fatal [] :=
    performed_append_of_pos h
  rw [List.append_nil] at happend
  rw [happend]
  exact List.append_nil as

/-- After a fatal attempt, no other one follows. -/
theorem performed_append_of_neg {as bs : List α} (h : ∃ a ∈ as, fatal a = true) :
    performed fatal (as ++ bs) = performed fatal as := by
  induction as with
  | nil => simp at h
  | cons a as ih =>
    cases ha : fatal a with
    | true => simp [performed, ha]
    | false =>
      have hrest : ∃ a ∈ as, fatal a = true := by simpa [ha] using h
      have := ih hrest
      simpa [performed, ha] using this

/-- The program makes the attempts of the script: it logs what those before the first fatal one
open, it ends in the state of the script if none is fatal, and it fails otherwise. -/
structure Follows (fatal : α → Bool) (effect : α → List β) (m : Prog σ β ε Unit)
    (p : Script σ α) : Prop where
  /-- What is logged. -/
  log (s : Logged σ β) : (m s).2.log = s.log ++ (performed fatal (p s.state).1).flatMap effect
  /-- The end without a fatal attempt. -/
  ok (s : Logged σ β) (h : ∀ a ∈ (p s.state).1, fatal a = false) :
    (m s).1 = .ok () ∧ (m s).2.state = (p s.state).2
  /-- The end with a fatal attempt. -/
  error (s : Logged σ β) (h : ∃ a ∈ (p s.state).1, fatal a = true) : ∃ e, (m s).1 = .error e

/-- A program that does nothing. -/
theorem follows_pure : Follows fatal effect (pure () : Prog σ β ε Unit) Script.nil where
  log s := (List.append_nil s.log).symm
  ok s _ := ⟨rfl, rfl⟩
  error s h := by simp [Script.nil] at h

/-- A step on the state that makes no attempt. -/
theorem follows_onState {f : σ → Unit × σ} :
    Follows fatal effect (Prog.onState f : Prog σ β ε Unit) (Script.after f fun _ => .nil) where
  log s := (List.append_nil s.log).symm
  ok s _ := ⟨rfl, rfl⟩
  error s h := by simp [Script.after, Script.nil] at h

/-- An attempt that is not fatal and opens `b`. -/
theorem follows_emit {a : α} {b : β} (hfatal : fatal a = false) (heffect : effect a = [b]) :
    Follows fatal effect (Prog.emit b : Prog σ β ε Unit) (Script.one a) where
  log s := by simp [Prog.emit, Script.one, performed, hfatal, heffect]
  ok s _ := ⟨rfl, rfl⟩
  error s h := by simp [Script.one, hfatal] at h

/-- An attempt that is not fatal and opens nothing. -/
theorem follows_skip {a : α} (hfatal : fatal a = false) (heffect : effect a = []) :
    Follows fatal effect (pure () : Prog σ β ε Unit) (Script.one a) where
  log s := by simp [pure, Script.one, performed, hfatal, heffect]
  ok s _ := ⟨rfl, rfl⟩
  error s h := by simp [Script.one, hfatal] at h

/-- A fatal attempt. -/
theorem follows_fail {a : α} {e : ε} (hfatal : fatal a = true) :
    Follows fatal effect (Prog.fail e : Prog σ β ε Unit) (Script.one a) where
  log s := by simp [Prog.fail, Script.one, performed, hfatal]
  ok s h := by simp [Script.one, hfatal] at h
  error s _ := ⟨e, rfl⟩

/-- A program that succeeds goes on with the next one. -/
theorem Prog.seq_of_ok {m m' : Prog σ β ε Unit} {s : Logged σ β} (h : (m s).1 = .ok ()) :
    (do m; m' : Prog σ β ε Unit) s = m' (m s).2 := by
  cases hm : m s with
  | mk r s' =>
    rw [hm] at h
    cases h
    simp only [bind, hm]

/-- A program that fails does not go on. -/
theorem Prog.seq_of_error {m m' : Prog σ β ε Unit} {s : Logged σ β} {e : ε}
    (h : (m s).1 = .error e) : (do m; m' : Prog σ β ε Unit) s = (.error e, (m s).2) := by
  cases hm : m s with
  | mk r s' =>
    rw [hm] at h
    cases h
    simp only [bind, hm]

/-- Two programs in sequence. The second one starts in the state that the script of the first one
says, if no attempt of the first one is fatal. -/
theorem Follows.seq {m m' : Prog σ β ε Unit} {p q : Script σ α} (hm : Follows fatal effect m p)
    (hm' : Follows fatal effect m' q) :
    Follows fatal effect (do m; m') (Script.seq p q) where
  log s := by
    by_cases h : ∃ a ∈ (p s.state).1, fatal a = true
    · -- The second program does not run, and its attempts are not performed.
      obtain ⟨e, he⟩ := hm.error s h
      rw [Prog.seq_of_error he, hm.log, Script.seq, performed_append_of_neg h]
    · have hnot : ∀ a ∈ (p s.state).1, fatal a = false := by simpa using h
      obtain ⟨hok, hstate⟩ := hm.ok s hnot
      rw [Prog.seq_of_ok hok, hm'.log, hm.log, hstate, performed_eq_self hnot, Script.seq,
        performed_append_of_pos hnot, List.flatMap_append, List.append_assoc]
  ok s h := by
    -- Neither has a fatal attempt, so that the second starts where the first ends.
    rw [Script.seq, List.forall_mem_append] at h
    obtain ⟨hok, hstate⟩ := hm.ok s h.1
    rw [Prog.seq_of_ok hok, Script.seq, ← hstate]
    rw [← hstate] at h
    exact hm'.ok (m s).2 h.2
  error s h := by
    by_cases hfirst : ∃ a ∈ (p s.state).1, fatal a = true
    · obtain ⟨e, he⟩ := hm.error s hfirst
      exact ⟨e, by rw [Prog.seq_of_error he]⟩
    · -- The fatal attempt is one of the second program.
      have hnot : ∀ a ∈ (p s.state).1, fatal a = false := by simpa using hfirst
      obtain ⟨hok, hstate⟩ := hm.ok s hnot
      rw [Prog.seq_of_ok hok]
      apply hm'.error
      rw [hstate]
      obtain ⟨a, ha, hfatal⟩ := h
      rcases List.mem_append.mp ha with ha | ha
      · exact absurd ⟨a, ha, hfatal⟩ hfirst
      · exact ⟨a, ha, hfatal⟩

/-- A program after a step on the state. -/
theorem Follows.after {f : σ → γ × σ} {m : γ → Prog σ β ε Unit} {p : γ → Script σ α}
    (hm : ∀ c, Follows fatal effect (m c) (p c)) :
    Follows fatal effect (do let c ← Prog.onState f; m c) (Script.after f p) where
  log s := (hm (f s.state).1).log ⟨(f s.state).2, s.log⟩
  ok s h := (hm (f s.state).1).ok ⟨(f s.state).2, s.log⟩ h
  error s h := (hm (f s.state).1).error ⟨(f s.state).2, s.log⟩ h

/-- A program for each element of a list. -/
theorem Follows.each {f : ι → Prog σ β ε Unit} {p : ι → Script σ α}
    (hf : ∀ i, Follows fatal effect (f i) (p i)) (is : List ι) :
    Follows fatal effect (Prog.each f is) (Script.each p is) := by
  induction is with
  | nil => exact follows_pure
  | cons i is ih => exact (hf i).seq ih

/-- The attempts among the entries that are performed. -/
theorem filterMap_performed (f : δ → Option α) (ds : List δ) :
    (performed (fun d => (f d).any fatal) ds).filterMap f = performed fatal (ds.filterMap f) := by
  induction ds with
  | nil => rfl
  | cons d ds ih =>
    cases hd : f d with
    | none => simpa [performed, hd] using ih
    | some a =>
      cases ha : fatal a with
      | true => simp [performed, hd, ha]
      | false => simpa [performed, hd, ha] using ih

/-- What the attempts among the entries open. -/
theorem flatMap_filterMap (f : δ → Option α) (ds : List δ) :
    (ds.filterMap f).flatMap effect = ds.flatMap fun d => (f d).elim [] effect := by
  induction ds with
  | nil => rfl
  | cons d ds ih =>
    cases hd : f d with
    | none => simpa [hd] using ih
    | some a => simpa [hd] using ih

/-- A program that makes the attempts of a script with more in it. -/
theorem Follows.of_erase {m : Prog σ β ε Unit} {p : Script σ δ} {f : δ → Option α}
    (hm : Follows fatal effect m (p.erase f)) :
    Follows (fun d => (f d).any fatal) (fun d => (f d).elim [] effect) m p where
  log s := by
    have hlog : (m s).2.log =
        s.log ++ (performed fatal ((p s.state).1.filterMap f)).flatMap effect := hm.log s
    rw [hlog, ← filterMap_performed, flatMap_filterMap]
  ok s h := by
    refine hm.ok s fun a ha => ?_
    obtain ⟨d, hd, hfd⟩ := List.mem_filterMap.mp ha
    have hnot := h d hd
    rwa [hfd] at hnot
  error s h := by
    obtain ⟨d, hd, hfatal⟩ := h
    obtain ⟨a, hfd, ha⟩ := (Option.any_eq_true _ _).mp hfatal
    exact hm.error s ⟨a, List.mem_filterMap.mpr ⟨d, hd, hfd⟩, ha⟩

/-- The program succeeds exactly when no attempt is fatal. -/
theorem Follows.isOk_iff {m : Prog σ β ε Unit} {p : Script σ α} (hm : Follows fatal effect m p)
    (s : Logged σ β) : (m s).1 = .ok () ↔ ∀ a ∈ (p s.state).1, fatal a = false := by
  constructor
  · intro hok a ha
    by_contra hfatal
    obtain ⟨e, he⟩ := hm.error s ⟨a, ha, by simpa using hfatal⟩
    rw [hok] at he
    cases he
  · exact fun h => (hm.ok s h).1

end Uscan.Attempts
