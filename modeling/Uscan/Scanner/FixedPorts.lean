import Uscan.Ports.Runs
import Uscan.Scanner.Events

/-!
# The fixed ports of the engines

A start reserves the ports that the engines name in `used_ports` before anything listens, so that no
search of a free port returns one of them. Every engine reserves the ports of its own global and
multicast sockets, but for Panasonic, which reserves the port that it sends to, 10670, and listens
on another one, 10669 (`Engine.fixed_reserved`).

So the only fixed port that a search can take from a later socket is Panasonic's, whatever the
operating system answers (`Scanner.takes_panasonic`). Without a search before Panasonic listens none
is taken (`Scanner.keepsFixed`). With one, there is a seed for which the first search takes the port
(`Gives`), so that the fixed ports are kept exactly without one (`Scanner.keepsFixed_iff`).
-/

namespace Uscan

open Attempts

/-! ## What a start takes -/

namespace PortEvent

/-- A search takes the port of a socket that an engine comes to later. -/
def Takes : PortEvent → PortEvent → Prop
  | .search _ _ found, .fixed _ port => found = some port
  | _, _ => False

/-- An event that is no search. -/
def NoSearch : PortEvent → Prop
  | .search _ _ _ => False
  | _ => True

/-- An event that is no socket of Panasonic on a fixed port. -/
def NotPanasonic (ev : PortEvent) : Prop := ∀ port, ev ≠ .fixed .panasonic port

/-- What a start does with the ports that are reserved: no search finds one, and the sockets on
fixed ports are on these, but for the one of Panasonic. -/
def Respects (reserved : UInt16 → Prop) : PortEvent → Prop
  | .search _ _ found => ∀ port ∈ found, ¬ reserved port
  | .fixed e port => reserved port ∨ (e = .panasonic ∧ port = 10669)
  | .attempt _ => True

/-- Where the reserved ports are respected, only the port of Panasonic is taken. -/
theorem Takes.eq_panasonic {reserved : UInt16 → Prop} {x y : PortEvent} (hx : x.Respects reserved)
    (hy : y.Respects reserved) (h : x.Takes y) : y = .fixed .panasonic 10669 := by
  cases x with
  | search job before found =>
    cases y with
    | fixed e port =>
      rcases hy with hreserved | ⟨rfl, rfl⟩
      · exact absurd hreserved (hx port h)
      · rfl
    | search job' before' found' => exact h.elim
    | attempt a => exact h.elim
  | fixed e port => exact h.elim
  | attempt a => exact h.elim

/-- Only a search takes a port. -/
theorem NoSearch.not_takes {x y : PortEvent} (hx : x.NoSearch) : ¬ x.Takes y := by
  cases x with
  | search job before found => exact hx.elim
  | fixed e port => exact id
  | attempt a => exact id

end PortEvent

/-- Every engine but Panasonic reserves the ports of its own sockets. -/
theorem Engine.fixed_reserved (e : Engine) : ∀ o ∈ e.openings, ∀ port ∈ o.fixedPort,
    port ∈ e.usedPorts ∨ (e = .panasonic ∧ port = 10669) := by
  have hall : e.openings.all (fun o => o.fixedPort.all fun port =>
      e.usedPorts.contains port || (e == .panasonic && port == 10669)) = true := by
    cases e <;> rfl
  intro o ho port hport
  have hport := (Option.all_eq_true _ _).mp (List.all_eq_true.mp hall o ho) port hport
  simpa using hport

/-- No engine reserves the port that Panasonic listens on. -/
theorem Engine.notMem_usedPorts (e : Engine) : 10669 ∉ e.usedPorts := by
  cases e <;> decide

/-! ### The reserved ports -/

/-- The provider of a start, with the ports of its engines reserved. -/
def reserveAll (ports : PortProvider) (entries : List (UInt16 × Engine)) : PortProvider :=
  entries.foldl (fun ports entry => ports.reserve entry.2.usedPorts) ports

/-- A start reserves the ports of its engines, and no others. -/
theorem mem_used_reserveAll (ports : PortProvider) (entries : List (UInt16 × Engine))
    (port : UInt16) : port ∈ (reserveAll ports entries).used ↔
      (∃ entry ∈ entries, port ∈ entry.2.usedPorts) ∨ port ∈ ports.used := by
  induction entries generalizing ports with
  | nil => simp [reserveAll]
  | cons entry entries ih =>
    refine (ih (ports.reserve entry.2.usedPorts)).trans ?_
    rw [PortProvider.mem_used_reserve, List.exists_mem_cons_iff, or_left_comm, or_assoc]

/-- A reservation does not draw from the generator. -/
theorem reserveAll_state (ports : PortProvider) (entries : List (UInt16 × Engine)) :
    (reserveAll ports entries).state = ports.state := by
  induction entries generalizing ports with
  | nil => rfl
  | cons entry entries ih => exact ih (ports.reserve entry.2.usedPorts)

/-- A search of a start only takes the port of Panasonic. -/
theorem Scanner.takes_panasonic (s : Scanner) (os : Os) (ifaces : List Iface) :
    ∀ x ∈ s.allEvents os ifaces, ∀ y ∈ s.allEvents os ifaces,
      x.Takes y → y = .fixed .panasonic 10669 := by
  let reserved (port : UInt16) : Prop := ∃ entry ∈ s.selection.entries, port ∈ entry.2.usedPorts
  have hkeeps : Script.Keeps (fun l : Listening => ∀ port, reserved port → port ∈ l.ports.used)
      (PortEvent.Respects reserved)
      (listenEvents os s.config (nicIps ifaces) s.selection.entries) := by
    apply keeps_listenEvents (I := fun ports => ∀ port, reserved port → port ∈ ports.used)
    · intro job ports hports
      obtain ⟨port, state, hfree, -, -, hnew⟩ | hfree := ports.freePort_spec (os.trial job)
      · rw [hfree]
        refine ⟨?_, fun port' hport' => Finset.mem_insert_of_mem (hports port' hport')⟩
        rintro port' ⟨⟩ hreserved
        exact hnew (hports _ hreserved)
      · rw [hfree]
        exact ⟨fun port' hport' => absurd hport' (Option.not_mem_none _), hports⟩
    · exact fun _ => trivial
    · intro entry hentry o ho port hport
      exact (entry.2.fixed_reserved o ho port hport).imp_left fun hused => ⟨entry, hentry, hused⟩
  have hrespects := (hkeeps (s.listenFrom os).state fun port hport =>
    (mem_used_reserveAll _ _ port).mpr (.inl hport)).1
  exact fun x hx y hy => PortEvent.Takes.eq_panasonic (hrespects x hx) (hrespects y hy)

/-! ## Starts that keep the fixed ports -/

/-- The engines before Panasonic. -/
def beforePanasonic (entries : List (UInt16 × Engine)) : List (UInt16 × Engine) :=
  entries.takeWhile fun entry => entry.2 != .panasonic

/-- A start searches a free port before Panasonic listens: for an engine before it, or for the
broker. -/
def Scanner.SearchesBeforePanasonic (s : Scanner) (ifaces : List Iface) : Prop :=
  ifaces ≠ [] ∧ (∃ entry ∈ s.selection.entries, entry.2 = .panasonic) ∧
    ((nicIps ifaces ≠ [] ∧ ∃ entry ∈ s.selection.entries, entry.2.consumesMdns) ∨
      ∃ entry ∈ beforePanasonic s.selection.entries, entry.2.Searches (nicIps ifaces))

/-- No search takes the port of a socket that an engine comes to later. -/
def KeepsFixed (evs : List PortEvent) : Prop := evs.Pairwise fun x y => ¬ x.Takes y

/-- The engines before Panasonic, Panasonic, and the engines after it. -/
theorem exists_eq_beforePanasonic {entries : List (UInt16 × Engine)}
    (h : ∃ entry ∈ entries, entry.2 = .panasonic) :
    ∃ id post, entries = beforePanasonic entries ++ (id, .panasonic) :: post := by
  have hsplit := List.takeWhile_append_dropWhile (p := fun entry => entry.2 != .panasonic)
    (l := entries)
  cases hrest : entries.dropWhile fun entry => entry.2 != .panasonic with
  | nil =>
    obtain ⟨entry, hentry, hpanasonic⟩ := h
    have hne := List.dropWhile_eq_nil_iff.mp hrest entry hentry
    rw [hpanasonic] at hne
    cases hne
  | cons entry post =>
    obtain ⟨id, e⟩ := entry
    have hne : (entries.dropWhile fun entry => entry.2 != .panasonic) ≠ [] := by
      rw [hrest]
      exact List.cons_ne_nil _ _
    have hhead := List.head_dropWhile_not _ hne
    simp only [hrest, List.head_cons, bne_eq_false_iff_eq] at hhead
    subst hhead
    refine ⟨id, post, ?_⟩
    rw [beforePanasonic, ← hrest, hsplit]

/-- No engine is selected twice. -/
theorem Selection.nodup (s : Selection) : (s.entries.map (·.2)).Nodup := by
  have hsublist : s.entries.Sublist registry := by
    obtain ⟨filter, entries, hselect⟩ := s
    cases filter with
    | none =>
      cases hselect
      exact List.Sublist.refl _
    | some wanted =>
      simp only [selectEntries] at hselect
      split at hselect
      · cases hselect
      · cases hselect
        exact List.filter_sublist
  exact (hsublist.map _).nodup registry_nodup.2

section

variable (os : Os) (config : Config) (nics : List Ipv4Addr)

/-- The events before Panasonic listens. -/
def beforeEvents (entries : List (UInt16 × Engine)) : Script Listening PortEvent :=
  Script.seq (brokerPart os nics entries)
    (Script.each (entryEvents os config nics) (beforePanasonic entries))

/-- The events after Panasonic comes to its socket on a fixed port, with the engines after it. -/
def afterEvents (post : List (UInt16 × Engine)) : Script Listening PortEvent :=
  Script.seq ((globalScript os config .panasonic 10669).lift .attempt)
    (Script.seq (ifaceEvents os nics (some .panasonic))
      (Script.seq (enterCtx .panasonic) (Script.each (entryEvents os config nics) post)))

/-- A start with Panasonic comes to its socket on a fixed port once. -/
theorem listenEvents_panasonic {entries : List (UInt16 × Engine)}
    (h : ∃ entry ∈ entries, entry.2 = .panasonic) :
    ∃ id post, entries = beforePanasonic entries ++ (id, .panasonic) :: post ∧
      listenEvents os config nics entries =
        Script.seq (beforeEvents os config nics entries)
          (Script.seq (Script.one (.fixed .panasonic 10669))
            (afterEvents os config nics post)) := by
  obtain ⟨id, post, hentries⟩ := exists_eq_beforePanasonic h
  have hpanasonic : Engine.panasonic.events os config nics =
      Script.seq (Script.one (.fixed .panasonic 10669))
        (Script.seq ((globalScript os config .panasonic 10669).lift .attempt)
          (ifaceEvents os nics (some .panasonic))) := by
    funext l
    simp [Engine.events, Engine.openings, Script.each, Script.seq, Opening.events, Script.one,
      Script.nil]
  refine ⟨id, post, hentries, ?_⟩
  have heach := congrArg (Script.each (entryEvents os config nics)) hentries
  rw [Script.each_append, Script.each, entryEvents, hpanasonic] at heach
  rw [listenEvents, heach, beforeEvents, afterEvents]
  simp only [Script.seq_assoc]

end

section

variable {os : Os} {config : Config} {nics : List Ipv4Addr} {I : PortProvider → Prop}
  {P : PortEvent → Prop}

/-- The events after Panasonic comes to its socket on a fixed port. -/
theorem keeps_afterEvents {post : List (UInt16 × Engine)}
    (hsearch : SearchKeeps os I P)
    (hattempt : ∀ a, P (.attempt a))
    (hfixed : ∀ entry ∈ post, ∀ o ∈ entry.2.openings, ∀ port ∈ o.fixedPort,
      P (.fixed entry.2 port)) :
    Script.Keeps (fun l => I l.ports) P (afterEvents os config nics post) := by
  refine (keeps_globalScript hattempt).seq ?_
  refine (keeps_ifaceEvents (fun _ => hsearch) hattempt).seq ?_
  exact (keeps_enterCtx _).seq (keeps_entryEvents (fun _ _ _ => hsearch) hattempt hfixed)

end

/-- Events without a search, and then events without a socket of Panasonic, keep the fixed ports if
these are all that can be taken. -/
theorem keepsFixed_append {pre post : List PortEvent} (hpre : ∀ x ∈ pre, x.NoSearch)
    (hpost : ∀ y ∈ post, y.NotPanasonic)
    (htakes : ∀ x ∈ pre ++ post, ∀ y ∈ pre ++ post, x.Takes y → y = .fixed .panasonic 10669) :
    KeepsFixed (pre ++ post) := by
  have hfirst : ∀ x ∈ pre, ∀ y, ¬ x.Takes y := fun x hx y => (hpre x hx).not_takes
  have hsecond : ∀ x ∈ post, ∀ y ∈ post, ¬ x.Takes y := fun x hx y hy hxy =>
    hpost y hy 10669 (htakes x (List.mem_append_right _ hx) y (List.mem_append_right _ hy) hxy)
  exact List.pairwise_append.mpr
    ⟨List.pairwise_of_forall_mem_list fun x hx y _ => hfirst x hx y,
      List.pairwise_of_forall_mem_list hsecond, fun x hx y _ => hfirst x hx y⟩

/-- A start without a search before Panasonic listens has none in its events. -/
theorem Scanner.noSearch_beforeEvents {s : Scanner} (os : Os) {ifaces : List Iface}
    (hifaces : ifaces ≠ []) (hselected : ∃ entry ∈ s.selection.entries, entry.2 = .panasonic)
    (h : ¬ s.SearchesBeforePanasonic ifaces) (l : Listening) :
    ∀ ev ∈ (beforeEvents os s.config (nicIps ifaces) s.selection.entries l).1, ev.NoSearch := by
  have hnot := fun hcase => h ⟨hifaces, hselected, hcase⟩
  have hkeeps : Script.Keeps (fun _ => True) PortEvent.NoSearch
      (beforeEvents os s.config (nicIps ifaces) s.selection.entries) := by
    apply Script.Keeps.seq
    · exact keeps_brokerPart (I := fun _ => True) (fun hcase => absurd (.inl hcase) hnot)
        fun _ => trivial
    · exact keeps_entryEvents (I := fun _ => True)
        (fun entry hentry hcase => absurd (.inr ⟨entry, hentry, hcase⟩) hnot)
        (fun _ => trivial) fun _ _ _ _ _ _ => trivial
  exact (hkeeps l trivial).1

/-- A start that makes no search before Panasonic listens keeps the fixed ports, whatever the
operating system answers. -/
theorem Scanner.keepsFixed (s : Scanner) (os : Os) {ifaces : List Iface}
    (h : ¬ s.SearchesBeforePanasonic ifaces) : KeepsFixed (s.events os ifaces) := by
  by_cases hifaces : ifaces = []
  · rw [events, if_pos hifaces]
    exact .nil
  refine List.Pairwise.sublist (s.events_sublist os ifaces) ?_
  have htakes := s.takes_panasonic os ifaces
  have hsearch : SearchKeeps os (fun _ => True) PortEvent.NotPanasonic := by
    intro job ports _
    refine ⟨fun port heq => ?_, trivial⟩
    cases heq
  have hattempt : ∀ a, (PortEvent.attempt a).NotPanasonic := by
    intro a port heq
    cases heq
  have hfixed {e : Engine} (he : e ≠ .panasonic) (port : UInt16) :
      (PortEvent.fixed e port).NotPanasonic :=
    fun port' heq => he (PortEvent.fixed.inj heq).1
  by_cases hselected : ∃ entry ∈ s.selection.entries, entry.2 = .panasonic
  · obtain ⟨id, post, hentries, hevents⟩ :=
      listenEvents_panasonic os s.config (nicIps ifaces) hselected
    -- No engine after Panasonic is Panasonic.
    have hpost : ∀ entry ∈ post, entry.2 ≠ .panasonic := by
      intro entry hentry heq
      have hnodup := s.selection.nodup
      rw [hentries, List.map_append, List.map_cons] at hnodup
      have hnotMem := (List.nodup_cons.mp hnodup.of_append_right).1
      exact hnotMem (List.mem_map.mpr ⟨entry, hentry, heq⟩)
    have hafter : Script.Keeps (fun _ => True) PortEvent.NotPanasonic
        (afterEvents os s.config (nicIps ifaces) post) :=
      keeps_afterEvents hsearch hattempt fun entry hentry o ho port hport =>
        hfixed (hpost entry hentry) port
    have hbefore := noSearch_beforeEvents os hifaces hselected h (s.listenFrom os).state
    rw [allEvents, hevents] at htakes ⊢
    simp only [Script.seq, Script.one, List.singleton_append] at htakes ⊢
    rw [List.append_cons] at htakes ⊢
    refine keepsFixed_append ?_ (hafter _ trivial).1 htakes
    exact List.forall_mem_append.mpr ⟨hbefore, List.forall_mem_singleton.mpr trivial⟩
  · have hkeeps : Script.Keeps (fun _ => True) PortEvent.NotPanasonic
        (listenEvents os s.config (nicIps ifaces) s.selection.entries) :=
      keeps_listenEvents hsearch hattempt fun entry hentry o ho port hport =>
        hfixed (fun heq => hselected ⟨entry, hentry, heq⟩) port
    change KeepsFixed ([] ++ s.allEvents os ifaces)
    exact keepsFixed_append (fun x hx => absurd hx List.not_mem_nil)
      (hkeeps (s.listenFrom os).state trivial).1 htakes

/-! ## Starts that give a fixed port away -/

/-- The answers to the trial binds are those of a system in which the given ports are bound: a trial
bind fails on a port that is bound, and only then. The ports that the provider has in use are not
tried. -/
def Faithful (os : Os) : Set UInt16 → List PortEvent → Prop
  | _, [] => True
  | bound, .search job before _ :: evs =>
    (∀ n, ∀ port ∉ before.used, os.trial job n port = false ↔ port ∈ bound) ∧
      Faithful os bound evs
  | bound, .fixed _ _ :: evs => Faithful os bound evs
  | bound, .attempt a :: evs =>
    Faithful os (if os.result a = .bound then insert a.port bound else bound) evs

/-- A seed whose first candidate is the port of Panasonic. -/
def takingSeed : UInt64 := 62914

/-- A system with that seed, in which some ports are busy, and Panasonic finds its port in use. -/
def takingOs (busy : UInt16 → Bool) : Os where
  ports := ⟨∅, takingSeed⟩
  inUse a := busy a.port || a.job.owner == some .panasonic
  bind _ := .bound
  trial _ _ port := !busy port

/-- Every attempt opens a socket in it. -/
theorem takingOs_result (busy : UInt16 → Bool) (a : Attempt) :
    (takingOs busy).result a = .bound := by
  unfold Os.result
  split <;> rfl

/-- So no attempt is fatal. -/
theorem takingOs_fatal (busy : UInt16 → Bool) (a : Attempt) : (takingOs busy).fatal a = false := by
  rw [Os.fatal, takingOs_result]
  cases a.job.source <;> simp

/-- The provider before its first search. -/
def Fresh (ports : PortProvider) : Prop := ports.state = takingSeed ∧ 10669 ∉ ports.used

/-- The port of Panasonic is in use. -/
def Taken (ports : PortProvider) : Prop := 10669 ∈ ports.used

/-- An event that is no search and does not attempt the port of Panasonic. -/
def PortEvent.Quiet : PortEvent → Prop
  | .search _ _ _ => False
  | .fixed _ _ => True
  | .attempt a => a.port ≠ 10669

/-- An event after the port of Panasonic is in use. -/
def PortEvent.Late : PortEvent → Prop
  | .search _ before _ => Taken before
  | _ => True

/-- Events of which the first search takes the port of Panasonic. -/
def GivenAway (evs : List PortEvent) : Prop :=
  ∃ pre job before post, evs = pre ++ .search job before (some 10669) :: post ∧
    (∀ ev ∈ pre, ev.Quiet) ∧ ∀ ev ∈ post, ev.Late

/-- A script makes no search, or its first search takes the port of Panasonic. -/
structure Gives (p : Script Listening PortEvent) : Prop where
  /-- From a provider before its first search. -/
  fresh (l : Listening) (h : Fresh l.ports) :
    ((∀ ev ∈ (p l).1, ev.Quiet) ∧ Fresh (p l).2.ports) ∨
      (GivenAway (p l).1 ∧ Taken (p l).2.ports)
  /-- From one in which the port is in use. -/
  late : Script.Keeps (fun l => Taken l.ports) PortEvent.Late p

section Gives

variable {busy : UInt16 → Bool} {config : Config} {nics : List Ipv4Addr}

/-- A script without a search. -/
theorem gives_of_quiet {p : Script Listening PortEvent}
    (hfresh : Script.Keeps (fun l => Fresh l.ports) PortEvent.Quiet p)
    (hlate : Script.Keeps (fun l => Taken l.ports) PortEvent.Late p) : Gives p :=
  ⟨fun l hl => .inl (hfresh l hl), hlate⟩

/-- A script without events. -/
theorem gives_nil : Gives Script.nil := gives_of_quiet Script.keeps_nil Script.keeps_nil

/-- One script after the other. -/
theorem Gives.seq {p q : Script Listening PortEvent} (hp : Gives p) (hq : Gives q) :
    Gives (Script.seq p q) := by
  refine ⟨fun l hl => ?_, hp.late.seq hq.late⟩
  rcases hp.fresh l hl with ⟨hquiet, hmid⟩ | ⟨⟨pre, job, before, post, heq, hpre, hpost⟩, hmid⟩
  · rcases hq.fresh _ hmid with ⟨hquiet', hend⟩ | ⟨⟨pre, job, before, post, heq, hpre, hpost⟩, hend⟩
    · exact .inl ⟨List.forall_mem_append.mpr ⟨hquiet, hquiet'⟩, hend⟩
    · refine .inr ⟨⟨(p l).1 ++ pre, job, before, post, ?_, ?_, hpost⟩, hend⟩
      · rw [Script.seq, heq, List.append_assoc]
      · exact List.forall_mem_append.mpr ⟨hquiet, hpre⟩
  · obtain ⟨hlate, hend⟩ := hq.late _ hmid
    refine .inr ⟨⟨pre, job, before, post ++ (q (p l).2).1, ?_, hpre, ?_⟩, hend⟩
    · rw [Script.seq, heq, List.append_assoc, List.cons_append]
    · exact List.forall_mem_append.mpr ⟨hpost, hlate⟩

theorem Gives.each {ι : Type} {p : ι → Script Listening PortEvent} {is : List ι}
    (hp : ∀ i ∈ is, Gives (p i)) : Gives (Script.each p is) := by
  induction is with
  | nil => exact gives_nil
  | cons i is ih =>
    obtain ⟨hi, his⟩ := List.forall_mem_cons.mp hp
    exact hi.seq (ih his)

/-- What a search finds in a provider before its first search. -/
theorem freePort_fresh (hbusy : busy 10669 = false) {ports : PortProvider} (h : Fresh ports)
    (job : Job) : (ports.freePort ((takingOs busy).trial job)).1 = some 10669 ∧
      Taken (ports.freePort ((takingOs busy).trial job)).2 := by
  have hpick : SplitMix64.pick ⟨takingSeed⟩ = (10669, ⟨11400714819323261399⟩) := by decide +kernel
  have htrial : (takingOs busy).trial job 0 10669 = true := by
    simp only [takingOs, hbusy, Bool.not_false]
  have hloop : PortProvider.freePortLoop ports.used ((takingOs busy).trial job) 64 0 ⟨ports.state⟩ =
      some (10669, ⟨11400714819323261399⟩) := by
    rw [PortProvider.freePortLoop, h.1, hpick]
    simp only [if_neg h.2, htrial, if_true]
  rw [PortProvider.freePort, hloop]
  exact ⟨rfl, Finset.mem_insert_self _ _⟩

/-- A port in use stays in use. -/
theorem freePort_taken {ports : PortProvider} (h : Taken ports) (trial : ℕ → UInt16 → Bool) :
    Taken (ports.freePort trial).2 :=
  ports.mem_used_call (.freePort trial) 10669 h

/-- Searches after the port is in use are late. -/
theorem searchKeeps_late (os : Os) : SearchKeeps os Taken PortEvent.Late :=
  fun _ _ h => ⟨h, freePort_taken h _⟩

/-- A search and what follows it. -/
theorem gives_freeEvents (hbusy : busy 10669 = false) {job : Job}
    {p : UInt16 → Script Listening PortEvent}
    (hp : ∀ port, Script.Keeps (fun l => Taken l.ports) PortEvent.Late (p port)) :
    Gives (freeEvents (takingOs busy) job p) := by
  refine ⟨fun l hl => .inr ?_, keeps_freeEvents (searchKeeps_late _) hp⟩
  obtain ⟨hfound, htaken⟩ := freePort_fresh hbusy hl job
  have hfind : (findPort (takingOs busy) job l).1 = some 10669 := hfound
  have hevents : freeEvents (takingOs busy) job p l =
      (.search job l.ports (some 10669) :: (p 10669 (findPort (takingOs busy) job l).2).1,
        (p 10669 (findPort (takingOs busy) job l).2).2) := by
    simp only [freeEvents, Script.after, Script.seq, Script.one, hfind, List.singleton_append]
  obtain ⟨hlate, hend⟩ := hp 10669 (findPort (takingOs busy) job l).2 htaken
  rw [hevents]
  exact ⟨⟨[], job, l.ports, _, rfl, fun ev hev => absurd hev List.not_mem_nil, hlate⟩, hend⟩

/-- A socket on a fixed port. -/
theorem gives_fixed (e : Engine) (port : UInt16) : Gives (Script.one (.fixed e port)) :=
  gives_of_quiet (Script.keeps_one trivial) (Script.keeps_one trivial)

/-- An attempt on another port than that of Panasonic. -/
theorem gives_attempt {a : Attempt} (h : a.port ≠ 10669) : Gives (Script.one (.attempt a)) :=
  gives_of_quiet (Script.keeps_one h) (Script.keeps_one trivial)

/-- The attempt on a global socket on another port. -/
theorem gives_globalScript (os : Os) {e : Engine} {port : UInt16} (hport : port ≠ 10669) :
    Gives ((globalScript os config e port).lift .attempt) := by
  rw [globalScript]
  split_ifs
  · exact gives_nil
  · exact gives_attempt hport

/-- The sockets of the interfaces. -/
theorem gives_ifaceEvents (hbusy : busy 10669 = false) (owner : Option Engine) :
    Gives (ifaceEvents (takingOs busy) nics owner) :=
  Gives.each fun _ _ => gives_freeEvents hbusy fun _ => Script.keeps_one trivial

/-- An engine that is not Panasonic. -/
theorem Engine.gives_events (hbusy : busy 10669 = false) {e : Engine} (he : e ≠ .panasonic) :
    Gives (e.events (takingOs busy) config nics) := by
  have hports : ∀ o ∈ e.openings, ∀ port ∈ o.fixedPort, port ≠ 10669 := by
    intro o ho port hport heq
    rcases e.fixed_reserved o ho port hport with hused | ⟨hpanasonic, -⟩
    · exact e.notMem_usedPorts (heq ▸ hused)
    · exact he hpanasonic
  rw [events]
  split_ifs with harp
  · rw [script, if_pos harp]
    split_ifs
    · exact gives_attempt (a := ⟨⟨some .arp, .capture⟩, 0⟩) (by decide)
    · exact gives_nil
  · apply Gives.each
    intro o ho
    cases o with
    | global port =>
      exact (gives_fixed e port).seq (gives_globalScript _ (hports _ ho port rfl))
    | globalFree =>
      exact gives_freeEvents hbusy fun _ => keeps_globalScript fun _ => trivial
    | multicast group port =>
      exact (gives_fixed e port).seq (gives_attempt (hports _ ho port rfl))
    | interfaces => exact gives_ifaceEvents hbusy (some e)

/-- The events before Panasonic listens. -/
theorem gives_beforeEvents (hbusy : busy 10669 = false) (entries : List (UInt16 × Engine)) :
    Gives (beforeEvents (takingOs busy) config nics entries) := by
  apply Gives.seq
  · rw [brokerPart]
    split_ifs
    · have hport : (5353 : UInt16) ≠ 10669 := by decide
      exact (gives_attempt hport).seq (gives_ifaceEvents hbusy none)
    · exact gives_nil
  · apply Gives.each
    intro entry hentry
    have hbne : (entry.2 != .panasonic) = true :=
      List.mem_takeWhile_imp (p := fun entry : UInt16 × Engine => entry.2 != .panasonic) hentry
    have hne : entry.2 ≠ .panasonic := bne_iff_ne.mp hbne
    have hctx : Gives (enterCtx entry.2) := gives_of_quiet (keeps_enterCtx _) (keeps_enterCtx _)
    exact (Engine.gives_events hbusy hne).seq hctx

end Gives

/-! ### Searches -/

section

variable (os : Os) (config : Config) {nics : List Ipv4Addr}

/-- A search is not quiet. -/
theorem exists_search_freeEvents (job : Job) (p : UInt16 → Script Listening PortEvent)
    (l : Listening) : ∃ ev ∈ (freeEvents os job p l).1, ¬ ev.Quiet :=
  ⟨_, List.mem_append_left _ (List.mem_singleton_self _), id⟩

/-- An interface is searched a port for. -/
theorem exists_search_ifaceEvents (hnics : nics ≠ []) (owner : Option Engine) (l : Listening) :
    ∃ ev ∈ (ifaceEvents os nics owner l).1, ¬ ev.Quiet := by
  obtain ⟨nic, nics, rfl⟩ := List.exists_cons_of_ne_nil hnics
  exact Script.exists_mem_each (i := (nic, 0)) List.mem_cons_self
    (fun l => exists_search_freeEvents os _ _ l) l

/-- An engine that searches does so in its events. -/
theorem Engine.exists_search_events {e : Engine} (h : e.Searches nics) (l : Listening) :
    ∃ ev ∈ (e.events os config nics l).1, ¬ ev.Quiet := by
  have harp : e ≠ .arp := by
    rintro rfl
    rcases h with h | ⟨h, -⟩
    · exact absurd h List.not_mem_nil
    · exact absurd h List.not_mem_nil
  rw [events, if_neg harp]
  rcases h with h | ⟨h, hnics⟩
  · exact Script.exists_mem_each h (fun l => exists_search_freeEvents os _ _ l) l
  · exact Script.exists_mem_each h (fun l => exists_search_ifaceEvents os hnics _ l) l

/-- A start that searches before Panasonic listens does so in its events. -/
theorem Scanner.exists_search_beforeEvents {s : Scanner} {ifaces : List Iface}
    (h : s.SearchesBeforePanasonic ifaces) (l : Listening) :
    ∃ ev ∈ (beforeEvents os s.config (nicIps ifaces) s.selection.entries l).1, ¬ ev.Quiet := by
  rcases h.2.2 with ⟨hnics, hconsumer⟩ | ⟨entry, hentry, hsearches⟩
  · obtain ⟨ev, hev, hquiet⟩ := exists_search_ifaceEvents os hnics none l
    refine ⟨ev, List.mem_append_left _ ?_, hquiet⟩
    rw [brokerPart, if_pos (List.any_eq_true.mpr hconsumer)]
    exact List.mem_append_right _ hev
  · obtain ⟨ev, hev, hquiet⟩ := Script.exists_mem_each (P := fun ev => ¬ ev.Quiet)
      (p := entryEvents os s.config (nicIps ifaces)) hentry (fun l => by
        obtain ⟨ev, hev, hquiet⟩ :=
          Engine.exists_search_events os s.config hsearches l
        exact ⟨ev, List.mem_append_left _ hev, hquiet⟩)
      (brokerPart os (nicIps ifaces) s.selection.entries l).2
    exact ⟨ev, List.mem_append_right _ hev, hquiet⟩

end

/-! ## Exactly when the fixed ports are kept -/

/-- Before the first search of a port, the trial binds do not matter. -/
theorem Faithful.of_quiet {os : Os} {bound : Set UInt16} {pre evs : List PortEvent}
    (hbound : ∀ port ≠ 10669, port ∈ bound) (hpre : ∀ ev ∈ pre, ev.Quiet)
    (h : Faithful os bound evs) : Faithful os bound (pre ++ evs) := by
  induction pre with
  | nil => exact h
  | cons ev pre ih =>
    obtain ⟨hev, hrest⟩ := List.forall_mem_cons.mp hpre
    cases ev with
    | search job before found => exact hev.elim
    | fixed e port => exact ih hrest
    | attempt a =>
      rw [List.cons_append, Faithful, Set.insert_eq_of_mem (hbound a.port hev), ite_self]
      exact ih hrest

/-- Once the port of Panasonic is in use, all ports that are tried are bound. -/
theorem faithful_late {bound : Set UInt16} {evs : List PortEvent}
    (hbound : ∀ port ≠ 10669, port ∈ bound) (hlate : ∀ ev ∈ evs, ev.Late) :
    Faithful (takingOs (· != 10669)) bound evs := by
  induction evs generalizing bound with
  | nil => trivial
  | cons ev evs ih =>
    obtain ⟨hev, hevs⟩ := List.forall_mem_cons.mp hlate
    cases ev with
    | search job before found =>
      refine ⟨fun n port hport => ?_, ih hbound hevs⟩
      have hne : port ≠ 10669 := fun heq => hport (heq ▸ hev)
      exact iff_of_true (by simp [takingOs, hne]) (hbound port hne)
    | fixed e port => exact ih hbound hevs
    | attempt a =>
      refine ih (fun port hport => ?_) hevs
      split_ifs
      · exact Set.mem_insert_of_mem _ (hbound port hport)
      · exact hbound port hport

/-- A start that searches before Panasonic listens gives its port away, with some system. -/
theorem Scanner.exists_not_keepsFixed {s : Scanner} {ifaces : List Iface}
    (h : s.SearchesBeforePanasonic ifaces) :
    ∃ os bound, Faithful os bound (s.events os ifaces) ∧ ¬ KeepsFixed (s.events os ifaces) := by
  let os : Os := takingOs (· != 10669)
  let l : Listening := (s.listenFrom os).state
  have hfresh : Fresh l.ports := by
    refine ⟨reserveAll_state os.ports s.selection.entries, fun hused => ?_⟩
    rcases (mem_used_reserveAll _ _ _).mp hused with ⟨entry, -, hentry⟩ | hempty
    · exact entry.2.notMem_usedPorts hentry
    · exact absurd hempty (Finset.notMem_empty _)
  obtain ⟨id, post, -, hlisten⟩ := listenEvents_panasonic os s.config (nicIps ifaces) h.2.1
  -- The first search takes the port, and the socket of Panasonic comes later.
  obtain ⟨ev, hev, hsearch⟩ := exists_search_beforeEvents os h l
  have hgives : Gives (beforeEvents os s.config (nicIps ifaces) s.selection.entries) :=
    gives_beforeEvents rfl _
  rcases hgives.fresh l hfresh with
    ⟨hquiet, -⟩ | ⟨⟨pre, job, before, mid, hbefore, hpre, hmid⟩, htaken⟩
  · exact absurd (hquiet ev hev) hsearch
  have hafter : Script.Keeps (fun l => Taken l.ports) PortEvent.Late
      (afterEvents os s.config (nicIps ifaces) post) :=
    keeps_afterEvents (searchKeeps_late os) (fun _ => trivial) fun _ _ _ _ _ _ => trivial
  obtain ⟨hlate, -⟩ := hafter _ htaken
  have hnotFatal : ∀ ev : PortEvent, ev.attempt?.any os.fatal = false := by
    intro ev
    cases ev.attempt? with
    | none => rfl
    | some a => exact takingOs_fatal _ a
  let rest := (afterEvents os s.config (nicIps ifaces) post
    (beforeEvents os s.config (nicIps ifaces) s.selection.entries l).2).1
  have hevents : s.events os ifaces =
      pre ++ .search job before (some 10669) :: (mid ++ .fixed .panasonic 10669 :: rest) := by
    rw [events, if_neg h.1, performed_eq_self fun ev _ => hnotFatal ev, allEvents, hlisten]
    simp only [Script.seq, Script.one, List.singleton_append]
    rw [hbefore, List.append_assoc, List.cons_append]
  refine ⟨os, {port | port ≠ 10669}, ?_⟩
  rw [hevents]
  refine ⟨?_, fun hkeeps => ?_⟩
  · refine Faithful.of_quiet (fun port hport => hport) hpre ⟨fun n port _ => ?_, ?_⟩
    · change (!(port != 10669)) = false ↔ port ≠ 10669
      rw [Bool.not_eq_eq_eq_not, Bool.not_false, bne_iff_ne]
    · refine faithful_late (fun port hport => hport) (List.forall_mem_append.mpr ⟨hmid, ?_⟩)
      exact List.forall_mem_cons.mpr ⟨trivial, hlate⟩
  · have hsuffix := (List.pairwise_append.mp hkeeps).2.1
    have hnot := (List.pairwise_cons.mp hsuffix).1 (.fixed .panasonic 10669)
      (List.mem_append_right _ List.mem_cons_self)
    exact hnot rfl

/-- The only fixed port that a search of a start can take from a later socket is that of Panasonic,
whatever the operating system answers. And no search takes one, in any system whose trial binds fail
on bound ports only, exactly if the start makes no search before Panasonic listens. -/
theorem Scanner.keepsFixed_iff (s : Scanner) (ifaces : List Iface) :
    (∀ os, (s.events os ifaces).Pairwise fun x y => x.Takes y → y = .fixed .panasonic 10669) ∧
    ((∀ os bound, Faithful os bound (s.events os ifaces) → KeepsFixed (s.events os ifaces)) ↔
      ¬ s.SearchesBeforePanasonic ifaces) := by
  refine ⟨fun os => ?_, fun h hsearches => ?_, fun h os bound _ => s.keepsFixed os h⟩
  · have hsubset := (s.events_sublist os ifaces).subset
    exact List.pairwise_of_forall_mem_list fun x hx y hy =>
      s.takes_panasonic os ifaces x (hsubset hx) y (hsubset hy)
  · obtain ⟨os, bound, hfaithful, hnot⟩ := exists_not_keepsFixed hsearches
    exact hnot (h os bound hfaithful)

/-- A selection of SSDP and Panasonic. -/
def takingSelection : Selection :=
  ⟨some ["ssdp".toList, "panasonic".toList], [(1, .ssdp), (15, .panasonic)], by decide +kernel⟩

/-- With one interface and no other port bound, the search of SSDP takes the port of Panasonic. -/
theorem keepsFixed_taken :
    let s := Scanner.new { } takingSelection
    let os := takingOs fun _ => false
    Faithful os ∅ (s.events os [exampleIface]) ∧ ¬ KeepsFixed (s.events os [exampleIface]) := by
  intro s os
  let nic : Source := .iface ⟨192, 168, 1, 5⟩ 0
  have hevents : s.events os [exampleIface] =
      [.fixed .ssdp 1900,
        .attempt ⟨⟨some .ssdp, .multicast ⟨239, 255, 255, 250⟩⟩, 1900⟩,
        .search ⟨some .ssdp, nic⟩ ⟨{10670, 1900}, takingSeed⟩ (some 10669),
        .attempt ⟨⟨some .ssdp, nic⟩, 10669⟩,
        .fixed .panasonic 10669,
        .attempt ⟨⟨some .panasonic, .global⟩, 10669⟩,
        .search ⟨some .panasonic, nic⟩ ⟨{10669, 10670, 1900}, 11400714819323261399⟩ (some 15488),
        .attempt ⟨⟨some .panasonic, nic⟩, 15488⟩] := by
    decide +kernel
  rw [hevents]
  constructor
  · -- All ports that are bound are in use.
    have htrial {bound : Set UInt16} {used : Finset UInt16} (h : ∀ port ∈ bound, port ∈ used)
        (job : Job) : ∀ n, ∀ port ∉ used, os.trial job n port = false ↔ port ∈ bound :=
      fun n port hport => iff_of_false Bool.noConfusion fun hmem => hport (h port hmem)
    simp only [Faithful, os, takingOs_result, if_true]
    exact ⟨htrial (by simp) _, htrial (by simp) _, trivial⟩
  · intro hkeeps
    exact List.pairwise_iff_getElem.mp hkeeps 2 4 (by decide) (by decide) (by decide) rfl

end Uscan
