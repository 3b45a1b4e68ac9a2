import Uscan.Ports.Proc
import Uscan.Scanner.FixedPorts

/-!
# The free ports of a start

The sockets of a start that have no port of their own, those on the addresses of the interfaces and
the global one of NiceVision, are on ports that the provider finds. Whatever the operating system
answers, these ports differ from each other, from the ports of the engines and from those of all
sockets that the kernel listed before (`Scanner.attempts_free`).
-/

namespace Uscan

open Attempts

/-- The port of an attempt that has none of its own. -/
def Attempt.freePort (a : Attempt) : List UInt16 :=
  match a.job.source with
  | .iface _ _ => [a.port]
  | .global => if a.job.owner = some .niceVision then [a.port] else []
  | .multicast _ => []
  | .capture => []

/-- The port is in use, or out of the range of the provider. -/
def Listening.Excludes (l : Listening) (port : UInt16) : Prop :=
  port ∈ l.ports.used ∨ ¬ (portMin ≤ port ∧ port ≤ portMax)

section

variable {os : Os} {config : Config} {nics : List Ipv4Addr}

/-- A search, and at most one attempt on the port that it finds. -/
theorem fresh_freeScript {job : Job} {p : UInt16 → Script Listening Attempt}
    (hp : ∀ port l, (p port l).2 = l ∧ ((p port l).1.flatMap Attempt.freePort).Sublist [port]) :
    Script.Fresh Listening.Excludes Attempt.freePort (freeScript os job p) := by
  refine @Script.Fresh.after _ _ _ _ Listening.Excludes Attempt.freePort _ _ Option.toList ?_ ?_ ?_
  · intro l port h
    obtain ⟨found, state, hfree, -⟩ | hfree := l.ports.freePort_spec (os.trial job)
    · rw [findPort, hfree]
      exact h.imp_left Finset.mem_insert_of_mem
    · rw [findPort, hfree]
      exact h
  · intro l
    obtain ⟨found, state, hfree, hmin, hmax, hnew⟩ | hfree := l.ports.freePort_spec (os.trial job)
    · rw [findPort, hfree]
      refine ⟨List.nodup_singleton found, fun port hport => ?_⟩
      rw [List.mem_singleton.mp hport]
      exact ⟨not_or.mpr ⟨hnew, not_not.mpr ⟨hmin, hmax⟩⟩, .inl (Finset.mem_insert_self found _)⟩
    · rw [findPort, hfree]
      exact ⟨List.nodup_nil, fun port hport => absurd hport List.not_mem_nil⟩
  · intro found l
    cases found with
    | none => exact ⟨rfl, List.nil_sublist _⟩
    | some port => exact hp port l

/-- The sockets of the interfaces. -/
theorem fresh_ifaceScript (owner : Option Engine) :
    Script.Fresh Listening.Excludes Attempt.freePort (ifaceScript os nics owner) := by
  refine Script.Fresh.each fun nic _ => fresh_freeScript fun port l => ⟨rfl, ?_⟩
  exact List.Sublist.refl _

/-- A part of `listen` of an engine. -/
theorem Opening.fresh_script {e : Engine} {o : Opening} (ho : o ∈ e.openings) :
    Script.Fresh Listening.Excludes Attempt.freePort (o.script os config nics e) := by
  cases o with
  | global port =>
    rw [script, globalScript]
    split_ifs
    · exact Script.fresh_nil
    · -- NiceVision has no global socket on a port of its own.
      have hne : e ≠ .niceVision := by
        rintro rfl
        simp [Engine.openings] at ho
      exact Script.fresh_one (if_neg fun h => hne (Option.some.inj h))
  | globalFree =>
    refine fresh_freeScript fun port l => ?_
    rw [globalScript]
    split_ifs
    · exact ⟨rfl, List.nil_sublist _⟩
    · refine ⟨rfl, ?_⟩
      have hvalue : (Attempt.freePort ⟨⟨some e, .global⟩, port⟩).Sublist [port] := by
        rw [Attempt.freePort]
        split_ifs
        · exact List.Sublist.refl _
        · exact List.nil_sublist _
      rwa [Script.one, List.flatMap_singleton]
  | multicast group port => exact Script.fresh_one rfl
  | interfaces => exact fresh_ifaceScript (some e)

/-- An engine. -/
theorem Engine.fresh_script (e : Engine) :
    Script.Fresh Listening.Excludes Attempt.freePort (e.script os config nics) := by
  rw [script]
  split_ifs
  · exact Script.fresh_one rfl
  · exact Script.fresh_nil
  · exact Script.Fresh.each fun o ho => Opening.fresh_script ho

/-- The part of a start that listens. -/
theorem fresh_listenScript (entries : List (UInt16 × Engine)) :
    Script.Fresh Listening.Excludes Attempt.freePort
      (Scanner.listenScript os config nics entries) := by
  refine Script.Fresh.seq ?_ (Script.Fresh.each fun entry _ => entry.2.fresh_script.seq ?_)
  · split_ifs
    · exact (Script.fresh_one rfl).seq (fresh_ifaceScript none)
    · exact Script.fresh_nil
  · exact ⟨fun _ _ h => h, fun _ => List.nodup_nil, fun _ _ hb => absurd hb List.not_mem_nil⟩

end

/-- The sockets of a start without a port of their own are on different ports in the range of the
provider, whether or not they can be opened. None of them is a port that a selected engine reserves,
or that of a socket that the kernel listed when the provider was made. -/
theorem Scanner.attempts_free (s : Scanner) (os : Os) (ifaces : List Iface)
    {udp udp6 : Option (List Char)} {nanos : UInt64} {pid : UInt32}
    (hports : os.ports = .new udp udp6 nanos pid) :
    let ports := (s.attempts os ifaces).flatMap Attempt.freePort
    ports.Nodup ∧ ∀ port ∈ ports, (1024 ≤ port ∧ port ≤ 65533) ∧
      (∀ entry ∈ s.selection.entries, port ∉ entry.2.usedPorts) ∧
      ∀ text table, (udp = some text ∨ udp6 = some text) → ProcTable text table →
        port ∉ table := by
  intro ports
  have hfresh := @fresh_listenScript os s.config (nicIps ifaces) s.selection.entries
  refine ⟨hfresh.nodup (s.listenFrom os).state, fun port hport => ?_⟩
  obtain ⟨hused, hrange⟩ := not_or.mp (hfresh.new (s.listenFrom os).state port hport).1
  have hrange := not_not.mp hrange
  -- The provider of the start has the listed ports and those of the engines in use.
  have hreserved := mem_used_reserveAll os.ports s.selection.entries port
  obtain ⟨hengines, hlisted⟩ := not_or.mp (hreserved.not.mp hused)
  refine ⟨hrange, fun entry hentry hport => hengines ⟨entry, hentry, hport⟩, ?_⟩
  intro text table htext htable hmem
  have hne : port ≠ 0 := by
    rintro rfl
    exact absurd hrange.1 (by decide)
  rw [hports] at hlisted
  exact hlisted (PortProvider.mem_used_new htext htable hmem hne nanos pid)

/-- A line for examples: a socket on port 8080. -/
def exampleSocketLine : List Char :=
  [' ', ' '] ++ (['0', ':'] ++ ([' '] ++
    (['0', '1', '0', '0', '0', '0', '7', 'F'] ++ ':' :: hexPort 8080 ++ [' ', '0', '7'])))

/-- A file of the kernel for examples. -/
def exampleProcText : List Char := ['s', 'l'] ++ '\n' :: (exampleSocketLine ++ '\n' :: [])

/-- An operating system for examples, with the file. -/
def listingOs : Os := { exampleOs [] with ports := .new (some exampleProcText) none 1 2 }

/-- No socket of a start is on the port in the file. -/
theorem Scanner.attempts_free_listed :
    8080 ∉ (exampleScanner.attempts listingOs [exampleIface]).flatMap Attempt.freePort := by
  intro hmem
  have hline : SocketLine exampleSocketLine 8080 :=
    .mk (by simp [isWhitespace]) (by simp [isWhitespace]) (by simp [isWhitespace])
      (by simp [isWhitespace]) (by simp [isWhitespace])
  have htable : ProcTable exampleProcText [8080] :=
    ⟨['s', 'l'], [exampleSocketLine], .lf (.lf .nil), by decide, .cons hline .nil⟩
  have hfree := (attempts_free exampleScanner listingOs [exampleIface] rfl).2 8080 hmem
  exact hfree.2.2 exampleProcText [8080] (.inl rfl) htable (List.mem_singleton_self _)

end Uscan
