import Mathlib.Data.Finmap
import Uscan.Lib.Runs
import Uscan.Mdns.Convert
import Uscan.Mdns.Truncation
import Uscan.Net.Sending

/-!
# The mDNS broker

`MdnsBroker`: the engines that have no sockets of their own register their domains with it, each
with a handler, and it hands every packet to at most one of them. The receive tasks of the broker
are spawned before the engines register, so that packets and registrations come in any order.

`onPacket` looks the names of the answers up in a map. What it does with a packet depends only on
which engines have registered, since no two of them share a domain. So `hear` says what a run
reports without the map: each packet goes to the engine of the first answer that some engine asked
for, if there is one (`run_reported`).
-/

namespace Uscan

open Mdns

/-! ## The broker -/

/-- `DomainHandler`: the devices that it reports for a name and the answers of a packet. -/
abbrev DomainHandler := List Char → List MdnsAnswer → Res Empty (List Device)

/-- `MdnsBroker`, without its sockets. -/
structure MdnsBroker where
  /-- The handlers of the domains. -/
  handlers : Finmap fun _ : List Char => DomainHandler

/-- What `on_packet` does with a packet. -/
structure Reaction where
  /-- The warnings that it logs. -/
  warnings : List (List Char)
  /-- The devices that a handler reports. -/
  devices : Res Empty (List Device)
  deriving DecidableEq

namespace MdnsBroker

/-- `MdnsBroker::new`. -/
def new : MdnsBroker := ⟨∅⟩

/-- `register_domain`. -/
def registerDomain (b : MdnsBroker) (filter : List Char) (handler : DomainHandler) : MdnsBroker :=
  ⟨b.handlers.insert filter handler⟩

/-- `on_packet`. The first answer with a registered name triggers its handler, which gets all the
answers. -/
def onPacket (b : MdnsBroker) (data : Slice) : Reaction :=
  match parseDns data with
  | .panicked => ⟨[], .panicked⟩
  | .err e => ⟨["mDNS parse failed: ".toList ++ e.text], .ok []⟩
  | .ok parsed =>
    if parsed.answers = [] then ⟨[], .ok []⟩
    else
      match parsed.answers.find? fun a => (b.handlers.lookup a.name).isSome with
      | none => ⟨[], .ok []⟩
      | some trigger =>
        match b.handlers.lookup trigger.name with
        | none => ⟨[], .ok []⟩
        | some handler => ⟨[], handler trigger.name parsed.answers⟩

end MdnsBroker

namespace Engine

/-- The domains that `listen` of an engine registers. -/
def domains : Engine → List (List Char)
  | axis => ["_axis-nvr._tcp.local".toList, "_axis-video._tcp.local".toList]
  | googleCast => ["_googlecast._tcp.local".toList]
  | arecont => ["_arec._tcp.local".toList]
  | _ => []

/-- What the handler of an engine makes of the answers. -/
def convert (config : Config) (answers : List MdnsAnswer) : Engine → Res Empty (List Device)
  | axis => Axis.axisConvert answers config
  | googleCast => .ok (GoogleCast.googlecastConvert answers)
  | arecont => Arecont.arecontConvert answers config
  | _ => .ok []

/-- `listen` of an engine, as far as the broker is concerned. -/
def register (config : Config) (e : Engine) (b : MdnsBroker) : MdnsBroker :=
  e.domains.foldl
    (fun b domain => b.registerDomain domain fun _ answers => e.convert config answers) b

/-- No two engines share a domain. -/
theorem eq_of_mem_domains {e e' : Engine} {domain : List Char} (h : domain ∈ e.domains)
    (h' : domain ∈ e'.domains) : e = e' := by
  have hall : ∀ x ∈ registry, ∀ y ∈ registry, ∀ domain ∈ x.2.domains, domain ∈ y.2.domains →
      x.2 = y.2 := by
    decide +kernel
  obtain ⟨id, hid⟩ := registry_complete e
  obtain ⟨id', hid'⟩ := registry_complete e'
  exact hall _ hid _ hid' domain h h'

/-- A handler returns. -/
theorem convert_ok (config : Config) (answers : List MdnsAnswer) (e : Engine) :
    ∃ devs, e.convert config answers = .ok devs := by
  cases e
  case axis => exact Axis.axisConvert_ok answers config
  case arecont => exact Arecont.arecontConvert_ok answers config
  all_goals exact ⟨_, rfl⟩

end Engine

/-! ## What the broker is for -/

/-- What the packets of a run are for: while engines listen, a packet is for the engine of the first
answer whose name is one of its domains. -/
def domainOwner (listening : Finset Engine) (domain : List Char) : Option Engine :=
  (registry.map (·.2)).find? fun e => decide (e ∈ listening) && e.domains.contains domain

/-- The owner of a domain listens, and has the domain. -/
theorem domainOwner_eq_some_iff {listening : Finset Engine} {domain : List Char} {e : Engine} :
    domainOwner listening domain = some e ↔ e ∈ listening ∧ domain ∈ e.domains := by
  constructor
  · intro h
    simpa using List.find?_some h
  · rintro ⟨hlistens, hdomain⟩
    obtain ⟨id, hid⟩ := registry_complete e
    have hmem : e ∈ registry.map (·.2) := List.mem_map_of_mem hid
    obtain ⟨e', he'⟩ : ∃ e', domainOwner listening domain = some e' := by
      rw [← Option.isSome_iff_exists, domainOwner, List.find?_isSome]
      exact ⟨e, hmem, by simp [hlistens, hdomain]⟩
    -- The search may have found another engine first, but no other one has the domain.
    have hfound := List.find?_some he'
    simp only [Bool.and_eq_true, decide_eq_true_eq, List.contains_iff_mem] at hfound
    rw [he', Engine.eq_of_mem_domains hfound.2 hdomain]

/-- The engine that a packet with these answers is for. -/
def addressee (listening : Finset Engine) (answers : List MdnsAnswer) : Option Engine :=
  answers.findSome? fun a => domainOwner listening a.name

/-- What a packet comes to, while engines listen. -/
def hear (config : Config) (listening : Finset Engine) (data : Slice) : Reaction :=
  match parseDns data with
  | .panicked => ⟨[], .panicked⟩
  | .err e => ⟨["mDNS parse failed: ".toList ++ e.text], .ok []⟩
  | .ok parsed =>
    match addressee listening parsed.answers with
    | none => ⟨[], .ok []⟩
    | some e => ⟨[], e.convert config parsed.answers⟩

/-! ## One packet -/

/-- The map of a broker has the handlers of the engines that listen, and no others. -/
def MdnsBroker.Represents (config : Config) (b : MdnsBroker) (listening : Finset Engine) : Prop :=
  ∀ domain, b.handlers.lookup domain =
    (domainOwner listening domain).map fun e _ answers => e.convert config answers

/-- The handlers after a domain after the other has got the same one. -/
theorem MdnsBroker.lookup_foldl_registerDomain (handler : DomainHandler)
    (domains : List (List Char)) (b : MdnsBroker) (domain : List Char) :
    (domains.foldl (fun b d => b.registerDomain d handler) b).handlers.lookup domain =
      if domain ∈ domains then some handler else b.handlers.lookup domain := by
  induction domains generalizing b with
  | nil => rfl
  | cons d domains ih =>
    rw [List.foldl_cons, ih, registerDomain]
    by_cases heq : domain = d
    · subst heq
      simp
    · rw [Finmap.lookup_insert_of_ne _ heq]
      simp [heq]

/-- A new broker has no handlers. -/
theorem MdnsBroker.represents_new (config : Config) : MdnsBroker.new.Represents config ∅ := by
  intro domain
  have hnone : domainOwner ∅ domain = none := by simp [domainOwner]
  rw [hnone]
  exact Finmap.lookup_empty domain

/-- An engine that listens is represented from then on, however often it does. -/
theorem MdnsBroker.Represents.register {config : Config} {b : MdnsBroker}
    {listening : Finset Engine} (h : b.Represents config listening) (e : Engine) :
    (e.register config b).Represents config (insert e listening) := by
  intro domain
  rw [Engine.register, lookup_foldl_registerDomain]
  split_ifs with hdomain
  · rw [domainOwner_eq_some_iff.mpr ⟨Finset.mem_insert_self e listening, hdomain⟩]
    rfl
  · -- The other domains keep their owners.
    rw [h domain]
    congr 1
    refine Option.ext fun e' => ?_
    rw [domainOwner_eq_some_iff, domainOwner_eq_some_iff, Finset.mem_insert]
    constructor
    · exact fun ⟨hmem, hdom⟩ => ⟨.inr hmem, hdom⟩
    · rintro ⟨rfl | hmem, hdom⟩
      · exact absurd hdom hdomain
      · exact ⟨hmem, hdom⟩

/-- The handler of the first answer with a registered name is that of the addressee. The induction
is along the answers. -/
theorem MdnsBroker.Represents.trigger_eq {config : Config} {b : MdnsBroker}
    {listening : Finset Engine} (h : b.Represents config listening)
    (answers all : List MdnsAnswer) :
    (match answers.find? fun a => (b.handlers.lookup a.name).isSome with
      | none => Reaction.mk [] (.ok [])
      | some trigger =>
        match b.handlers.lookup trigger.name with
        | none => ⟨[], .ok []⟩
        | some handler => ⟨[], handler trigger.name all⟩) =
    match addressee listening answers with
    | none => ⟨[], .ok []⟩
    | some e => ⟨[], e.convert config all⟩ := by
  induction answers with
  | nil => rfl
  | cons a answers ih =>
    have hlookup := h a.name
    rw [addressee, List.findSome?_cons]
    cases howner : domainOwner listening a.name with
    | none =>
      rw [howner] at hlookup
      rw [List.find?_cons_of_neg (by simp [hlookup])]
      exact ih
    | some e =>
      rw [howner] at hlookup
      rw [List.find?_cons_of_pos (by simp [hlookup])]
      simp only [hlookup, Option.map_some]

/-- What a broker does with a packet depends only on the engines that listen. -/
theorem MdnsBroker.Represents.onPacket_eq {config : Config} {b : MdnsBroker}
    {listening : Finset Engine} (h : b.Represents config listening) (data : Slice) :
    b.onPacket data = hear config listening data := by
  unfold onPacket hear
  cases parseDns data with
  | panicked => rfl
  | err e => rfl
  | ok parsed =>
    dsimp only
    split_ifs with hnil
    · rw [hnil]
      rfl
    · exact h.trigger_eq parsed.answers parsed.answers

/-- A packet is heard without a panic. -/
theorem hear_ok (config : Config) (listening : Finset Engine) (data : Slice) :
    ∃ devs, (hear config listening data).devices = .ok devs := by
  have htotal := parseDns_safe data
  unfold hear
  cases hparse : parseDns data with
  | panicked => exact absurd hparse htotal.ne_panicked
  | err e => exact ⟨[], rfl⟩
  | ok parsed =>
    dsimp only
    cases addressee listening parsed.answers with
    | none => exact ⟨[], rfl⟩
    | some e => exact e.convert_ok config parsed.answers

/-! ## Runs -/

/-- What happens to the broker of a start, one event at a time: the registrations of an engine are
one event, also the two of Axis, and the packets of all receive tasks come one after another. -/
inductive BrokerEvent where
  /-- An engine listens. -/
  | listen (e : Engine)
  /-- A receive task of the broker has a packet. -/
  | packet (data : Slice)

/-- The broker during a run, with what it has done. -/
structure BrokerRun where
  /-- The broker. -/
  broker : MdnsBroker
  /-- The devices that the handlers have sent to the reporter, in order. -/
  reported : List Device
  /-- The warnings that have been logged, in order. -/
  warnings : List (List Char)
  /-- A receive task has panicked. -/
  crashed : Bool

namespace BrokerRun

/-- The start of a run. -/
def new : BrokerRun := ⟨MdnsBroker.new, [], [], false⟩

/-- An event. -/
def step (config : Config) (r : BrokerRun) : BrokerEvent → BrokerRun
  | .listen e => { r with broker := e.register config r.broker }
  | .packet data =>
    let reaction := r.broker.onPacket data
    match reaction.devices with
    | .ok devs =>
      { r with reported := r.reported ++ devs, warnings := r.warnings ++ reaction.warnings }
    | _ => { r with warnings := r.warnings ++ reaction.warnings, crashed := true }

end BrokerRun

/-- The engines that listen after an event. -/
def listeningAfter (listening : Finset Engine) : BrokerEvent → Finset Engine
  | .listen e => insert e listening
  | .packet _ => listening

/-- What an event comes to, while engines listen. -/
def heardAt (config : Config) (listening : Finset Engine) : BrokerEvent → List Reaction
  | .listen _ => []
  | .packet data => [hear config listening data]

/-- The devices of a reaction. -/
def Reaction.deviceList (r : Reaction) : List Device :=
  match r.devices with
  | .ok devs => devs
  | _ => []

/-- What relates a run to the engines that listen and to what has been heard. -/
structure BrokerRun.Refines (config : Config) (r : BrokerRun) (listening : Finset Engine)
    (heard : List Reaction) : Prop where
  /-- The broker has the handlers of the engines that listen. -/
  represents : r.broker.Represents config listening
  /-- No receive task has panicked. -/
  alive : r.crashed = false
  /-- The devices are those of the reactions. -/
  reported : r.reported = heard.flatMap Reaction.deviceList
  /-- The warnings are those of the reactions. -/
  warnings : r.warnings = heard.flatMap Reaction.warnings

/-- What a packet changes. -/
theorem BrokerRun.Refines.packet {config : Config} {r : BrokerRun} {listening : Finset Engine}
    {heard : List Reaction} (h : r.Refines config listening heard) {data : Slice}
    {warnings : List (List Char)} {devs : List Device}
    (hhear : hear config listening data = ⟨warnings, .ok devs⟩) :
    r.step config (.packet data) =
      { r with reported := r.reported ++ devs, warnings := r.warnings ++ warnings } := by
  simp only [BrokerRun.step, h.represents.onPacket_eq data, hhear]

/-- An event keeps the relation. -/
theorem BrokerRun.Refines.step {config : Config} {r : BrokerRun} {listening : Finset Engine}
    {heard : List Reaction} (h : r.Refines config listening heard) (ev : BrokerEvent) :
    (r.step config ev).Refines config (listeningAfter listening ev)
      (heard ++ heardAt config listening ev) := by
  cases ev with
  | listen e =>
    rw [heardAt, List.append_nil]
    exact ⟨h.represents.register e, h.alive, h.reported, h.warnings⟩
  | packet data =>
    cases hhear : hear config listening data with
    | mk warnings devices =>
      obtain ⟨devs, hdevs⟩ := hear_ok config listening data
      rw [hhear] at hdevs
      obtain rfl : devices = .ok devs := hdevs
      rw [h.packet hhear, heardAt, hhear]
      refine ⟨h.represents, h.alive, ?_, ?_⟩
      · rw [List.flatMap_append, List.flatMap_singleton, h.reported]
        rfl
      · rw [List.flatMap_append, List.flatMap_singleton, h.warnings]

/-- Every run is related to the engines that listen after it, and to what has been heard in it. -/
theorem BrokerRun.refines_run (config : Config) (es : List BrokerEvent) :
    (Machine.run (BrokerRun.step config) new es).Refines config
      (Machine.run listeningAfter ∅ es) (Machine.outputs listeningAfter (heardAt config) ∅ es) := by
  have hnew : new.Refines config ∅ [] := ⟨MdnsBroker.represents_new config, rfl, rfl, rfl⟩
  exact Machine.run_simulates (fun r listening heard ev hr => hr.step ev) hnew es

/-- In every run of registrations and packets, no receive task panics, and the devices reported and
the warnings logged are those that each packet comes to, in the order of the packets, while the
engines listen that have registered before it. In which order they have, and how often, does not
matter. -/
theorem BrokerRun.run_reported (config : Config) (es : List BrokerEvent) :
    let r := Machine.run (step config) new es
    let heard := Machine.outputs listeningAfter (heardAt config) ∅ es
    r.crashed = false ∧ r.reported = heard.flatMap Reaction.deviceList ∧
      r.warnings = heard.flatMap Reaction.warnings := by
  have hrun := refines_run config es
  exact ⟨hrun.alive, hrun.reported, hrun.warnings⟩

/-! ## Messages -/

/-- The engines that listen after a run are those that have registered in it. -/
theorem mem_run_listeningAfter {e : Engine} (es : List BrokerEvent) (listening : Finset Engine) :
    e ∈ Machine.run listeningAfter listening es ↔ e ∈ listening ∨ .listen e ∈ es := by
  induction es generalizing listening with
  | nil => simp
  | cons ev es ih =>
    rw [Machine.run_cons, ih]
    cases ev with
    | listen e' =>
      rw [listeningAfter, Finset.mem_insert, List.mem_cons, BrokerEvent.listen.injEq,
        or_comm (a := e = e'), or_assoc]
    | packet data => simp [listeningAfter]

/-- A packet is for no engine exactly when no engine has the name of an answer as a domain. -/
theorem addressee_eq_none_iff {listening : Finset Engine} {answers : List MdnsAnswer} :
    addressee listening answers = none ↔
      ∀ y ∈ answers, ∀ e ∈ listening, y.name ∉ e.domains := by
  rw [addressee, List.findSome?_eq_none_iff]
  refine forall₂_congr fun y _ => ?_
  rw [Option.eq_none_iff_forall_ne_some]
  refine forall_congr' fun e => ?_
  rw [ne_eq, domainOwner_eq_some_iff, not_and]

/-- The engine that a packet is for has a domain that is the name of an answer, and no engine has
one before it. -/
theorem addressee_append {listening : Finset Engine} {before after : List MdnsAnswer}
    {a : MdnsAnswer} {e : Engine}
    (hbefore : ∀ y ∈ before, ∀ e ∈ listening, y.name ∉ e.domains) (he : e ∈ listening)
    (hname : a.name ∈ e.domains) : addressee listening (before ++ a :: after) = some e := by
  rw [addressee, List.findSome?_append, List.findSome?_cons,
    domainOwner_eq_some_iff.mpr ⟨he, hname⟩, ← addressee, addressee_eq_none_iff.mpr hbefore]
  rfl

/-- A message on the wire, after any run, is for the engine that has asked for the first of its
records that any engine has asked for: that engine reports what it makes of all the records. If no
engine has asked for any record, nothing is reported. There is no warning either way. The names of
the message may be compressed, and after its records the packet may go on with one of another
type. -/
theorem BrokerRun.run_message (config : Config) (es : List BrokerEvent) (m : Message) (d : Slice)
    (hd : Carries d m) (hlen : 12 < d.len) :
    let r := Machine.run (step config) new es
    let r' := Machine.run (step config) new (es ++ [.packet d])
    let answers := m.records.map Record.read
    let Foreign (x : Record) := ∀ e, .listen e ∈ es → nameText x.owner ∉ e.domains
    r'.warnings = r.warnings ∧
      (∀ before x after e, m.records = before ++ x :: after → (∀ y ∈ before, Foreign y) →
        .listen e ∈ es → nameText x.owner ∈ e.domains →
        ∃ devs, e.convert config answers = .ok devs ∧ r'.reported = r.reported ++ devs) ∧
      ((∀ x ∈ m.records, Foreign x) → r'.reported = r.reported) := by
  intro r r' answers Foreign
  have hparse := parseDns_carries hd hlen
  have hrun := refines_run config es
  have hr' : r' = r.step config (.packet d) := Machine.run_append new es [.packet d]
  have hmem (e : Engine) : e ∈ Machine.run listeningAfter ∅ es ↔ .listen e ∈ es := by
    rw [mem_run_listeningAfter]
    simp
  have hforeign {xs : List Record} (h : ∀ x ∈ xs, Foreign x) :
      ∀ y ∈ xs.map Record.read, ∀ e ∈ Machine.run listeningAfter ∅ es,
        y.name ∉ e.domains := by
    intro y hy e he
    obtain ⟨x, hx, rfl⟩ := List.mem_map.mp hy
    exact h x hx e ((hmem e).mp he)
  -- The packet is for an engine, or for none.
  have hfor (e : Engine) (haddr : addressee (Machine.run listeningAfter ∅ es) answers = some e) :
      r'.warnings = r.warnings ∧
        ∃ devs, e.convert config answers = .ok devs ∧ r'.reported = r.reported ++ devs := by
    obtain ⟨devs, hdevs⟩ := e.convert_ok config answers
    have hhear : hear config (Machine.run listeningAfter ∅ es) d = ⟨[], .ok devs⟩ := by
      simp only [hear, hparse]
      rw [haddr, ← hdevs]
    rw [hr', hrun.packet hhear, List.append_nil]
    exact ⟨rfl, devs, hdevs, rfl⟩
  have hnone (haddr : addressee (Machine.run listeningAfter ∅ es) answers = none) :
      r'.warnings = r.warnings ∧ r'.reported = r.reported := by
    have hhear : hear config (Machine.run listeningAfter ∅ es) d = ⟨[], .ok []⟩ := by
      simp only [hear, hparse]
      rw [haddr]
    rw [hr', hrun.packet hhear, List.append_nil, List.append_nil]
    exact ⟨rfl, rfl⟩
  refine ⟨?_, ?_, ?_⟩
  · cases haddr : addressee (Machine.run listeningAfter ∅ es) answers with
    | none => exact (hnone haddr).1
    | some e => exact (hfor e haddr).1
  · intro before x after e hsplit hbefore hlisten hname
    refine (hfor e ?_).2
    simp only [answers]
    rw [hsplit, List.map_append, List.map_cons]
    exact addressee_append (hforeign hbefore) ((hmem e).mpr hlisten) hname
  · exact fun h => (hnone (addressee_eq_none_iff.mpr (hforeign h))).2

/-- A label for examples. -/
def exampleLabel (text : String) (hne : utf8 text.toList ≠ [])
    (hle : (utf8 text.toList).length ≤ 63) : Label := ⟨text.toList, hne, hle⟩

/-- The name `_googlecast._tcp.local`. -/
def castName : List Label :=
  [exampleLabel "_googlecast" (by decide) (by decide), exampleLabel "_tcp" (by decide) (by decide),
    exampleLabel "local" (by decide) (by decide)]

/-- A response of a device: its name, and the address of that name. The header counts one record
more. -/
def castMessage : Message where
  id := 0
  flags := 0x8400
  questions := [⟨castName, 12, 1⟩]
  questions_le := length_singleton_le _
  records :=
    [⟨castName, 1, 120, .ptr (labelA :: castName), by decide⟩,
      ⟨labelA :: castName, 1, 120, .a ⟨10, 0, 0, 9⟩, by decide⟩]
  an := 3
  ns := 0
  ar := 0

/-- The packet of the response. All names but that of the question are compressed, and the last
record has another type. -/
def castPacket : Slice where
  bytes := castMessage.header ++ encodeLabels (nameBytes castName) ++
    [0, 12, 0, 1,
      0xC0, 12, 0, 12, 0, 1, 0, 0, 0, 120, 0, 4, 1, 97, 0xC0, 12,
      0xC0, 52, 0, 1, 0, 1, 0, 0, 0, 120, 0, 4, 10, 0, 0, 9,
      0xC0, 52, 0, 47, 0, 1, 0, 0, 0, 120, 0, 0]
  length_le := by decide

/-- The packet carries the response. -/
theorem carries_castPacket : Carries castPacket castMessage := by
  have hne : nameBytes castName ≠ [] := List.cons_ne_nil _ _
  have hdevice : nameBytes (labelA :: castName) ≠ [] := List.cons_ne_nil _ _
  -- The name of the question, and the name of the device in front of a pointer to it.
  have hplain : Stands castPacket.bytes 12 (encodeLabels (nameBytes castName)) := ⟨_, rfl⟩
  obtain ⟨m, hcast⟩ := (nameAt_encodeLabels (fun l hl => nameBytes_bounds hl) hplain).compressed
  obtain rfl := Nat.le_zero.mp hcast.le
  have hname : Compressed castPacket (nameBytes (labelA :: castName)) 1 0 52 56 :=
    .label (by decide) (by decide) ⟨_, rfl⟩ (hcast.before hne (by decide) ⟨_, rfl⟩)
  -- The owners of the records are pointers to these names.
  have hpointsCast : NameIn castPacket castName 40 42 :=
    ⟨1, 0, hcast.before hne (by decide) ⟨_, rfl⟩, by decide, .inr rfl⟩
  have hpoints (p : ℕ) (h : Stands castPacket.bytes p [0xC0, 52]) :
      Compressed castPacket (nameBytes (labelA :: castName)) 2 0 p (p + 2) :=
    hname.before hdevice (by decide) h
  have hptr : Record.At castPacket castMessage.records[0] 40 56 :=
    ⟨42, 4, hpointsCast, ⟨_, rfl⟩, .ptr ⟨1, 0, hname, by decide, .inr rfl⟩, rfl⟩
  have haddress : Record.At castPacket castMessage.records[1] 56 72 :=
    ⟨58, 4, ⟨2, 0, hpoints 56 ⟨_, rfl⟩, by decide, .inr rfl⟩, ⟨_, rfl⟩, .a ⟨_, rfl⟩, rfl⟩
  have hforeign : ForeignAt castPacket 72 :=
    ⟨_, 2, 74, 47, 1, 120, 0, (hpoints 72 ⟨_, rfl⟩).nameAt, by decide, ⟨_, rfl⟩, by decide,
      by decide⟩
  exact ⟨⟨_, rfl⟩, 40, 72, .cons ⟨36, ⟨0, 0, hcast, by decide, .inr rfl⟩, ⟨_, rfl⟩, rfl⟩ .nil,
    .cons hptr (.cons haddress .nil), .inr ⟨hforeign, by decide⟩⟩

/-- Axis and Google Cast listen, and the device is reported once. -/
theorem BrokerRun.run_message_cast :
    (Machine.run (step { }) new [.listen .axis, .listen .googleCast, .packet castPacket]).reported =
      [⟨"Google".toList, 1, .v4 ⟨10, 0, 0, 9⟩, [], "unknown".toList, "unknown".toList⟩] := by
  obtain ⟨-, hfor, -⟩ := run_message { } [.listen .axis, .listen .googleCast] castMessage
    castPacket carries_castPacket (by decide)
  obtain ⟨devs, hdevs, hreported⟩ := hfor [] _ _ .googleCast rfl (by simp) (by simp)
    (by decide +kernel)
  have hconvert : Engine.googleCast.convert { } (castMessage.records.map Record.read) =
      .ok [⟨"Google".toList, 1, .v4 ⟨10, 0, 0, 9⟩, [], "unknown".toList, "unknown".toList⟩] := by
    decide +kernel
  rw [hconvert] at hdevs
  cases hdevs
  exact hreported

/-! ## Own queries -/

/-- A receive task has a query of the program itself. -/
def BrokerEvent.IsQuery : BrokerEvent → Prop
  | .listen _ => False
  | .packet d => ∃ e : Engine, ∃ domain ∈ e.domains, d.bytes = (mdnsQuery domain).data

/-- An engine asks only for domains that it has registered. -/
theorem Engine.mem_queries {e : Engine} {o : Outgoing} (h : o ∈ e.queries) :
    ∃ domain ∈ e.domains, o = mdnsQuery domain := by
  cases e
  case axis =>
    simp only [queries, List.mem_cons, List.not_mem_nil, or_false] at h
    rcases h with rfl | rfl
    · exact ⟨_, List.mem_cons_self, rfl⟩
    · exact ⟨_, List.mem_cons_of_mem _ List.mem_cons_self, rfl⟩
  case googleCast =>
    obtain rfl := List.mem_singleton.mp h
    exact ⟨_, List.mem_cons_self, rfl⟩
  all_goals cases h

/-- The labels of the domains can be sent. -/
theorem Engine.label_bounds {e : Engine} {domain : List Char} (h : domain ∈ e.domains) :
    ∀ l ∈ (idnAscii domain).splitOn '.', 1 ≤ (utf8 l).length ∧ (utf8 l).length ≤ 63 := by
  have hall : ∀ x ∈ registry, ∀ domain ∈ x.2.domains,
      ∀ l ∈ (idnAscii domain).splitOn '.', 1 ≤ (utf8 l).length ∧ (utf8 l).length ≤ 63 := by
    decide +kernel
  obtain ⟨id, hid⟩ := registry_complete e
  exact hall _ hid domain h

/-- A query of the program has no answers. -/
theorem parseDns_mdnsQuery {e : Engine} {domain : List Char} (h : domain ∈ e.domains) {d : Slice}
    (hd : d.bytes = (mdnsQuery domain).data) : parseDns d = .ok ⟨[]⟩ := by
  obtain ⟨ls, hls⟩ := exists_labels (Engine.label_bounds h)
  have hencodes : Encodes d (queryMessage ls 0x000C) [] :=
    ⟨by rw [hd, mdnsQuery, queryPacket_eq hls, List.append_nil], .inl ⟨rfl, rfl⟩⟩
  exact parseDns_carries hencodes.carries (hencodes.header_lt (.inl (List.cons_ne_nil _ _)))

/-- A query of the program changes nothing, whatever the handlers are. -/
theorem BrokerRun.step_query (config : Config) (r : BrokerRun) {ev : BrokerEvent}
    (h : ev.IsQuery) : r.step config ev = r := by
  cases ev with
  | listen e => exact h.elim
  | packet d =>
    obtain ⟨e, domain, hdomain, hd⟩ := h
    have hreaction : r.broker.onPacket d = ⟨[], .ok []⟩ := by
      rw [MdnsBroker.onPacket, parseDns_mdnsQuery hdomain hd]
      exact if_pos rfl
    simp only [step, hreaction, List.append_nil]

/-- The program does not hear itself: with the own queries that come back left out, a run ends in
the same state. The induction is along the events. -/
theorem BrokerRun.run_filter_queries (config : Config) (es : List BrokerEvent)
    (own : BrokerEvent → Bool) (hown : ∀ ev ∈ es, own ev = true → ev.IsQuery) :
    Machine.run (step config) new (es.filter fun ev => !own ev) =
      Machine.run (step config) new es := by
  generalize new = r
  induction es generalizing r with
  | nil => rfl
  | cons ev es ih =>
    obtain ⟨hev, hes⟩ := List.forall_mem_cons.mp hown
    rw [Machine.run_cons]
    cases hquery : own ev with
    | true =>
      rw [List.filter_cons_of_neg (by simp [hquery]), step_query config r (hev hquery), ih hes]
    | false => rw [List.filter_cons_of_pos (by simp [hquery]), Machine.run_cons, ih hes]

/-- A query for Google Cast comes back between two registrations. -/
theorem BrokerRun.run_filter_queries_cast :
    Machine.run (step { }) new [.listen .axis, .listen .googleCast] =
      Machine.run (step { }) new [.listen .axis,
        .packet ⟨(mdnsQuery "_googlecast._tcp.local".toList).data, by decide +kernel⟩,
        .listen .googleCast] := by
  let query : BrokerEvent :=
    .packet ⟨(mdnsQuery "_googlecast._tcp.local".toList).data, by decide +kernel⟩
  have hquery : query.IsQuery := ⟨.googleCast, _, List.mem_cons_self, rfl⟩
  let own : BrokerEvent → Bool
    | .packet _ => true
    | .listen _ => false
  refine run_filter_queries { } [.listen .axis, query, .listen .googleCast] own ?_
  intro ev hev hown
  simp only [List.mem_cons, List.not_mem_nil, or_false] at hev
  rcases hev with rfl | rfl | rfl
  · cases hown
  · exact hquery
  · cases hown

end Uscan
