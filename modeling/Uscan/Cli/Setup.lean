import Uscan.Cli.RunLoop
import Uscan.Scanner

/-!
# What a scan starts from

`config.rs` of the program, and what `run.rs` does before its loop. A switch of the configuration
has a pair of flags, a key in the configuration file, and a default, of which the first that is
given counts; the file is the first one that exists of those at four places. `loadConfig_spec` says
this of all ten switches, and when it is an error.

A scan then makes the scanner and starts it. It fails, with exit code 1 and no line printed, exactly
when one of these steps does; and it panics before its loop when its timers cannot be made
(`runScan_outcome`).
-/

namespace Uscan

/-- A path, as it is displayed. -/
abbrev PathText := List Char

/-! ## The switches -/

/-- `Config` with all its switches; only the logger reads the last one. -/
structure FullConfig extends Config where
  /-- Messages for debugging are logged. -/
  debugMode : Bool := false
  deriving DecidableEq, Repr

/-- A switch. -/
inductive Switch where
  | enableIpv4
  | enableIpv6
  | forceLinkLocal
  | forceZeroconf
  | forceGenericProtocols
  | debugMode
  | portSharing
  | onvifVerbatim
  | dahuaNetScan
  | arpEnabled
  deriving DecidableEq, Repr

/-- The value of a switch. -/
def FullConfig.get (config : FullConfig) : Switch → Bool
  | .enableIpv4 => config.enableIpv4
  | .enableIpv6 => config.enableIpv6
  | .forceLinkLocal => config.forceLinkLocal
  | .forceZeroconf => config.forceZeroconf
  | .forceGenericProtocols => config.forceGenericProtocols
  | .debugMode => config.debugMode
  | .portSharing => config.portSharing
  | .onvifVerbatim => config.onvifVerbatim
  | .dahuaNetScan => config.dahuaNetScan
  | .arpEnabled => config.arpEnabled

/-- Sets a switch. -/
def FullConfig.set (config : FullConfig) (value : Bool) : Switch → FullConfig
  | .enableIpv4 => { config with enableIpv4 := value }
  | .enableIpv6 => { config with enableIpv6 := value }
  | .forceLinkLocal => { config with forceLinkLocal := value }
  | .forceZeroconf => { config with forceZeroconf := value }
  | .forceGenericProtocols => { config with forceGenericProtocols := value }
  | .debugMode => { config with debugMode := value }
  | .portSharing => { config with portSharing := value }
  | .onvifVerbatim => { config with onvifVerbatim := value }
  | .dahuaNetScan => { config with dahuaNetScan := value }
  | .arpEnabled => { config with arpEnabled := value }

/-- `PartialConfig`: the keys of a configuration file. -/
structure PartialConfig where
  enableIpv4 : Option Bool := none
  enableIpv6 : Option Bool := none
  forceLinkLocal : Option Bool := none
  forceZeroconf : Option Bool := none
  forceGenericProtocols : Option Bool := none
  debugMode : Option Bool := none
  portSharing : Option Bool := none
  onvifVerbatim : Option Bool := none
  dahuaNetScan : Option Bool := none
  arpEnabled : Option Bool := none
  deriving DecidableEq, Repr

/-- The value of a key. -/
def PartialConfig.get (p : PartialConfig) : Switch → Option Bool
  | .enableIpv4 => p.enableIpv4
  | .enableIpv6 => p.enableIpv6
  | .forceLinkLocal => p.forceLinkLocal
  | .forceZeroconf => p.forceZeroconf
  | .forceGenericProtocols => p.forceGenericProtocols
  | .debugMode => p.debugMode
  | .portSharing => p.portSharing
  | .onvifVerbatim => p.onvifVerbatim
  | .dahuaNetScan => p.dahuaNetScan
  | .arpEnabled => p.arpEnabled

/-- A key that is given sets its switch. -/
def FullConfig.setSome (config : FullConfig) (value : Option Bool) (s : Switch) : FullConfig :=
  match value with
  | some v => config.set v s
  | none => config

/-- `PartialConfig::merge`. -/
def PartialConfig.merge (p : PartialConfig) : FullConfig :=
  let c : FullConfig := { }
  let c := c.setSome p.enableIpv4 .enableIpv4
  let c := c.setSome p.enableIpv6 .enableIpv6
  let c := c.setSome p.forceLinkLocal .forceLinkLocal
  let c := c.setSome p.forceZeroconf .forceZeroconf
  let c := c.setSome p.forceGenericProtocols .forceGenericProtocols
  let c := c.setSome p.debugMode .debugMode
  let c := c.setSome p.portSharing .portSharing
  let c := c.setSome p.onvifVerbatim .onvifVerbatim
  let c := c.setSome p.dahuaNetScan .dahuaNetScan
  c.setSome p.arpEnabled .arpEnabled

/-! ## The flags -/

/-- The flags of the switches, two for each. -/
structure Flags where
  enableIpv4 : Bool := false
  disableIpv4 : Bool := false
  enableIpv6 : Bool := false
  disableIpv6 : Bool := false
  forceLinkLocal : Bool := false
  noForceLinkLocal : Bool := false
  forceZeroconf : Bool := false
  noForceZeroconf : Bool := false
  forceGenericProtocols : Bool := false
  noForceGenericProtocols : Bool := false
  debug : Bool := false
  noDebug : Bool := false
  portSharing : Bool := false
  noPortSharing : Bool := false
  onvifVerbatim : Bool := false
  noOnvifVerbatim : Bool := false
  dahuaNetScan : Bool := false
  noDahuaNetScan : Bool := false
  arp : Bool := false
  noArp : Bool := false
  deriving DecidableEq, Repr

/-- `apply_bool`, on a switch of the configuration. -/
def applyBool (config : FullConfig) (field : Switch) (on off : Bool) (onFlag offFlag : String) :
    Except (List Char) FullConfig :=
  if on && off then
    .error ("conflicting flags: ".toList ++ onFlag.toList ++ " and ".toList ++ offFlag.toList)
  else .ok (if on then config.set true field else if off then config.set false field else config)

/-- `apply_flags`. -/
def applyFlags (c : FullConfig) (a : Flags) : Except (List Char) FullConfig := do
  let c ← applyBool c .enableIpv4 a.enableIpv4 a.disableIpv4 "--enable-ipv4" "--disable-ipv4"
  let c ← applyBool c .enableIpv6 a.enableIpv6 a.disableIpv6 "--enable-ipv6" "--disable-ipv6"
  let c ← applyBool c .forceLinkLocal a.forceLinkLocal a.noForceLinkLocal
    "--force-link-local" "--no-force-link-local"
  let c ← applyBool c .forceZeroconf a.forceZeroconf a.noForceZeroconf
    "--force-zeroconf" "--no-force-zeroconf"
  let c ← applyBool c .forceGenericProtocols a.forceGenericProtocols a.noForceGenericProtocols
    "--force-generic-protocols" "--no-force-generic-protocols"
  let c ← applyBool c .debugMode a.debug a.noDebug "--debug" "--no-debug"
  let c ← applyBool c .portSharing a.portSharing a.noPortSharing
    "--port-sharing" "--no-port-sharing"
  let c ← applyBool c .onvifVerbatim a.onvifVerbatim a.noOnvifVerbatim
    "--onvif-verbatim" "--no-onvif-verbatim"
  let c ← applyBool c .dahuaNetScan a.dahuaNetScan a.noDahuaNetScan
    "--dahua-net-scan" "--no-dahua-net-scan"
  applyBool c .arpEnabled a.arp a.noArp "--arp" "--no-arp"

/-! ## The file -/

/-- What a scan reads from its surroundings. -/
structure Host where
  /-- `UNIVERSAL_SCANNER_CONFIG`. -/
  universalScannerConfig : Option PathText
  /-- `XDG_CONFIG_HOME`. -/
  xdgConfigHome : Option PathText
  /-- `HOME`. -/
  home : Option PathText
  /-- `Path::is_file`. -/
  isFile : PathText → Bool
  /-- `std::fs::read_to_string`. -/
  readToString : PathText → Except (List Char) (List Char)
  /-- `toml::from_str`, with its messages. -/
  fromStr : List Char → Except (List Char) PartialConfig
  /-- The environment has the variable `NO_COLOR`. -/
  noColor : Bool

/-- The places of the configuration file. -/
def Host.candidates (host : Host) (cli : Option PathText) : List PathText :=
  let join : PathText → PathText → PathText := joinPath '/'
  cli.toList ++ host.universalScannerConfig.toList ++
    (host.xdgConfigHome.toList.map fun xdg =>
      join (join xdg "universal-scanner".toList) "config.toml".toList) ++
    (host.home.toList.map fun home =>
      join (join (join home ".config".toList) "universal-scanner".toList) "config.toml".toList)

/-- `resolve_config_path`. -/
def Host.resolveConfigPath (host : Host) (cli : Option PathText) : Option PathText :=
  (host.candidates cli).find? host.isFile

/-- The keys of a configuration file. -/
def Host.readPartial (host : Host) (p : PathText) : Except (List Char) PartialConfig :=
  match host.readToString p with
  | .error e => .error ("failed to read config file ".toList ++ p ++ ": ".toList ++ e)
  | .ok text =>
    match host.fromStr text with
    | .error e => .error ("invalid TOML config ".toList ++ p ++ ": ".toList ++ e)
    | .ok partialConfig => .ok partialConfig

/-- `load_config`. -/
def loadConfig (host : Host) (cli : Option PathText) (a : Flags) :
    Except (List Char) FullConfig := do
  let config ← match host.resolveConfigPath cli with
    | some p => (·.merge) <$> host.readPartial p
    | none => .ok { }
  applyFlags config a

/-! ## The value of a switch -/

/-- The flags of a switch. -/
def Flags.pair (a : Flags) : Switch → Bool × Bool
  | .enableIpv4 => (a.enableIpv4, a.disableIpv4)
  | .enableIpv6 => (a.enableIpv6, a.disableIpv6)
  | .forceLinkLocal => (a.forceLinkLocal, a.noForceLinkLocal)
  | .forceZeroconf => (a.forceZeroconf, a.noForceZeroconf)
  | .forceGenericProtocols => (a.forceGenericProtocols, a.noForceGenericProtocols)
  | .debugMode => (a.debug, a.noDebug)
  | .portSharing => (a.portSharing, a.noPortSharing)
  | .onvifVerbatim => (a.onvifVerbatim, a.noOnvifVerbatim)
  | .dahuaNetScan => (a.dahuaNetScan, a.noDahuaNetScan)
  | .arpEnabled => (a.arp, a.noArp)

/-- Both flags of a switch are given. -/
def Flags.conflict (a : Flags) (s : Switch) : Bool := (a.pair s).1 && (a.pair s).2

/-- What the flags of a switch say. -/
def Flags.value (a : Flags) (s : Switch) : Option Bool :=
  if (a.pair s).1 then some true else if (a.pair s).2 then some false else none

/-- The switches in the order of their flags, with the names of these. -/
def Switch.names : List (Switch × String × String) :=
  [(.enableIpv4, "--enable-ipv4", "--disable-ipv4"),
    (.enableIpv6, "--enable-ipv6", "--disable-ipv6"),
    (.forceLinkLocal, "--force-link-local", "--no-force-link-local"),
    (.forceZeroconf, "--force-zeroconf", "--no-force-zeroconf"),
    (.forceGenericProtocols, "--force-generic-protocols", "--no-force-generic-protocols"),
    (.debugMode, "--debug", "--no-debug"),
    (.portSharing, "--port-sharing", "--no-port-sharing"),
    (.onvifVerbatim, "--onvif-verbatim", "--no-onvif-verbatim"),
    (.dahuaNetScan, "--dahua-net-scan", "--no-dahua-net-scan"),
    (.arpEnabled, "--arp", "--no-arp")]

/-- Every switch has flags. -/
theorem Switch.mem_names (s : Switch) : s ∈ names.map Prod.fst := by
  cases s <;> decide

/-- A switch that is set has its value, and the others keep theirs. -/
theorem FullConfig.get_set (c : FullConfig) (v : Bool) (s s' : Switch) :
    (c.set v s).get s' = if s = s' then v else c.get s' := by
  cases s <;> cases s' <;> rfl

/-- A switch that may be set. -/
theorem FullConfig.get_setSome (c : FullConfig) (v : Option Bool) (s s' : Switch) :
    (c.setSome v s).get s' = if s = s' then v.getD (c.get s') else c.get s' := by
  cases v with
  | none => exact (ite_self _).symm
  | some v => exact c.get_set v s s'

/-- A file has its keys, and the defaults otherwise. -/
theorem PartialConfig.get_merge (p : PartialConfig) (s : Switch) :
    p.merge.get s = (p.get s).getD (({ } : FullConfig).get s) := by
  rw [merge]
  simp only [FullConfig.get_setSome]
  cases s <;> rfl

/-! ## The flags of all switches -/

/-- Steps that each may fail: the first one that does decides, and if none does they are taken. -/
theorem foldlM_eq_of_find? {ι σ ε : Type} {f : σ → ι → Except ε σ} {bad : ι → Bool} {msg : ι → ε}
    {g : σ → ι → σ} (hf : ∀ s i, f s i = if bad i then .error (msg i) else .ok (g s i))
    (s : σ) (is : List ι) :
    is.foldlM f s = (is.find? bad).elim (.ok (is.foldl g s)) fun i => .error (msg i) := by
  induction is generalizing s with
  | nil => rfl
  | cons i is ih =>
    rw [List.foldlM_cons, hf, List.find?_cons]
    cases bad i with
    | true => rfl
    | false => exact ih (g s i)

/-- The message about a pair of flags. -/
def conflictText (names : Switch × String × String) : List Char :=
  "conflicting flags: ".toList ++ names.2.1.toList ++ " and ".toList ++ names.2.2.toList

/-- A pair of flags is an error when both are given, and otherwise sets its switch. -/
theorem applyBool_eq (a : Flags) (c : FullConfig) (names : Switch × String × String) :
    applyBool c names.1 (a.pair names.1).1 (a.pair names.1).2 names.2.1 names.2.2 =
      if a.conflict names.1 then .error (conflictText names)
      else .ok (c.setSome (a.value names.1) names.1) := by
  rw [applyBool, Flags.conflict, Flags.value]
  cases (a.pair names.1).1 <;> cases (a.pair names.1).2 <;> rfl

/-- The flags are an error when both of a pair are given, about the first such pair, and otherwise
set their switches. -/
theorem applyFlags_eq (c : FullConfig) (a : Flags) :
    applyFlags c a = (Switch.names.find? fun names => a.conflict names.1).elim
      (.ok (Switch.names.foldl (fun c names => c.setSome (a.value names.1) names.1) c))
      fun names => .error (conflictText names) := by
  refine Eq.trans ?_ (foldlM_eq_of_find? (applyBool_eq a) c Switch.names)
  simp only [Switch.names, List.foldlM_cons, List.foldlM_nil, bind_pure]
  rfl

/-- The value of a switch after the flags. -/
theorem get_foldl_setSome (c : FullConfig) (a : Flags) (s : Switch) :
    (Switch.names.foldl (fun c names => c.setSome (a.value names.1) names.1) c).get s =
      (a.value s).getD (c.get s) := by
  simp only [Switch.names, List.foldl_cons, List.foldl_nil, FullConfig.get_setSome]
  cases s <;> rfl

/-! ## The configuration of a scan -/

/-- The keys of the first configuration file that exists, or none. -/
def Host.fileSettings (host : Host) (cli : Option PathText) : Except (List Char) PartialConfig :=
  match host.resolveConfigPath cli with
  | some p => host.readPartial p
  | none => .ok { }

/-- The configuration is that of the file, changed by the flags. -/
theorem loadConfig_eq (host : Host) (cli : Option PathText) (a : Flags) :
    loadConfig host cli a = match host.fileSettings cli with
      | .error e => .error e
      | .ok p => applyFlags p.merge a := by
  rw [loadConfig, Host.fileSettings]
  cases host.resolveConfigPath cli with
  | none => rfl
  | some p =>
    dsimp only
    cases host.readPartial p <;> rfl

/-- Two configurations with the same switches. -/
theorem FullConfig.ext_get {c c' : FullConfig} (h : ∀ s, c.get s = c'.get s) : c = c' := by
  obtain ⟨⟨_, _, _, _, _, _, _, _, _⟩, _⟩ := c
  obtain ⟨⟨_, _, _, _, _, _, _, _, _⟩, _⟩ := c'
  have h0 := h .enableIpv4
  have h1 := h .enableIpv6
  have h2 := h .forceLinkLocal
  have h3 := h .forceZeroconf
  have h4 := h .forceGenericProtocols
  have h5 := h .debugMode
  have h6 := h .portSharing
  have h7 := h .onvifVerbatim
  have h8 := h .dahuaNetScan
  have h9 := h .arpEnabled
  simp only [get] at h0 h1 h2 h3 h4 h5 h6 h7 h8 h9
  subst h0 h1 h2 h3 h4 h5 h6 h7 h8 h9
  rfl

/-- No two flags of a pair are given. -/
theorem Flags.find?_eq_none {a : Flags} :
    (Switch.names.find? fun names => a.conflict names.1) = none ↔ ∀ s, a.conflict s = false := by
  rw [List.find?_eq_none]
  constructor
  · intro h s
    obtain ⟨names, hnames, rfl⟩ := List.mem_map.mp s.mem_names
    exact Bool.eq_false_iff.mpr (h names hnames)
  · intro h names _
    rw [h]
    decide

/-- The flags of a configuration that has no error. -/
theorem applyFlags_eq_ok_iff {c c' : FullConfig} {a : Flags} :
    applyFlags c a = .ok c' ↔
      (∀ s, a.conflict s = false) ∧ ∀ s, c'.get s = (a.value s).getD (c.get s) := by
  rw [applyFlags_eq, ← Flags.find?_eq_none]
  cases Switch.names.find? fun names => a.conflict names.1 with
  | some names => simp
  | none =>
    rw [Option.elim_none, Except.ok.injEq]
    constructor
    · rintro rfl
      exact ⟨rfl, get_foldl_setSome c a⟩
    · rintro ⟨-, h⟩
      exact FullConfig.ext_get fun s => (get_foldl_setSome c a s).trans (h s).symm

/-- The first pair of flags that are both given is the error. -/
theorem applyFlags_eq_error_iff {c : FullConfig} {a : Flags} {e : List Char} :
    applyFlags c a = .error e ↔ ∃ pre names post, Switch.names = pre ++ names :: post ∧
      a.conflict names.1 = true ∧ (∀ other ∈ pre, a.conflict other.1 = false) ∧
      e = conflictText names := by
  have hsplit : ∀ names, (Switch.names.find? fun names => a.conflict names.1) = some names ↔
      ∃ pre post, Switch.names = pre ++ names :: post ∧ a.conflict names.1 = true ∧
        ∀ other ∈ pre, a.conflict other.1 = false := by
    intro names
    rw [List.find?_eq_some_iff_append]
    constructor
    · rintro ⟨hboth, pre, post, heq, hpre⟩
      exact ⟨pre, post, heq, hboth, fun other hother => by simpa using hpre other hother⟩
    · rintro ⟨pre, post, heq, hboth, hpre⟩
      exact ⟨hboth, pre, post, heq, fun other hother => by rw [hpre other hother]; rfl⟩
  rw [applyFlags_eq]
  constructor
  · intro h
    cases hfind : Switch.names.find? fun names => a.conflict names.1 with
    | none =>
      rw [hfind] at h
      cases h
    | some names =>
      obtain ⟨pre, post, heq, hboth, hpre⟩ := (hsplit names).mp hfind
      rw [hfind] at h
      cases h
      exact ⟨pre, names, post, heq, hboth, hpre, rfl⟩
  · rintro ⟨pre, names, post, heq, hboth, hpre, rfl⟩
    rw [(hsplit names).mpr ⟨pre, post, heq, hboth, hpre⟩]
    rfl

/-- The configuration of a scan. Without an error, every switch has what its flags say, or else its
key in the first configuration file that exists, or else its default. It is an error if the file has
one, or if both flags of a pair are given; the message names the first such pair. -/
theorem loadConfig_spec (host : Host) (cli : Option PathText) (a : Flags) :
    (∀ c, loadConfig host cli a = .ok c ↔
      ∃ p, host.fileSettings cli = .ok p ∧ (∀ s, a.conflict s = false) ∧
        ∀ s, c.get s = (a.value s).getD ((p.get s).getD (({ } : FullConfig).get s))) ∧
    ∀ e, loadConfig host cli a = .error e ↔
      host.fileSettings cli = .error e ∨
        ((∃ p, host.fileSettings cli = .ok p) ∧ ∃ pre names post,
          Switch.names = pre ++ names :: post ∧ a.conflict names.1 = true ∧
            (∀ other ∈ pre, a.conflict other.1 = false) ∧ e = conflictText names) := by
  rw [loadConfig_eq]
  cases host.fileSettings cli with
  | error e => simp
  | ok p =>
    refine ⟨fun c => applyFlags_eq_ok_iff.trans ?_, fun e => applyFlags_eq_error_iff.trans ?_⟩
    · simp [PartialConfig.get_merge]
    · simp

/-! ## The start of a scan -/

/-- The arguments of a scan that are read before the loop. -/
structure ScanOptions where
  /-- The names of the engines. -/
  protocols : Option (List (List Char))
  /-- The file of the captured datagrams. -/
  pcapOut : Option PathText
  /-- The configuration file. -/
  config : Option PathText
  /-- The flags of the switches. -/
  flags : Flags

/-- The names of the engines, unless there are none. -/
def ScanOptions.names (o : ScanOptions) : Option (List (List Char)) := o.protocols.filter (· ≠ [])

/-- An error of the library, as the program prints it. -/
def orText {α : Type} (r : Except Error α) : Except (List Char) α := r.mapError Error.text

/-- The file of the captured datagrams, if there is to be one; `createPcap` is `PcapWriter::new`. -/
def openPcap (createPcap : PathText → Except Error Unit) : Option PathText → Except Error Unit
  | some path => createPcap path
  | none => .ok ()

/-- `run_scan_inner` up to its loop. The first round of probes never fails. -/
def scanSetup (host : Host) (createPcap : PathText → Except Error Unit) (os : Os)
    (ifaces : List Iface) (o : ScanOptions) (args : ScanArgs) :
    Except (List Char) Settings := do
  let config ← loadConfig host o.config o.flags
  orText (openPcap createPcap o.pcapOut)
  let selection ← orText (Selection.new o.names)
  orText ((Scanner.new config.toConfig selection).start os ifaces).2
  return ⟨args, config.toConfig, host.noColor⟩

/-- The steps before the loop succeed, with a configuration and a selection of engines. -/
structure SetupOk (host : Host) (createPcap : PathText → Except Error Unit) (os : Os)
    (ifaces : List Iface) (o : ScanOptions) (config : FullConfig) (selection : Selection) :
    Prop where
  /-- The configuration. -/
  config_eq : loadConfig host o.config o.flags = .ok config
  /-- The file of the captured datagrams. -/
  pcap : ∀ path ∈ o.pcapOut, createPcap path = .ok ()
  /-- The selection. -/
  selection_eq : Selection.new o.names = .ok selection
  /-- There is an interface. -/
  iface : ifaces ≠ []
  /-- No socket that has to be opened fails. -/
  sockets : ∀ a ∈ (Scanner.new config.toConfig selection).attempts os ifaces, os.fatal a = false

/-- A result that is returned. -/
theorem orText_eq_ok {α : Type} {r : Except Error α} {a : α} : orText r = .ok a ↔ r = .ok a := by
  cases r <;> simp [orText, Except.mapError]

/-- Two steps that succeed. -/
theorem except_bind_eq_ok {ε α β : Type} {x : Except ε α} {f : α → Except ε β} {b : β} :
    x >>= f = .ok b ↔ ∃ a, x = .ok a ∧ f a = .ok b := by
  cases x with
  | error e => simp [bind, Except.bind]
  | ok a => simp [bind, Except.bind]

/-- A start that succeeds. -/
theorem Scanner.start_eq_ok_iff {s : Scanner} {os : Os} {ifaces : List Iface} :
    (s.start os ifaces).2 = .ok () ↔
      ifaces ≠ [] ∧ ∀ a ∈ s.attempts os ifaces, os.fatal a = false := by
  obtain ⟨hnone, heq⟩ | ⟨hsome, engines, result, heq, hok⟩ := s.start_cases os ifaces
  · rw [heq]
    simp [hnone]
  · rw [heq]
    exact hok.trans (and_iff_right hsome).symm

section

variable {host : Host} {createPcap : PathText → Except Error Unit} {os : Os} {ifaces : List Iface}
  {o : ScanOptions} {args : ScanArgs}

/-- The steps before the loop succeed just when each one does. -/
theorem scanSetup_eq_ok_iff {st : Settings} :
    scanSetup host createPcap os ifaces o args = .ok st ↔
      ∃ config selection, SetupOk host createPcap os ifaces o config selection ∧
        st = ⟨args, config.toConfig, host.noColor⟩ := by
  have hpcap : openPcap createPcap o.pcapOut = .ok () ↔
      ∀ path ∈ o.pcapOut, createPcap path = .ok () := by
    cases o.pcapOut <;> simp [openPcap]
  rw [scanSetup]
  simp only [except_bind_eq_ok, orText_eq_ok]
  constructor
  · rintro ⟨config, hconfig, _, hopen, selection, hselection, _, hstart, hst⟩
    cases hst
    obtain ⟨hifaces, hsockets⟩ := Scanner.start_eq_ok_iff.mp hstart
    exact ⟨config, selection, ⟨hconfig, hpcap.mp hopen, hselection, hifaces, hsockets⟩, rfl⟩
  · rintro ⟨config, selection, h, rfl⟩
    exact ⟨config, h.config_eq, (), hpcap.mpr h.pcap, selection, h.selection_eq, (),
      Scanner.start_eq_ok_iff.mpr ⟨h.iface, h.sockets⟩, rfl⟩

/-- The exit code of a loop. -/
theorem runScanInner_code (lib : Render) (st : Settings) (events : List LoopEvent)
    (ending : LoopEnding) :
    (runScanInner lib st events ending).code = if ending = .ctrlC then 130 else 0 := by
  cases ending <;> rfl

end

/-- A scan fails, with exit code 1, exactly when one of the steps before its loop does, and then it
has printed nothing. Otherwise, if its timers cannot be made, as those of `--rescan 0`, it ends with
the header and exit code 101. Otherwise the exit code is 130 after Ctrl-C and 0 after any other end,
and the loop runs with the configuration that was loaded. Standard output takes what is printed. -/
theorem runScan_outcome (lib : Render) (host : Host) (createPcap : PathText → Except Error Unit)
    (os : Os) (ifaces : List Iface) (o : ScanOptions) (args : ScanArgs) (timers : Timers)
    (events : List LoopEvent) (ending : LoopEnding) :
    let outcome := runScan lib timers (scanSetup host createPcap os ifaces o args) events ending
    (outcome.code = 1 ↔
      ¬ ∃ config selection, SetupOk host createPcap os ifaces o config selection) ∧
    (outcome.code = 1 → outcome.stdout = []) ∧
    (∀ config selection, SetupOk host createPcap os ifaces o config selection →
      if timers.panics args then outcome = ⟨(header args.format).toList, 101⟩
      else outcome = runScanInner lib ⟨args, config.toConfig, host.noColor⟩ events ending ∧
        outcome.code = if ending = .ctrlC then 130 else 0) ∧
    (args.rescan = some 0 → timers.panics args = true) := by
  intro outcome
  have hzero : args.rescan = some 0 → timers.panics args = true := by
    intro hrescan
    rw [Timers.panics, hrescan, Option.any_some, timers.interval_zero, Bool.true_or]
  cases hsetup : scanSetup host createPcap os ifaces o args with
  | error e =>
    have hnot : ¬ ∃ config selection, SetupOk host createPcap os ifaces o config selection := by
      rintro ⟨config, selection, h⟩
      have hok : scanSetup host createPcap os ifaces o args =
          .ok ⟨args, config.toConfig, host.noColor⟩ :=
        scanSetup_eq_ok_iff.mpr ⟨config, selection, h, rfl⟩
      rw [hsetup] at hok
      cases hok
    have houtcome : outcome = ⟨[], 1⟩ := by
      change runScan lib timers (scanSetup host createPcap os ifaces o args) events ending = _
      rw [hsetup]
      rfl
    rw [houtcome]
    exact ⟨iff_of_true rfl hnot, fun _ => rfl, fun config selection h =>
      absurd ⟨config, selection, h⟩ hnot, hzero⟩
  | ok st =>
    obtain ⟨config, selection, h, rfl⟩ := scanSetup_eq_ok_iff.mp hsetup
    have houtcome : outcome = if timers.panics args then ⟨(header args.format).toList, 101⟩
        else runScanInner lib ⟨args, config.toConfig, host.noColor⟩ events ending := by
      change runScan lib timers (scanSetup host createPcap os ifaces o args) events ending = _
      rw [hsetup]
      rfl
    have hcode := runScanInner_code lib ⟨args, config.toConfig, host.noColor⟩ events ending
    have hne : outcome.code ≠ 1 := by
      rw [houtcome]
      by_cases hpanics : timers.panics args = true
      · rw [if_pos hpanics]
        exact (by decide : 101 ≠ 1)
      · rw [if_neg hpanics, hcode]
        split_ifs <;> decide
    refine ⟨iff_of_false hne fun hnot => hnot ⟨config, selection, h⟩, fun h => absurd h hne, ?_,
      hzero⟩
    intro config' selection' h'
    -- The configuration that was loaded is the only one.
    cases h.config_eq.symm.trans h'.config_eq
    by_cases hpanics : timers.panics args = true
    · rw [if_pos hpanics] at houtcome ⊢
      exact houtcome
    · rw [if_neg hpanics] at houtcome ⊢
      exact ⟨houtcome, houtcome ▸ hcode⟩

end Uscan
