import Uscan.TvtProvision.HexDump

/-!
# The command that sets an address

`send_set_ip` of `tvt_provision.rs` and `run_tvt_set` of `commands.rs`. The packet of a request is
sent to a group, up to three times, until one call sends all of it; with `--dry-run` it is only
printed.

`runTvtSet_spec` says when the command succeeds, what it sends and how often, and that nothing it
prints depends on the password.
-/

namespace Uscan

namespace TvtProvision

/-! ## Sending -/

/-- `SET_IP_GROUP` and `SET_IP_PORT`. -/
def setIpDest : SocketAddr := ⟨.v4 ⟨234, 55, 55, 55⟩, 23456⟩

/-- The end of a call of `send_to`. -/
inductive SendTo where
  /-- Some bytes have been sent. -/
  | sent (n : ℕ)
  /-- An error. -/
  | err (msg : String)
  deriving DecidableEq

/-- The answers of the operating system while a packet is sent. -/
structure SendOs where
  /-- `Socket::new`. -/
  socket : Except Error Unit
  /-- `set_multicast_if_v4`. -/
  multicastIf : Ipv4Addr → Except Error Unit
  /-- `set_multicast_ttl_v4`. -/
  multicastTtl : Except Error Unit
  /-- `send_to`, by the number of the attempt. -/
  sendTo : ℕ → SendTo

/-- The part of `send_set_ip` that sets up its socket. -/
def SendOs.setup (os : SendOs) (bindAddress : Option Ipv4Addr) : Except Error Unit := do
  os.socket
  match bindAddress with
  | some bind => os.multicastIf bind
  | none => pure ()
  os.multicastTtl

/-- The error of a call of `send_to`: one that sends a part of the packet has one as well. -/
def SendTo.failure : SendTo → Option String
  | .sent n => if n = packetSize then none else some "short send"
  | .err e => some e

/-- The loop of `send_set_ip` from an attempt on, with the last error so far: the number of calls of
`send_to`, and the last error after them. -/
def sendLoop (os : SendOs) (left attempt : ℕ) (lastErr : Option String) : ℕ × Option String :=
  match left with
  | 0 => (0, lastErr)
  | left + 1 =>
    match (os.sendTo attempt).failure with
    | none => (1, none)
    | some e =>
      let (calls, lastErr) := sendLoop os left (attempt + 1) (some e)
      (calls + 1, lastErr)

/-- `send_set_ip`: the packets that are given to `send_to`, and the result. -/
def sendSetIp (base64 : Base64) (os : SendOs) (req : SetIpRequest)
    (bindAddress : Option Ipv4Addr) : List (SocketAddr × Packet) × Res Error Unit :=
  match buildSetIpRequest base64 req with
  | .panicked => ([], .panicked)
  | .err e => ([], .err e)
  | .ok packet =>
    match os.setup bindAddress with
    | .error e => ([], .err e)
    | .ok () =>
      let (calls, lastErr) := sendLoop os 3 0 none
      (List.replicate calls (setIpDest, packet),
        match lastErr with
        | none => .ok ()
        | some e => .err (.io ("all 3 TVT L2 set-IP sends failed: " ++ e)))

/-! ## The command -/

/-- `TvtSetArgs`. -/
structure TvtSetArgs where
  /-- The hardware address of the camera. -/
  mac : List Char
  /-- The address that it is given. -/
  ip : Ipv4Addr
  /-- The mask of its subnet. -/
  mask : Ipv4Addr := ⟨255, 255, 255, 0⟩
  /-- Its gateway. -/
  gateway : Ipv4Addr := ⟨0, 0, 0, 0⟩
  /-- The password of its administrator. -/
  password : List Char := []
  /-- It takes its address from a server instead. -/
  dhcp : Bool := false
  /-- The address of the interface that sends. -/
  interface : Option Ipv4Addr := none
  /-- The version of the protocol. -/
  version : UInt32 := 65544
  /-- The packet is printed and not sent. -/
  dryRun : Bool := false

/-- The request of the arguments. -/
def TvtSetArgs.request (args : TvtSetArgs) (mac : Mac) : SetIpRequest where
  mac := mac
  password := args.password
  newIp := args.ip
  subnetMask := args.mask
  gateway := args.gateway
  dhcp := args.dhcp
  protocolVersion := args.version

/-- What a run of the command leaves behind. -/
structure TvtOutcome where
  /-- The packets that were given to `send_to`. -/
  sent : List (SocketAddr × Packet)
  /-- The text on standard output. -/
  stdout : List Char
  /-- The text on standard error. -/
  stderr : List Char
  /-- The exit code. -/
  code : ℕ

/-- A run that ends with an error. -/
def TvtOutcome.error (sent : List (SocketAddr × Packet)) (e : Error) : TvtOutcome :=
  ⟨sent, [], "error: ".toList ++ e.text ++ ['\n'], 1⟩

/-- The message about a packet that was sent. -/
def sentText (mac : Mac) (dhcp : Bool) : List Char :=
  "sent 140B TVT set-IP packet to 234.55.55.55:23456 (mac ".toList ++
    [':'].intercalate (mac.elems.map lowerHex) ++ ", dhcp=".toList ++
    (if dhcp then "true".toList else "false".toList) ++ ")\n".toList

/-- `run_tvt_set`. -/
def runTvtSet (base64 : Base64) (os : SendOs) (args : TvtSetArgs) : Res Empty TvtOutcome :=
  match parseMac args.mac with
  | .panicked => .panicked
  | .err e => .ok (.error [] e)
  | .ok mac =>
    let req := args.request mac
    match buildSetIpRequest base64 req with
    | .panicked => .panicked
    | .err e => .ok (.error [] e)
    | .ok packet =>
      if args.dryRun then do
        let text ← hexDump packet
        return ⟨[], text, [], 0⟩
      else
        let (sent, result) := sendSetIp base64 os req args.interface
        match result with
        | .ok () => .ok ⟨sent, sentText mac req.dhcp, [], 0⟩
        | .err e => .ok (.error sent e)
        | .panicked => .panicked

/-! ## The loop -/

/-- A call without an error sends the whole packet. -/
theorem SendTo.failure_eq_none_iff {r : SendTo} : r.failure = none ↔ r = .sent packetSize := by
  cases r with
  | sent n => simp [failure]
  | err e => simp [failure]

/-- The loop stops at the first call that sends the whole packet, or after all calls. -/
theorem sendLoop_cases (os : SendOs) (left attempt : ℕ) (lastErr : Option String) :
    (∃ n < left, (∀ m < n, os.sendTo (attempt + m) ≠ .sent packetSize) ∧
      os.sendTo (attempt + n) = .sent packetSize ∧
      sendLoop os left attempt lastErr = (n + 1, none)) ∨
    ((∀ m < left, os.sendTo (attempt + m) ≠ .sent packetSize) ∧
      ∃ e, sendLoop os left attempt lastErr = (left, e) ∧
        (lastErr ≠ none ∨ left ≠ 0 → e ≠ none)) := by
  induction left generalizing attempt lastErr with
  | zero =>
    refine .inr ⟨fun m hm => absurd hm (Nat.not_lt_zero m), lastErr, rfl, fun h => ?_⟩
    exact h.resolve_right fun h => h rfl
  | succ left ih =>
    rw [sendLoop]
    cases hfirst : (os.sendTo attempt).failure with
    | none =>
      refine .inl ⟨0, Nat.succ_pos left, fun m hm => absurd hm (Nat.not_lt_zero m), ?_, rfl⟩
      exact SendTo.failure_eq_none_iff.mp hfirst
    | some e =>
      have hnot : os.sendTo (attempt + 0) ≠ .sent packetSize := by
        intro h
        have hnone := SendTo.failure_eq_none_iff.mpr h
        rw [Nat.add_zero, hfirst] at hnone
        cases hnone
      -- The calls after the first one, counted from it.
      have hshift {k : ℕ} (h : ∀ m < k, os.sendTo (attempt + 1 + m) ≠ .sent packetSize) :
          ∀ m < k + 1, os.sendTo (attempt + m) ≠ .sent packetSize := by
        intro m hm
        cases m with
        | zero => exact hnot
        | succ m =>
          have := h m (Nat.lt_of_succ_lt_succ hm)
          rwa [Nat.add_assoc, Nat.add_comm 1 m] at this
      obtain ⟨n, hn, hbefore, hsent, heq⟩ | ⟨hall, e', heq, he'⟩ := ih (attempt + 1) (some e)
      · refine .inl ⟨n + 1, Nat.succ_lt_succ hn, hshift hbefore, ?_, ?_⟩
        · rwa [Nat.add_assoc, Nat.add_comm 1 n] at hsent
        · simp only [heq]
      · refine .inr ⟨hshift hall, e', by simp only [heq], fun _ => ?_⟩
        exact he' (.inl (Option.some_ne_none e))

/-! ## Runs of the command -/

section

variable (base64 : Base64) (os : SendOs)

/-- A text that is no hardware address. -/
theorem runTvtSet_of_not_mac {args : TvtSetArgs} (h : ¬ ∃ mac, IsMacText args.mac mac) :
    runTvtSet base64 os args = .ok (.error [] (invalidMac args.mac)) := by
  rw [runTvtSet, parseMac_eq_err h]

/-- A password that is too long. -/
theorem runTvtSet_of_long {args : TvtSetArgs} {mac : Mac} (hmac : IsMacText args.mac mac)
    (h : maxPlaintextPassword < (utf8 args.password).length) :
    runTvtSet base64 os args = .ok (.error [] passwordTooLong) := by
  rw [runTvtSet, parseMac_eq_ok hmac]
  dsimp only
  have herr : buildSetIpRequest base64 (args.request mac) = .err passwordTooLong :=
    buildSetIpRequest_eq_err h
  rw [herr]

/-- What a run comes to with an address and a password. -/
def outcomeOf (args : TvtSetArgs) (mac : Mac) : TvtOutcome :=
  if args.dryRun then
    ⟨[], dumpLines 0 (chunks 16 (masked (packet base64 (args.request mac))).elems), [], 0⟩
  else
    match os.setup args.interface with
    | .error e => .error [] e
    | .ok () =>
      let (calls, lastErr) := sendLoop os 3 0 none
      let sent := List.replicate calls (setIpDest, packet base64 (args.request mac))
      match lastErr with
      | none => ⟨sent, sentText mac args.dhcp, [], 0⟩
      | some e => .error sent (.io ("all 3 TVT L2 set-IP sends failed: " ++ e))

/-- An address and a password. -/
theorem runTvtSet_eq {args : TvtSetArgs} {mac : Mac} (hmac : IsMacText args.mac mac)
    (h : (utf8 args.password).length ≤ maxPlaintextPassword) :
    runTvtSet base64 os args = .ok (outcomeOf base64 os args mac) := by
  have hbuild : buildSetIpRequest base64 (args.request mac) =
      .ok (packet base64 (args.request mac)) := buildSetIpRequest_eq_ok h
  rw [runTvtSet, parseMac_eq_ok hmac]
  dsimp only
  rw [hbuild, outcomeOf]
  dsimp only
  split_ifs
  · rw [hexDump_eq]
    rfl
  · rw [sendSetIp, hbuild]
    dsimp only
    cases os.setup args.interface with
    | error e => rfl
    | ok _ =>
      cases sendLoop os 3 0 none with
      | mk calls lastErr => cases lastErr <;> rfl

/-- The four ends of such a run: the packet is printed; the socket cannot be set up; a call sends
the packet; or none of three calls does. -/
theorem outcomeOf_cases (args : TvtSetArgs) (mac : Mac) :
    (args.dryRun = true ∧ (outcomeOf base64 os args mac).sent = [] ∧
      (outcomeOf base64 os args mac).code = 0) ∨
    (args.dryRun = false ∧ (∃ e, os.setup args.interface = .error e) ∧
      (outcomeOf base64 os args mac).sent = [] ∧ (outcomeOf base64 os args mac).code = 1) ∨
    (args.dryRun = false ∧ os.setup args.interface = .ok () ∧ ∃ n < 3,
      (∀ m < n, os.sendTo m ≠ .sent packetSize) ∧ os.sendTo n = .sent packetSize ∧
      (outcomeOf base64 os args mac).sent =
        List.replicate (n + 1) (setIpDest, packet base64 (args.request mac)) ∧
      (outcomeOf base64 os args mac).code = 0) ∨
    (args.dryRun = false ∧ os.setup args.interface = .ok () ∧
      (∀ m < 3, os.sendTo m ≠ .sent packetSize) ∧
      (outcomeOf base64 os args mac).sent =
        List.replicate 3 (setIpDest, packet base64 (args.request mac)) ∧
      (outcomeOf base64 os args mac).code = 1) := by
  cases hdry : args.dryRun with
  | true =>
    rw [outcomeOf, if_pos hdry]
    exact .inl ⟨rfl, rfl, rfl⟩
  | false =>
    rw [outcomeOf, if_neg (by rw [hdry]; decide)]
    cases hsetup : os.setup args.interface with
    | error e => exact .inr (.inl ⟨rfl, ⟨e, rfl⟩, rfl, rfl⟩)
    | ok _ =>
      obtain ⟨n, hn, hbefore, hsent, hloop⟩ | ⟨hall, e, hloop, he⟩ := sendLoop_cases os 3 0 none
      · rw [hloop]
        simp only [Nat.zero_add] at hbefore hsent
        exact .inr (.inr (.inl ⟨rfl, rfl, n, hn, hbefore, hsent, rfl, rfl⟩))
      · simp only [Nat.zero_add] at hall
        obtain ⟨e, rfl⟩ := Option.ne_none_iff_exists'.mp (he (.inr (by decide)))
        rw [hloop]
        exact .inr (.inr (.inr ⟨rfl, rfl, hall, rfl, rfl⟩))

/-- The run succeeds with `--dry-run`, or if a call sends the packet. -/
theorem outcomeOf_code (args : TvtSetArgs) (mac : Mac) :
    (outcomeOf base64 os args mac).code = 0 ↔ args.dryRun = true ∨
      (os.setup args.interface = .ok () ∧ ∃ n < 3, os.sendTo n = .sent packetSize) := by
  obtain ⟨hdry, -, hcode⟩ | ⟨hdry, ⟨e, hsetup⟩, -, hcode⟩ |
    ⟨-, hsetup, n, hn, -, hsent, -, hcode⟩ | ⟨hdry, -, hall, -, hcode⟩ :=
    outcomeOf_cases base64 os args mac
  · exact iff_of_true hcode (.inl hdry)
  · refine iff_of_false (by rw [hcode]; decide) ?_
    rintro (h | ⟨h, -⟩)
    · rw [hdry] at h
      cases h
    · rw [hsetup] at h
      cases h
  · exact iff_of_true hcode (.inr ⟨hsetup, n, hn, hsent⟩)
  · refine iff_of_false (by rw [hcode]; decide) ?_
    rintro (h | ⟨-, n, hn, h⟩)
    · rw [hdry] at h
      cases h
    · exact hall n hn h

/-- What is sent is the packet, to the group. -/
theorem outcomeOf_sent (args : TvtSetArgs) (mac : Mac) :
    ∀ call ∈ (outcomeOf base64 os args mac).sent, args.dryRun = false ∧
      call = (setIpDest, packet base64 (args.request mac)) := by
  intro call hcall
  obtain ⟨-, hsent, -⟩ | ⟨-, -, hsent, -⟩ | ⟨hdry, -, n, -, -, -, hsent, -⟩ |
    ⟨hdry, -, -, hsent, -⟩ := outcomeOf_cases base64 os args mac
  · rw [hsent] at hcall
    cases hcall
  · rw [hsent] at hcall
    cases hcall
  · rw [hsent] at hcall
    exact ⟨hdry, List.eq_of_mem_replicate hcall⟩
  · rw [hsent] at hcall
    exact ⟨hdry, List.eq_of_mem_replicate hcall⟩

/-- It is sent three times at most, and not again once a call has sent it. -/
theorem outcomeOf_length (args : TvtSetArgs) (mac : Mac) :
    (outcomeOf base64 os args mac).sent.length ≤ 3 ∧ ∀ n, os.sendTo n = .sent packetSize →
      (outcomeOf base64 os args mac).sent.length ≤ n + 1 := by
  obtain ⟨-, hsent, -⟩ | ⟨-, -, hsent, -⟩ | ⟨-, -, n, hn, hbefore, -, hsent, -⟩ |
    ⟨-, -, hall, hsent, -⟩ := outcomeOf_cases base64 os args mac
  · rw [hsent]
    exact ⟨Nat.zero_le 3, fun n _ => Nat.zero_le (n + 1)⟩
  · rw [hsent]
    exact ⟨Nat.zero_le 3, fun n _ => Nat.zero_le (n + 1)⟩
  · rw [hsent, List.length_replicate]
    refine ⟨hn, fun m hm => Nat.succ_le_succ (not_lt.mp fun hlt => ?_)⟩
    exact hbefore m hlt hm
  · rw [hsent, List.length_replicate]
    refine ⟨le_rfl, fun m hm => not_lt.mp fun hlt => ?_⟩
    exact hall m (Nat.lt_of_succ_lt hlt) hm

/-- What is printed, and how often the packet is sent, is the same for another password. -/
theorem outcomeOf_password {args : TvtSetArgs} {password : List Char} (mac : Mac)
    (h : (utf8 args.password).length ≤ maxPlaintextPassword)
    (h' : (utf8 password).length ≤ maxPlaintextPassword) :
    let outcome := outcomeOf base64 os args mac
    let outcome' := outcomeOf base64 os { args with password } mac
    outcome'.stdout = outcome.stdout ∧ outcome'.stderr = outcome.stderr ∧
      outcome'.code = outcome.code ∧ outcome'.sent.length = outcome.sent.length := by
  intro outcome outcome'
  -- The dump hides the bytes of the password, and the two packets differ in no others.
  have hdump : hexDump (packet base64 (args.request mac)) =
      hexDump (packet base64 ({ args with password }.request mac)) :=
    (hexDump_eq_iff _ _).mpr fun k hk =>
      @getElem?_packet_password base64 (args.request mac) password h h' k hk
  rw [hexDump_eq, hexDump_eq] at hdump
  cases hdry : args.dryRun with
  | true =>
    have houtcome : outcome = _ := if_pos hdry
    have houtcome' : outcome' = _ := if_pos hdry
    rw [houtcome, houtcome']
    exact ⟨(Res.ok.inj hdump).symm, rfl, rfl, rfl⟩
  | false =>
    have hnot : ¬ args.dryRun = true := by
      rw [hdry]
      decide
    have houtcome : outcome = _ := if_neg hnot
    have houtcome' : outcome' = _ := if_neg hnot
    rw [houtcome, houtcome']
    dsimp only
    cases os.setup args.interface with
    | error e => exact ⟨rfl, rfl, rfl, rfl⟩
    | ok _ =>
      dsimp only
      cases (sendLoop os 3 0 none).2 <;>
        simp only [TvtOutcome.error, List.length_replicate, and_self]

end

/-- A run of the command succeeds exactly when the address and the password are accepted and, but
for `--dry-run`, the socket is set up and one of three calls sends the whole packet. What it sends
is the packet of its arguments, to the group; not with `--dry-run`, and not again once it has been
sent. Nothing that it prints, nor how often it sends, depends on the password, as long as that is
accepted. -/
theorem runTvtSet_spec (base64 : Base64) (os : SendOs) (args : TvtSetArgs) :
    ∃ outcome, runTvtSet base64 os args = .ok outcome ∧
      (outcome.code = 0 ↔ (∃ mac, IsMacText args.mac mac) ∧ (utf8 args.password).length ≤ 21 ∧
        (args.dryRun = true ∨
          (os.setup args.interface = .ok () ∧ ∃ n < 3, os.sendTo n = .sent 140))) ∧
      (∀ call ∈ outcome.sent, args.dryRun = false ∧ call.1 = setIpDest ∧
        ∃ mac, IsMacText args.mac mac ∧ Carries base64 (args.request mac) call.2) ∧
      (outcome.sent.length ≤ 3 ∧
        ∀ n, os.sendTo n = .sent 140 → outcome.sent.length ≤ n + 1) ∧
      ∀ password, (utf8 args.password).length ≤ 21 → (utf8 password).length ≤ 21 →
        ∃ outcome', runTvtSet base64 os { args with password } = .ok outcome' ∧
          outcome'.stdout = outcome.stdout ∧ outcome'.stderr = outcome.stderr ∧
          outcome'.code = outcome.code ∧ outcome'.sent.length = outcome.sent.length := by
  -- Both arguments are accepted, or the command fails before it sends.
  by_cases hmac : ∃ mac, IsMacText args.mac mac
  · obtain ⟨mac, hmac⟩ := hmac
    by_cases hpassword : (utf8 args.password).length ≤ 21
    · refine ⟨_, runTvtSet_eq base64 os hmac hpassword, ?_, ?_, ?_, ?_⟩
      · rw [outcomeOf_code]
        exact ⟨fun h => ⟨⟨mac, hmac⟩, hpassword, h⟩, fun h => h.2.2⟩
      · intro call hcall
        obtain ⟨hdry, rfl⟩ := outcomeOf_sent base64 os args mac call hcall
        exact ⟨hdry, rfl, mac, hmac, carries_packet base64 hpassword⟩
      · exact outcomeOf_length base64 os args mac
      · intro password h h'
        exact ⟨_, @runTvtSet_eq base64 os { args with password } mac hmac h',
          outcomeOf_password base64 os mac h h'⟩
    · refine ⟨_, runTvtSet_of_long base64 os hmac (not_le.mp hpassword), ?_, ?_, ?_, ?_⟩
      · exact iff_of_false Nat.one_ne_zero fun h => hpassword h.2.1
      · exact fun call hcall => absurd hcall List.not_mem_nil
      · exact ⟨Nat.zero_le 3, fun n _ => Nat.zero_le (n + 1)⟩
      · exact fun password h => absurd h hpassword
  · refine ⟨_, runTvtSet_of_not_mac base64 os hmac, ?_, ?_, ?_, ?_⟩
    · exact iff_of_false Nat.one_ne_zero fun h => hmac h.1
    · exact fun call hcall => absurd hcall List.not_mem_nil
    · exact ⟨Nat.zero_le 3, fun n _ => Nat.zero_le (n + 1)⟩
    · intro password _ _
      exact ⟨_, @runTvtSet_of_not_mac base64 os { args with password } hmac,
        rfl, rfl, rfl, rfl⟩

end TvtProvision

end Uscan
