import Uscan.Lib.Lines
import Uscan.Oui.File
import Uscan.Ports.Runs

/-!
# The ports that the kernel lists

`ports.rs`: a new provider takes the ports of all UDP sockets of the computer for ports in use. The
kernel lists the sockets in two text files, for IPv4 and for IPv6: after a header, a line for each
socket, whose second field is the local address with the port in hexadecimal digits.
`parse_proc_net_udp` reads these ports back (`parseProcNetUdp_table`).
-/

namespace Uscan

/-! ## The parser -/

/-- `str::split_whitespace`. -/
def splitWhitespace (s : List Char) : List (List Char) :=
  (s.splitOnP isWhitespace).filter (· ≠ [])

/-- `u16::from_str_radix(s, 16).ok()`. -/
def u16FromHex (s : List Char) : Option UInt16 := (fromHex 65536 s).map UInt16.ofNat

/-- The closure of `parse_proc_net_udp`: the port of a line, unless it is zero. -/
def procPort (line : List Char) : Option UInt16 := do
  let address ← (splitWhitespace line)[1]?
  -- `rsplit(':').next()`: what follows the last colon, or all of it.
  let port ← u16FromHex (address.rtakeWhile (· ≠ ':'))
  if port ≠ 0 then some port else none

/-- `parse_proc_net_udp`. -/
def parseProcNetUdp (text : List Char) : List UInt16 := ((strLines text).drop 1).filterMap procPort

/-- `PortProvider::new`: the two files, as far as they can be read, the time and the number of the
process. -/
def PortProvider.new (udp udp6 : Option (List Char)) (nanos : UInt64) (pid : UInt32) :
    PortProvider where
  used := ((udp.toList ++ udp6.toList).flatMap parseProcNetUdp).toFinset
  state := nanos ^^^ (pid.toUInt64 <<< 32)

/-! ## The files of the kernel -/

/-- `%04X`. -/
def hexPort (port : UInt16) : List Char :=
  [port.toNat / 4096, port.toNat / 256 % 16, port.toNat / 16 % 16, port.toNat % 16].map fun d =>
    (Nat.digitChar d).toUpper

/-- A line of a socket: its number, its local address and port, and what follows. -/
inductive SocketLine : List Char → UInt16 → Prop where
  | mk {pad slot gap addr rest : List Char} {port : UInt16}
    (hpad : ∀ c ∈ pad, isWhitespace c = true)
    (hslot : slot ≠ [] ∧ ∀ c ∈ slot, isWhitespace c = false)
    (hgap : gap ≠ [] ∧ ∀ c ∈ gap, isWhitespace c = true)
    (haddr : ∀ c ∈ addr, isWhitespace c = false)
    (hrest : ∀ c ∈ rest.head?, isWhitespace c = true) :
    SocketLine (pad ++ (slot ++ (gap ++ (addr ++ ':' :: hexPort port ++ rest)))) port

/-- A file of the kernel, with the ports of its sockets in order. -/
structure ProcTable (text : List Char) (ports : List UInt16) : Prop where
  /-- A header and a line for each socket. -/
  exists_lines : ∃ header lines, TextOf (header :: lines) text ∧
    (∀ line ∈ header :: lines, '\n' ∉ line ∧ line.getLast? ≠ some '\r') ∧
    List.Forall₂ SocketLine lines ports

/-! ## Fields -/

/-- White space before a text separates nothing. -/
theorem splitWhitespace_append_left {ws : List Char} (hws : ∀ c ∈ ws, isWhitespace c = true)
    (s : List Char) : splitWhitespace (ws ++ s) = splitWhitespace s := by
  induction ws with
  | nil => rfl
  | cons c ws ih =>
    obtain ⟨hc, hws⟩ := List.forall_mem_cons.mp hws
    have hnil : ∀ x ∈ ([] : List Char), isWhitespace x = false :=
      fun x hx => absurd hx List.not_mem_nil
    have hsplit := List.splitOnP_append_cons_of_forall_mem hnil c hc (ws ++ s)
    rw [← ih hws, splitWhitespace, List.cons_append, ← List.nil_append (c :: (ws ++ s)), hsplit,
      List.filter_cons_of_neg (by simp), splitWhitespace]

/-- A word before white space, or at the end of a text. -/
theorem splitWhitespace_word {word : List Char} (hne : word ≠ [])
    (hword : ∀ c ∈ word, isWhitespace c = false) {rest : List Char}
    (hrest : ∀ c ∈ rest.head?, isWhitespace c = true) :
    splitWhitespace (word ++ rest) = word :: splitWhitespace rest := by
  cases rest with
  | nil =>
    rw [List.append_nil, splitWhitespace, List.splitOnP_eq_singleton hword,
      List.filter_cons_of_pos (by simpa using hne)]
    rfl
  | cons c rest =>
    have hc := hrest c rfl
    have hcs : splitWhitespace (c :: rest) = splitWhitespace rest :=
      @splitWhitespace_append_left [c] (fun x hx => List.mem_singleton.mp hx ▸ hc) rest
    rw [splitWhitespace, List.splitOnP_append_cons_of_forall_mem hword c hc,
      List.filter_cons_of_pos (by simpa using hne), hcs]
    rfl

/-! ## Ports -/

/-- A digit of a port. -/
theorem toDigit_upper {d : ℕ} (h : d < 16) :
    AddrParser.toDigit 16 (Nat.digitChar d).toUpper = some d := by
  have hall : ∀ d : Fin 16, AddrParser.toDigit 16 (Nat.digitChar d).toUpper = some d.val := by
    decide
  exact hall ⟨d, h⟩

/-- A digit of a port is no separator. -/
theorem upper_ne {d : ℕ} (h : d < 16) :
    isWhitespace (Nat.digitChar d).toUpper = false ∧ (Nat.digitChar d).toUpper ≠ ':' ∧
      (Nat.digitChar d).toUpper ≠ '+' := by
  have hall : ∀ d : Fin 16, isWhitespace (Nat.digitChar d).toUpper = false ∧
      (Nat.digitChar d).toUpper ≠ ':' ∧ (Nat.digitChar d).toUpper ≠ '+' := by
    decide
  exact hall ⟨d, h⟩

/-- The digits of a port are no separators. -/
theorem of_mem_hexPort {port : UInt16} {c : Char} (h : c ∈ hexPort port) :
    isWhitespace c = false ∧ c ≠ ':' := by
  have hport := port.toNat_lt
  obtain ⟨d, hd, rfl⟩ := List.mem_map.mp h
  have hlt : d < 16 := by
    simp only [List.mem_cons, List.not_mem_nil, or_false] at hd
    omega
  exact ⟨(upper_ne hlt).1, (upper_ne hlt).2.1⟩

/-- The digits of a port are read as the port. -/
theorem u16FromHex_hexPort (port : UInt16) : u16FromHex (hexPort port) = some port := by
  have hport := port.toNat_lt
  have hunsigned : unsigned (hexPort port) = hexPort port := by
    have hsign := (upper_ne (d := port.toNat / 4096) (by omega)).2.2
    rw [hexPort, List.map_cons, unsigned]
    rintro c s heq
    exact hsign (List.cons.inj heq).1
  have hne : hexPort port ≠ [] := List.cons_ne_nil _ _
  have hpush {n d : ℕ} (hd : d < 16) (h : 16 * n + d < 65536) :
      pushHex 65536 n (Nat.digitChar d).toUpper = some (16 * n + d) :=
    pushHex_of_lt (toDigit_upper hd) h
  rw [u16FromHex, fromHex, if_neg hne, hunsigned, hexPort]
  simp only [List.map_cons, List.map_nil, List.foldlM_cons, List.foldlM_nil]
  -- Digit by digit, the number is the part of the port that has been read.
  rw [hpush (by omega) (by omega), Option.bind_eq_bind, Option.bind_some,
    hpush (by omega) (by omega), Option.bind_some,
    hpush (by omega) (by omega), Option.bind_some,
    hpush (by omega) (by omega), Option.bind_some]
  have hsum : 16 * (16 * (16 * (16 * 0 + port.toNat / 4096) + port.toNat / 256 % 16) +
      port.toNat / 16 % 16) + port.toNat % 16 = port.toNat := by
    omega
  rw [hsum]
  exact congrArg some UInt16.ofNat_toNat

/-- The port of a line. -/
theorem procPort_line {line : List Char} {port : UInt16} (h : SocketLine line port) :
    procPort line = if port ≠ 0 then some port else none := by
  obtain ⟨hpad, ⟨hslotNe, hslot⟩, ⟨hgapNe, hgap⟩, haddr, hrest⟩ := h
  rename_i pad slot gap addr rest
  have hword : ∀ c ∈ addr ++ ':' :: hexPort port, isWhitespace c = false := by
    intro c hc
    rcases List.mem_append.mp hc with hc | hc
    · exact haddr c hc
    · rcases List.mem_cons.mp hc with rfl | hc
      · decide
      · exact (of_mem_hexPort hc).1
  have hgapHead : ∀ c ∈ (gap ++ (addr ++ ':' :: hexPort port ++ rest)).head?,
      isWhitespace c = true := by
    cases gap with
    | nil => exact absurd rfl hgapNe
    | cons g gap =>
      intro c hc
      cases hc
      exact hgap g List.mem_cons_self
  have hfields : splitWhitespace (pad ++ (slot ++ (gap ++ (addr ++ ':' :: hexPort port ++ rest)))) =
      slot :: (addr ++ ':' :: hexPort port) :: splitWhitespace rest := by
    rw [splitWhitespace_append_left hpad, splitWhitespace_word hslotNe hslot hgapHead,
      splitWhitespace_append_left hgap,
      splitWhitespace_word (List.append_ne_nil_of_right_ne_nil _ (List.cons_ne_nil _ _)) hword
        hrest]
  -- The address may hold colons too, and the port is behind the last one.
  have hlast : (addr ++ ':' :: hexPort port).rtakeWhile (· ≠ ':') = hexPort port :=
    rtakeWhile_append_cons addr (fun c hc => decide_eq_true (of_mem_hexPort hc).2) (by decide)
  rw [procPort, hfields]
  show (u16FromHex ((addr ++ ':' :: hexPort port).rtakeWhile (· ≠ ':'))).bind _ = _
  rw [hlast, u16FromHex_hexPort]
  rfl

/-- A file of the kernel is read as the ports of its sockets, but for a port that is zero. -/
theorem parseProcNetUdp_table {text : List Char} {ports : List UInt16} (h : ProcTable text ports) :
    parseProcNetUdp text = ports.filter (· ≠ 0) := by
  obtain ⟨header, lines, htext, hends, hlines⟩ := h
  rw [parseProcNetUdp, strLines_textOf htext hends, List.drop_one, List.tail_cons]
  clear htext hends
  induction hlines with
  | nil => rfl
  | @cons line port lines ports hline _ ih =>
    rw [List.filterMap_cons, procPort_line hline, ih]
    by_cases hport : port = 0
    · rw [if_neg (not_not.mpr hport), List.filter_cons_of_neg (by simpa using hport)]
    · rw [if_pos hport, List.filter_cons_of_pos (by simpa using hport)]

/-- The ports of the sockets that the kernel lists are in use from the start. -/
theorem PortProvider.mem_used_new {udp udp6 : Option (List Char)} {text : List Char}
    (htext : udp = some text ∨ udp6 = some text) {ports : List UInt16}
    (htable : ProcTable text ports) {port : UInt16} (hport : port ∈ ports) (hne : port ≠ 0)
    (nanos : UInt64) (pid : UInt32) :
    port ∈ (PortProvider.new udp udp6 nanos pid).used := by
  rw [PortProvider.new, List.mem_toFinset, List.mem_flatMap]
  refine ⟨text, ?_, ?_⟩
  · rcases htext with rfl | rfl
    · exact List.mem_append_left _ (List.mem_singleton_self _)
    · exact List.mem_append_right _ (List.mem_singleton_self _)
  · rw [parseProcNetUdp_table htable]
    exact List.mem_filter.mpr ⟨hport, by simpa using hne⟩

end Uscan
