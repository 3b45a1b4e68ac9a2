import Uscan.Errors
import Uscan.Lib.Utf8
import Uscan.Net.Addr

/-!
# The DNS parser of the mDNS broker

`parse_dns` of `mdns.rs` and the readers below it, on a received packet. The question section is
skipped, and the answer, authority, and additional sections are read as one list of records; a
record of an unknown type ends the list. A cursor is a natural number; `fitsUsize` stands where the
code adds to one, `index` and `subslice` where it reads without a guard of its own, and
`d.bytes[p]?` where it compares the cursor with the length first.

`followed` lists the compression pointers that `readName` follows, by the same recursion.
-/

namespace Uscan.Mdns

/-- The data of a record, `MdnsData`. -/
inductive MdnsData where
  /-- An IPv4 address. -/
  | a (ip : IpAddr)
  /-- An IPv6 address. -/
  | aaaa (ip : IpAddr)
  /-- A domain name. -/
  | ptr (name : List Char)
  /-- The strings of a text record. -/
  | txt (strings : List (List Char))
  /-- A service. -/
  | srv (priority weight port : UInt16) (target : List Char)
  deriving DecidableEq, Repr

/-- A record, `MdnsAnswer`. -/
structure MdnsAnswer where
  /-- Its type. -/
  rrtype : UInt16
  /-- Its owner name. -/
  name : List Char
  /-- Its data. -/
  data : MdnsData
  deriving DecidableEq, Repr

/-- A parsed message, `DnsParse`. -/
structure DnsParse where
  /-- Its records. -/
  answers : List MdnsAnswer
  deriving DecidableEq, Repr

/-- `rd16`: the 16-bit integer at `pos`, and the position after it. -/
def rd16 (d : Slice) (pos : ℕ) : Res Error (UInt16 × ℕ) := do
  fitsUsize (pos + 2)
  if pos + 2 > d.len then .err (.dns "u16 overflow")
  else
    let b0 ← index d.bytes pos
    let b1 ← index d.bytes (pos + 1)
    return (be16 b0 b1, pos + 2)

/-- `rd32`: the 32-bit integer at `pos`, and the position after it. -/
def rd32 (d : Slice) (pos : ℕ) : Res Error (UInt32 × ℕ) := do
  fitsUsize (pos + 4)
  if pos + 4 > d.len then .err (.dns "u32 overflow")
  else
    let b0 ← index d.bytes pos
    let b1 ← index d.bytes (pos + 1)
    let b2 ← index d.bytes (pos + 2)
    let b3 ← index d.bytes (pos + 3)
    return (be32 b0 b1 b2 b3, pos + 4)

/-- The two high bits that mark a compression pointer. -/
def isPointer (len : UInt8) : Bool := len &&& 0xC0 == 0xC0

/-- The offset that a compression pointer names. -/
def pointerTarget (len lo : UInt8) : ℕ := (len &&& 0x3F).toNat <<< 8 ||| lo.toNat

/-- The error of the sixteenth redirection. -/
def maxRedirects : Error := .dns "max redirects (16) exceeded"

/-- The dot that `read_name` pushes before a label or a pointer, unless the name is empty. -/
def pushDot (name : List Char) : List Char := if name.isEmpty then name else name ++ ['.']

/-- The loop of `read_name`, at `p` with `name` read so far. A pointer ends the loop: the rest of
the name is read at its target, on what is left of the budget. -/
def readNameLoop (d : Slice) (name : List Char) (p budget : ℕ) : Res Error (List Char × ℕ) :=
  if hp : p ≥ d.len then .err (.dns "name overflow")
  else do
    let len ← index d.bytes p
    fitsUsize (p + 1)
    -- The empty label of the root ends the name.
    if len = 0 then return (name, p + 1)
    else if isPointer len then
      match d.bytes[p + 1]? with
      | none => .err (.dns "ptr overflow")
      | some lo =>
        fitsUsize (p + 2)
        if pointerTarget len lo ≥ d.len then .err (.dns "ptr out of bounds")
        else if _hb : budget - 1 = 0 then .err maxRedirects
        else
          let (rest, _) ← readNameLoop d [] (pointerTarget len lo) (budget - 1)
          -- The field ends after the pointer, wherever the rest of the name was read.
          return (pushDot name ++ rest, p + 2)
    -- The sum is a `checked_add`, which does not panic.
    else if p + 1 + len.toNat < 2 ^ 64 ∧ p + 1 + len.toNat ≤ d.len then
      let label ← subslice d.bytes (p + 1) (p + 1 + len.toNat)
      readNameLoop d (pushDot name ++ fromUtf8Lossy label) (p + 1 + len.toNat) budget
    else .err (.dns "label overflow")
termination_by (budget, d.len - p)
decreasing_by
  · apply Prod.Lex.left
    omega
  · apply Prod.Lex.right
    omega

/-- `read_name`: the name at `pos`, and the position after the name field. -/
def readName (d : Slice) (pos budget : ℕ) : Res Error (List Char × ℕ) :=
  readNameLoop d [] pos budget

/-- The targets of the compression pointers that `readNameLoop` follows from `p`, in order. -/
def followed (d : Slice) (p budget : ℕ) : List ℕ :=
  if _hp : p ≥ d.len then []
  else
    match d.bytes[p]? with
    | none => []
    | some len =>
      if len = 0 then []
      else if isPointer len then
        match d.bytes[p + 1]? with
        | none => []
        | some lo =>
          if pointerTarget len lo ≥ d.len then []
          else if hb : budget - 1 = 0 then []
          else pointerTarget len lo :: followed d (pointerTarget len lo) (budget - 1)
      else if p + 1 + len.toNat ≤ d.len then followed d (p + 1 + len.toNat) budget
      else []
termination_by (budget, d.len - p)
decreasing_by
  · apply Prod.Lex.left
    omega
  · apply Prod.Lex.right
    omega

/-- A byte as a character: its Latin-1 reading. -/
def latin1 (b : UInt8) : Char := Char.ofNat b.toNat

/-- The inner loop of `parse_txt`: at most `len` characters of a string, while bytes of the record
and of the packet remain. Returns the string, the bytes of the record that remain, and the
cursor. -/
def txtString (d : Slice) : ℕ → ℕ → ℕ → List Char → Res Error (List Char × ℕ × ℕ)
  | 0, remaining, pos, s => .ok (s, remaining, pos)
  | len + 1, remaining, pos, s =>
    if remaining > 0 then
      match d.bytes[pos]? with
      | none => .ok (s, remaining, pos)
      | some b => do
        fitsUsize (pos + 1)
        txtString d len (remaining - 1) (pos + 1) (s ++ [latin1 b])
    else .ok (s, remaining, pos)

/-- The inner loop of `parse_txt` uses up bytes of the record, and no more than there are. -/
theorem txtString_remaining_le (d : Slice) {s s' : List Char} {remaining' pos' : ℕ} :
    ∀ {len remaining pos : ℕ}, txtString d len remaining pos s = .ok (s', remaining', pos') →
      remaining' ≤ remaining := by
  intro len
  induction len generalizing s with
  | zero =>
    intro remaining pos h
    simp only [txtString, Res.ok.injEq, Prod.mk.injEq] at h
    omega
  | succ len ih =>
    intro remaining pos h
    unfold txtString at h
    split_ifs at h with hr
    · split at h
      · simp only [Res.ok.injEq, Prod.mk.injEq] at h
        omega
      · obtain ⟨_, _, h⟩ := Res.bind_eq_ok.mp h
        have := ih h
        omega
    · simp only [Res.ok.injEq, Prod.mk.injEq] at h
      omega

/-- The outer loop of `parse_txt`: a string for each length byte, while more than one byte of the
record remains. -/
def parseTxtLoop (d : Slice) (remaining pos : ℕ) (out : List (List Char)) :
    Res Error (List (List Char) × ℕ) :=
  if _hr : remaining > 1 then do
    fitsUsize (pos + 1)
    if pos + 1 < d.len then
      let len ← index d.bytes pos
      match _hs : txtString d len.toNat (remaining - 1) (pos + 1) [] with
      | .ok (s, remaining', pos') => parseTxtLoop d remaining' pos' (out ++ [s])
      | .err e => .err e
      | .panicked => .panicked
    else return (out, pos)
  else .ok (out, pos)
termination_by remaining
decreasing_by
  have := txtString_remaining_le d _hs
  omega

/-- One round of the outer loop: a string, and then the strings left. -/
theorem parseTxtLoop_eq (d : Slice) (remaining pos : ℕ) (out : List (List Char)) :
    parseTxtLoop d remaining pos out =
      if remaining > 1 then do
        fitsUsize (pos + 1)
        if pos + 1 < d.len then
          let len ← index d.bytes pos
          let r ← txtString d len.toNat (remaining - 1) (pos + 1) []
          parseTxtLoop d r.2.1 r.2.2 (out ++ [r.1])
        else return (out, pos)
      else .ok (out, pos) := by
  rw [parseTxtLoop]
  split_ifs with hrem hpos
  · congr 1
    funext _
    congr 1
    funext len
    split <;>
      · rename_i h
        rw [h]
        rfl
  · rfl
  · rfl

/-- `parse_txt`: the strings of a text record, and the cursor after them. -/
def parseTxt (d : Slice) (pos rdlen : ℕ) : Res Error (List (List Char) × ℕ) :=
  parseTxtLoop d rdlen pos []

/-- `parse_srv`. A record that is too short is a zero service, and a target that cannot be read is
empty. -/
def parseSrv (d : Slice) (pos rdlen : ℕ) : Res Error MdnsData :=
  if rdlen < 6 then .ok (.srv 0 0 0 [])
  else do
    fitsUsize (pos + 6)
    let b0 ← index d.bytes pos
    let b1 ← index d.bytes (pos + 1)
    let b2 ← index d.bytes (pos + 2)
    let b3 ← index d.bytes (pos + 3)
    let b4 ← index d.bytes (pos + 4)
    let b5 ← index d.bytes (pos + 5)
    -- The error of the name is dropped by `unwrap_or_default`.
    let target ←
      match readName d (pos + 6) 16 with
      | .ok (n, _) => .ok n
      | .err _ => .ok []
      | .panicked => .panicked
    return .srv (be16 b0 b1) (be16 b2 b3) (be16 b4 b5) target

/-- `ipv4_from`. -/
def ipv4From (d : Slice) (pos : ℕ) : Res Error Ipv4Addr := do
  let b0 ← index d.bytes pos
  let b1 ← index d.bytes (pos + 1)
  let b2 ← index d.bytes (pos + 2)
  let b3 ← index d.bytes (pos + 3)
  return ⟨b0, b1, b2, b3⟩

/-- The match of `parse_dns` on the type of a record, whose data are the `rdlen` bytes at `pos`:
`none` for an unknown type. An address of a wrong length reads as the unspecified address. -/
def readRdata (d : Slice) (rrtype : UInt16) (pos rdlen : ℕ) : Res Error (Option MdnsData) :=
  if rrtype = 1 then do
    let ip ← if rdlen ≠ 4 then .ok .unspecified else ipv4From d pos
    return some (.a (.v4 ip))
  else if rrtype = 28 then do
    let ip ←
      if rdlen ≠ 16 then .ok .unspecified
      else do
        let b ← subslice d.bytes pos (pos + 16)
        Ipv6Addr.ofSlice b
    return some (.aaaa (.v6 ip))
  else if rrtype = 12 then do
    let (n, _) ← readName d pos 16
    return some (.ptr n)
  else if rrtype = 16 then do
    let (strings, _) ← parseTxt d pos rdlen
    return some (.txt strings)
  else if rrtype = 33 then do
    let srv ← parseSrv d pos rdlen
    return some srv
  else .ok none

/-- The question loop of `parse_dns`: the position after the questions left. -/
def skipQuestions (d : Slice) : ℕ → ℕ → Res Error ℕ
  | 0, pos => .ok pos
  | q + 1, pos =>
    if pos ≥ d.len then .err (.dns "question overflow")
    else do
      let (_, pos) ← readName d pos 16
      let (_, pos) ← rd16 d pos
      let (_, pos) ← rd16 d pos
      skipQuestions d q pos

/-- The fields of a record before its data: the owner name, the type, the length of the data, and
their position. -/
def readRecordHead (d : Slice) (pos : ℕ) : Res Error (List Char × UInt16 × ℕ × ℕ) := do
  let (name, pos) ← readName d pos 16
  let (rrtype, pos) ← rd16 d pos
  let (_, pos) ← rd16 d pos
  let (_, pos) ← rd32 d pos
  let (rdlen, pos) ← rd16 d pos
  fitsUsize (pos + rdlen.toNat)
  if pos + rdlen.toNat > d.len then .err (.dns "rdata out of bounds")
  else return (name, rrtype, rdlen.toNat, pos)

/-- The record loop of `parse_dns`. It ends early at the end of the packet, and at a record of an
unknown type. -/
def parseRecords (d : Slice) : ℕ → ℕ → List MdnsAnswer → Res Error (List MdnsAnswer)
  | 0, _, answers => .ok answers
  | n + 1, pos, answers =>
    if pos ≥ d.len then .ok answers
    else do
      let (name, rrtype, rdlen, pos) ← readRecordHead d pos
      let rdata ← readRdata d rrtype pos rdlen
      match rdata with
      -- The records before the one of an unknown type are returned, without an error.
      | none => return answers
      | some rdata => parseRecords d n (pos + rdlen) (answers ++ [⟨rrtype, name, rdata⟩])

/-- `parse_dns`. The record counts are added as `usize`. -/
def parseDns (d : Slice) : Res Error DnsParse :=
  if d.len ≤ 12 then .err (.dns "packet too short")
  else do
    let (qd, h) ← rd16 d 4
    let (an, h) ← rd16 d h
    let (ns, h) ← rd16 d h
    let (ar, _) ← rd16 d h
    let pos ← skipQuestions d qd.toNat 12
    -- The three sections are read as one.
    fitsUsize (an.toNat + ns.toNat + ar.toNat)
    let answers ← parseRecords d (an.toNat + ns.toNat + ar.toNat) pos []
    return ⟨answers⟩

end Uscan.Mdns
