import Uscan.Lib.Split
import Uscan.Net.Addr
import Uscan.TvtProvision

/-!
# The dump of a packet

`hex_dump` of `tvt_provision.rs`: a packet for the terminal, sixteen bytes a line, with the range of
the password filled with zeros. The lines determine the bytes in them, so that two packets have the
same dump exactly if they agree outside that range (`hexDump_eq_iff`). The text of a password has no
byte outside it, and the fields before and after it do not depend on the password
(`getElem?_packet_password`).
-/

namespace Uscan

namespace TvtProvision

/-- `{:02x}`. -/
def lowerHex (b : UInt8) : List Char :=
  [Nat.digitChar (b.toNat / 16), Nat.digitChar (b.toNat % 16)]

/-- `{:04x}`. -/
def offsetText (n : ℕ) : List Char := (Nat.toDigits 16 n).leftpad 4 '0'

/-- Line `i` of a dump. -/
def dumpLine (i : ℕ) (line : List UInt8) : List Char :=
  offsetText (i * 16) ++ ([' ', ' '] ++ ([' '].intercalate (line.map lowerHex) ++ ['\n']))

/-- The lines of a dump, from line `i` on. -/
def dumpLines (i : ℕ) (lines : List (List UInt8)) : List Char :=
  (lines.zipIdx i).flatMap fun line => dumpLine line.2 line.1

/-- `hex_dump`. -/
def hexDump (packet : Packet) : Res Empty (List Char) := do
  let masked ← packet.fill offPassword (offPassword + passwordCapacity) 0
  return dumpLines 0 (chunks 16 masked.elems)

example : dumpLine 1 [0x4d, 0x48, 0x45] = "0010  4d 48 45\n".toList := by decide

/-! ## The text of a dump -/

/-- Two digits determine their byte. -/
theorem lowerHex_injective : Function.Injective lowerHex := by
  intro b c h
  obtain ⟨hhigh, hlow⟩ := List.cons_eq_cons.mp h
  have hb := b.toNat_lt
  have hc := c.toNat_lt
  have hdiv := digitChar_inj (by omega) (by omega) hhigh
  have hmod := digitChar_inj (by omega) (by omega) (List.singleton_inj.mp hlow)
  apply UInt8.toNat_inj.mp
  rw [← Nat.div_add_mod b.toNat 16, ← Nat.div_add_mod c.toNat 16, hdiv, hmod]

/-- A line and what follows it determine the bytes of the line, if their number is known. -/
theorem dumpLine_append_inj {i : ℕ} {x y : List UInt8} {t u : List Char}
    (hlen : x.length = y.length) (h : dumpLine i x ++ t = dumpLine i y ++ u) : x = y ∧ t = u := by
  have hlengths (z : List UInt8) :
      (z.map lowerHex).map List.length = List.replicate z.length 2 := by
    rw [List.map_map]
    exact List.map_eq_replicate_iff.mpr fun b _ => rfl
  simp only [dumpLine, List.append_assoc] at h
  obtain ⟨hbytes, htail⟩ := intercalate_append_inj (by rw [hlengths, hlengths, hlen])
    (List.append_cancel_left (List.append_cancel_left h))
  exact ⟨List.map_injective_iff.mpr lowerHex_injective hbytes, List.append_cancel_left htail⟩

/-- The lines of a dump determine their bytes, if the number of bytes in each line is known. -/
theorem dumpLines_inj {i : ℕ} {xs ys : List (List UInt8)}
    (hlen : xs.map List.length = ys.map List.length) (h : dumpLines i xs = dumpLines i ys) :
    xs = ys := by
  induction xs generalizing i ys with
  | nil => exact (List.map_eq_nil_iff.mp hlen.symm).symm
  | cons x xs ih =>
    obtain ⟨y, ys, rfl, hx, hxs⟩ := List.map_eq_cons_iff.mp hlen.symm
    obtain ⟨rfl, htail⟩ := dumpLine_append_inj hx.symm h
    rw [ih hxs.symm htail]

/-! ## What a dump hides -/

/-- A packet without the text of its password. -/
def masked (p : Packet) : Packet := p.write offPassword (List.replicate passwordCapacity 0)

/-- The range of the password is in the packet. -/
theorem hexDump_eq (p : Packet) : hexDump p = .ok (dumpLines 0 (chunks 16 (masked p).elems)) :=
  rfl

/-- Two packets have the same dump exactly if they agree outside the range of the password. -/
theorem hexDump_eq_iff (p q : Packet) :
    hexDump p = hexDump q ↔ ∀ k, k < 0x54 ∨ 0x70 ≤ k → p.elems[k]? = q.elems[k]? := by
  have hlen : p.elems.length = q.elems.length := p.length_eq.trans q.length_eq.symm
  have hle : offPassword + (List.replicate passwordCapacity (0 : UInt8)).length ≤
      p.elems.length := by
    rw [p.length_eq]
    decide
  have hmasked : (masked p).elems = (masked q).elems ↔
      ∀ k, k < 0x54 ∨ 0x70 ≤ k → p.elems[k]? = q.elems[k]? := overwrite_eq_iff hle hlen
  rw [← hmasked, hexDump_eq, hexDump_eq]
  constructor
  · intro h
    have hlines := dumpLines_inj (map_length_chunks (by decide)
      ((masked p).length_eq.trans (masked q).length_eq.symm)) (Res.ok.inj h)
    rw [← flatten_chunks (n := 16) (by decide) (masked p).elems, hlines,
      flatten_chunks (by decide)]
  · intro h
    rw [h]

/-- The packets of two requests that differ in their passwords agree outside the range of it. -/
theorem getElem?_packet_password (base64 : Base64) {req : SetIpRequest} {password : List Char}
    (h : (utf8 req.password).length ≤ maxPlaintextPassword)
    (h' : (utf8 password).length ≤ maxPlaintextPassword) {k : ℕ} (hk : k < 0x54 ∨ 0x70 ≤ k) :
    (packet base64 req).elems[k]? = (packet base64 { req with password }).elems[k]? := by
  -- The text of either password ends in its range.
  have houtside {s : List Char} (hs : (utf8 s).length ≤ maxPlaintextPassword) :
      k < offPassword ∨ offPassword + (base64.encode (utf8 s)).length ≤ k := by
    have hencoded : (base64.encode (utf8 s)).length ≤ 28 :=
      (length_encode_le_capacity base64).mpr hs
    have hoffset : offPassword = 84 := rfl
    omega
  have hsplit (r : SetIpRequest) : (packet base64 r).elems =
      overwrite (overwrite (writeAll (Buffer.filled packetSize 0).elems (headFields r)) offPassword
        (base64.encode (utf8 r.password))) offDhcp [if r.dhcp then 1 else 0] := by
    rw [packet, Buffer.elems_writeAll, fields, writeAll, List.foldl_append, List.foldl_cons,
      List.foldl_cons, List.foldl_nil, passwordField, dhcpField, writeAll]
  have hhead : headFields { req with password } = headFields req := rfl
  rw [hsplit, hsplit, hhead]
  apply getElem?_overwrite_congr
  rw [getElem?_overwrite (houtside h), getElem?_overwrite (houtside h')]

/-- Requests that differ in their passwords have the same dump, which exists; packets that differ
outside the range of the password have different ones. -/
theorem hexDump_hides (base64 : Base64) :
    (∀ (req : SetIpRequest) (password : List Char),
      (utf8 req.password).length ≤ 21 → (utf8 password).length ≤ 21 →
        ∃ p p' text, buildSetIpRequest base64 req = .ok p ∧
          buildSetIpRequest base64 { req with password } = .ok p' ∧
          hexDump p = .ok text ∧ hexDump p' = .ok text) ∧
    ∀ p q : Packet, (∃ k, (k < 0x54 ∨ 0x70 ≤ k) ∧ p.elems[k]? ≠ q.elems[k]?) →
      hexDump p ≠ hexDump q := by
  constructor
  · intro req password h h'
    have hsame := (hexDump_eq_iff _ _).mpr fun k hk => getElem?_packet_password base64 h h' hk
    exact ⟨_, _, _, buildSetIpRequest_eq_ok h, buildSetIpRequest_eq_ok h', hexDump_eq _,
      hsame.symm.trans (hexDump_eq _)⟩
  · rintro p q ⟨k, hk, hne⟩ hsame
    exact hne ((hexDump_eq_iff p q).mp hsame k hk)

/-- With the standard codec, the dump for the password `admin` is that for no password. -/
theorem hexDump_hides_example :
    ∃ p p' text, buildSetIpRequest .standard exampleRequest = .ok p ∧
      buildSetIpRequest .standard { exampleRequest with password := [] } = .ok p' ∧
      hexDump p = .ok text ∧ hexDump p' = .ok text :=
  (hexDump_hides .standard).1 exampleRequest [] (by decide) (by decide)

end TvtProvision

end Uscan
