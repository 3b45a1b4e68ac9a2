import Uscan.Devices
import Uscan.Lib.Bytes
import Uscan.Lib.Regex
import Uscan.Lib.Str
import Mathlib.Data.List.DropRight

/-!
# 360Vision

`vision360.rs`: the parser of an answer, which is a text of `KEY=VALUE` pairs. `keyValuePairs` scans
it byte by byte; the comment of the source gives the regular expression that it stands for, which is
`keyValueRe` here.

The scanner and the expression agree up to one point: after a key and its equals sign at the very
end of the text, the scanner reads the byte after the end and panics, where the expression matches
an empty value. `keyValueLoop_eq` says both, by induction on what is left of the text, and
`keyValuePairs_eq_ok_iff` reads off when the scanner and the parser return.
-/

namespace Uscan.Vision360

/-- `REQUEST`: the probe. -/
def request : List Char := "DISCOVER\n".toList

/-- The first byte of a key. -/
def isKeyStart (b : UInt8) : Bool := isAsciiAlphabetic b || b == ascii '_'

/-- The other bytes of a key. -/
def isKeyByte (b : UInt8) : Bool := isAsciiAlphanumeric b || b == ascii '_'

/-- `skip_non_space`. -/
def skipNonSpace (b : List UInt8) (start : ℕ) : ℕ := skipWhile (fun c => !(c == ascii ' ')) b start

/-- The end of the value at `i`, where the byte `q` stands: after the matching quote, if `q` is a
quote that has one, or else at the next space. -/
def valueEnd (b : List UInt8) (i : ℕ) (q : UInt8) : ℕ :=
  if q == ascii '\'' || q == ascii '"' then
    match (b.drop (i + 1)).findIdx? (· == q) with
    | some rel => i + 1 + rel + 1
    | none => skipNonSpace b i
  else skipNonSpace b i

/-- `strip_paired_quotes`. -/
def stripPairedQuotes (value : List Char) : Res Empty (List Char) :=
  let b := utf8 value
  if b.length ≥ 2 ∧ (b.head? = some (ascii '\'') ∧ b.getLast? = some (ascii '\'') ∨
      b.head? = some (ascii '"') ∧ b.getLast? = some (ascii '"'))
  then strSlice value 1 (b.length - 1)
  else .ok value

/-- A pair is added to the pairs found so far, unless they have its key. -/
def addPair (out : List (List Char × List Char)) (kv : List Char × List Char) :
    List (List Char × List Char) :=
  if out.any (·.1 == kv.1) then out else out ++ [kv]

/-- The first byte of a key is a byte of a key. -/
theorem isKeyByte_of_isKeyStart {b : UInt8} (h : isKeyStart b = true) : isKeyByte b = true := by
  rcases Bool.or_eq_true_iff.mp h with h | h <;> simp [isKeyByte, isAsciiAlphanumeric, h]

/-- The loop over a key moves on from its first byte. -/
theorem lt_skipWhile_of_isKeyStart {b : List UInt8} {i : ℕ} (h : i < b.length)
    (hs : isKeyStart b[i] = true) : i < skipWhile isKeyByte b i :=
  lt_skipWhile h (isKeyByte_of_isKeyStart hs)

/-- A value does not end before it starts. -/
theorem le_valueEnd (b : List UInt8) (i : ℕ) (q : UInt8) : i ≤ valueEnd b i q := by
  unfold valueEnd
  split_ifs
  · split
    · omega
    · exact le_skipWhile _ _ _
  · exact le_skipWhile _ _ _

/-- The loop of `key_value_pairs`, at the byte `i` of the text with the pairs `out` found so far.
The byte after an equals sign is read without a check. -/
def keyValueLoop (text : List Char) (i : ℕ) (out : List (List Char × List Char)) :
    Res Empty (List (List Char × List Char)) :=
  if h : i < (utf8 text).length then
    if hs : isKeyStart (utf8 text)[i] then do
      let key ← strSlice text i (skipWhile isKeyByte (utf8 text) i)
      -- A word without an equals sign is no key, and is passed over whole.
      if (utf8 text)[skipWhile isKeyByte (utf8 text) i]? ≠ some (ascii '=') then
        keyValueLoop text (skipWhile isKeyByte (utf8 text) i) out
      else
        let q ← index (utf8 text) (skipWhile isKeyByte (utf8 text) i + 1)
        let next := valueEnd (utf8 text) (skipWhile isKeyByte (utf8 text) i + 1) q
        let value ← strSlice text (skipWhile isKeyByte (utf8 text) i + 1) next
        let value ← stripPairedQuotes value
        keyValueLoop text next (addPair out (key, value))
    else keyValueLoop text (i + 1) out
  else .ok out
termination_by (utf8 text).length - i
decreasing_by
  · have := lt_skipWhile_of_isKeyStart h hs
    omega
  · have := lt_skipWhile_of_isKeyStart h hs
    have := le_valueEnd (utf8 text) (skipWhile isKeyByte (utf8 text) i + 1) q
    omega
  · omega

/-- `key_value_pairs`: the pairs of a text, the first one of each key. -/
def keyValuePairs (text : List Char) : Res Empty (List (List Char × List Char)) :=
  keyValueLoop text 0 []

/-- The text that `parse` scans: what stands before the first newline, less its last character,
unless the newline comes first or there is none. -/
def trimmed (text : List Char) : Res Empty (List Char) :=
  match strFind ['\n'] text with
  | some p => if p > 0 then strSlice text 0 (floorBoundary text (p - 1)) else .ok text
  | none => .ok text

/-- The value of a key among pairs, or the word that stands for none. -/
def getOr (pairs : List (List Char × List Char)) (k : List Char) : List Char :=
  ((pairs.find? (·.1 == k)).map (·.2)).getD "Unknown".toList

/-- `Vision360::parse`. -/
def parse (src : SocketAddr) (data : List UInt8) : Res Empty (List Device) :=
  let text := fromUtf8Lossy data
  if text = request then .ok []
  else do
    let text ← trimmed text
    let pairs ← keyValuePairs text
    return [{
      protocol := "360Vision".toList
      version := 1
      ip := src.ip
      mac := []
      deviceType := getOr pairs "TYPE".toList
      serial := getOr pairs "KEY".toList }]

/-- A request that comes back is left out, by comparison. -/
theorem parse_request (src : SocketAddr) : parse src (utf8 request) = .ok [] := by
  rw [parse, fromUtf8Lossy_utf8]
  exact if_pos rfl

/-! ## The regular expression -/

/-- `[a-zA-Z_]`. -/
def keyStart : Char → Bool := asciiClass isKeyStart

/-- `[a-zA-Z0-9_]`. -/
def keyChar : Char → Bool := asciiClass isKeyByte

/-- A text in quotes `c`. -/
def quotedRe (c : Char) : Re Char := .seq (.lit [c]) (.seq (.many fun x => !(x == c)) (.lit [c]))

/-- `'[^']*'|"[^"]*"|[^ ]*`. -/
def valueRe : Re Char :=
  .alt (quotedRe '\'') (.alt (quotedRe '"') (.many fun x => !(x == ' ')))

/-- `([a-zA-Z_][a-zA-Z0-9_]*)=('[^']*'|"[^"]*"|[^ ]*)`. -/
def keyValueRe : Re Char :=
  .seq (.group (.seq (.sym keyStart) (.many keyChar))) (.seq (.lit ['=']) (.group valueRe))

/-- A value without the quotes that enclose it. -/
def stripQuotes (value : List Char) : List Char :=
  match value with
  | [] => []
  | c :: t => if (c = '\'' ∨ c = '"') ∧ t.getLast? = some c then t.dropLast else value

/-- The pair that a match captures, without the quotes of the value. -/
def hitPair (h : Hit Char) : List Char × List Char :=
  (h.groups.getD 0 [], stripQuotes (h.groups.getD 1 []))

/-- The match is a key and its equals sign, at the very end of the text. -/
def endsInEquals (h : Hit Char) : Bool := h.groups.getD 1 [] == [] && h.rest == []

/-- The pairs of a text according to the regular expression: those of all matches, the first one of
each key. -/
def matchPairs (text : List Char) : List (List Char × List Char) :=
  ((keyValueRe.findAll text).map hitPair).eraseDupsBy fun kv kv' => kv.1 == kv'.1

/-- The value at the front of a text, and what follows it. -/
def splitValue (x : List Char) : List Char × List Char :=
  match x with
  | [] => ([], [])
  | c :: t =>
    if (c = '\'' ∨ c = '"') ∧ c ∈ t then
      (c :: t.takeWhile (fun x => !(x == c)) ++ [c], (t.dropWhile fun x => !(x == c)).tail)
    else (x.takeWhile fun x => !(x == ' '), x.dropWhile fun x => !(x == ' '))

/-- An element of a list stands right after the elements before it that differ. -/
theorem dropWhile_ne_of_mem {c : Char} {t : List Char} (h : c ∈ t) :
    ∃ r, (t.dropWhile fun x => !(x == c)) = c :: r := by
  induction t with
  | nil => simp at h
  | cons a t ih =>
    by_cases hac : a = c
    · subst hac
      exact ⟨t, by simp⟩
    · rw [List.dropWhile_cons_of_pos (by simp [hac])]
      exact ih ((List.mem_cons.mp h).resolve_left fun hca => hac hca.symm)

/-- A list without an element has nothing after the elements that differ from it. -/
theorem dropWhile_ne_of_notMem {c : Char} {t : List Char} (h : c ∉ t) :
    (t.dropWhile fun x => !(x == c)) = [] := by
  rw [List.dropWhile_eq_nil_iff]
  intro a ha
  have : a ≠ c := by
    rintro rfl
    exact h ha
  simpa using this

/-- The value and what follows it are the text. -/
theorem splitValue_append (x : List Char) : (splitValue x).1 ++ (splitValue x).2 = x := by
  cases x with
  | nil => rfl
  | cons c t =>
    rw [splitValue]
    split_ifs with h
    · obtain ⟨r, hr⟩ := dropWhile_ne_of_mem h.2
      have ht := List.takeWhile_append_dropWhile (p := fun x => !(x == c)) (l := t)
      rw [hr] at ht
      rw [hr, List.tail_cons]
      simp only [List.cons_append, List.append_assoc, List.nil_append, ht]
    · exact List.takeWhile_append_dropWhile

/-- A quote does not match at any other character. -/
theorem lit_stops (c a : Char) (s : List Char) (ha : (!(a == c)) = true) :
    (Re.lit [c]).run (a :: s) = [] :=
  Re.run_lit_cons_neg (by simpa using ha) s

/-- A text in quotes matches a quote, what stands before the next one, and that one. -/
theorem first_quotedRe_pos {c : Char} {t : List Char} (h : c ∈ t) :
    (quotedRe c).first (c :: t) =
      some ⟨c :: t.takeWhile (fun x => !(x == c)) ++ [c], [],
        (t.dropWhile fun x => !(x == c)).tail⟩ := by
  obtain ⟨r, hr⟩ := dropWhile_ne_of_mem h
  rw [Re.first, quotedRe, Re.run_seq_lit_cons, Re.run_seq_many (lit_stops c), hr, Re.run_lit_cons]
  rfl

/-- A text in quotes does not match where there is no quote, or no second one. -/
theorem first_quotedRe_neg {c : Char} {x : List Char} (h : ∀ t, x = c :: t → c ∉ t) :
    (quotedRe c).first x = none := by
  cases x with
  | nil => rfl
  | cons a t =>
    by_cases hac : a = c
    · subst hac
      rw [Re.first, quotedRe, Re.run_seq_lit_cons, Re.run_seq_many (lit_stops a),
        dropWhile_ne_of_notMem (h t rfl)]
      rfl
    · rw [Re.first, quotedRe, Re.run_seq_lit_cons_neg hac]
      rfl

/-- The value expression always matches, namely the value at the front. -/
theorem first_valueRe (x : List Char) :
    valueRe.first x = some ⟨(splitValue x).1, [], (splitValue x).2⟩ := by
  rw [valueRe, Re.first_alt, Re.first_alt, Re.first_many]
  cases x with
  | nil =>
    rw [first_quotedRe_neg (by simp), first_quotedRe_neg (by simp)]
    rfl
  | cons c t =>
    rw [splitValue]
    by_cases h : (c = '\'' ∨ c = '"') ∧ c ∈ t
    · rw [if_pos h]
      obtain ⟨rfl | rfl, hmem⟩ := h
      · rw [first_quotedRe_pos hmem]
        rfl
      · rw [first_quotedRe_neg (by simp), first_quotedRe_pos hmem]
        rfl
    · rw [if_neg h, first_quotedRe_neg, first_quotedRe_neg]
      · rfl
      · rintro t' ⟨rfl, rfl⟩ hmem
        exact h ⟨.inr rfl, hmem⟩
      · rintro t' ⟨rfl, rfl⟩ hmem
        exact h ⟨.inl rfl, hmem⟩

/-- No key character is an equals sign. -/
theorem keyChar_equals : keyChar '=' = false := by decide

/-- The rest of the expression does not match where there is no equals sign. -/
theorem run_equals_neg {a : Char} {s : List Char} (h : a ≠ '=') :
    (Re.seq (Re.lit ['=']) (Re.group valueRe)).run (a :: s) = [] :=
  Re.run_seq_lit_cons_neg h _ s

/-- Where a key starts, the expression matches as its rest does after the whole key. -/
theorem first_keyValueRe {c : Char} {v : List Char} (hc : keyStart c = true) :
    keyValueRe.first (c :: v) =
      ((Re.seq (Re.lit ['=']) (Re.group valueRe)).first (v.dropWhile keyChar)).map
        (Hit.andThen ⟨c :: v.takeWhile keyChar, [c :: v.takeWhile keyChar],
          v.dropWhile keyChar⟩) := by
  -- A shorter key would have a key character after it, not an equals sign.
  have hgreedy := ((Re.greedy_many keyChar v).seq_sym hc).group
  have hrest (a : Char) (s : List Char) (ha : keyChar a = true) :
      (Re.seq (Re.lit ['=']) (Re.group valueRe)).run (a :: s) = [] := by
    apply run_equals_neg
    rintro rfl
    rw [keyChar_equals] at ha
    cases ha
  rw [Re.first, keyValueRe, hgreedy.run_seq hrest, List.head?_map]
  rfl

/-- Where no key starts, the expression does not match. -/
theorem first_keyValueRe_neg {c : Char} {v : List Char} (hc : keyStart c = false) :
    keyValueRe.first (c :: v) = none := by
  rw [Re.first, keyValueRe, Re.run, Re.run, Re.run_seq_sym_neg hc]
  rfl

/-- A key with an equals sign after it matches, with the value after that. -/
theorem first_keyValueRe_equals {c : Char} {v x : List Char} (hc : keyStart c = true)
    (hv : v.dropWhile keyChar = '=' :: x) :
    keyValueRe.first (c :: v) =
      some ⟨(c :: v.takeWhile keyChar) ++ '=' :: (splitValue x).1,
        [c :: v.takeWhile keyChar, (splitValue x).1], (splitValue x).2⟩ := by
  have hvalue : (Re.seq (Re.lit ['=']) (Re.group valueRe)).first ('=' :: x) =
      some ⟨'=' :: (splitValue x).1, [(splitValue x).1], (splitValue x).2⟩ := by
    rw [Re.first, Re.run_seq_lit_cons, List.head?_map, ← Re.first, Re.first_group, first_valueRe]
    rfl
  rw [first_keyValueRe hc, hv, hvalue]
  rfl

/-- A key without an equals sign after it does not match. -/
theorem first_keyValueRe_no_equals {c : Char} {v : List Char} (hc : keyStart c = true)
    (hv : (v.dropWhile keyChar).head? ≠ some '=') : keyValueRe.first (c :: v) = none := by
  rw [first_keyValueRe hc]
  cases hw : v.dropWhile keyChar with
  | nil => rfl
  | cons a w =>
    have ha : a ≠ '=' := by
      rintro rfl
      exact hv (by rw [hw]; rfl)
    rw [Re.first, run_equals_neg ha]
    rfl

/-! ## The scanner -/

/-- Keys have ASCII bytes only. -/
theorem asciiOnly_isKeyStart : AsciiOnly isKeyStart := asciiOnly_of_forall (by decide +kernel)

/-- Keys have ASCII bytes only. -/
theorem asciiOnly_isKeyByte : AsciiOnly isKeyByte := asciiOnly_of_forall (by decide +kernel)

/-- The first character of a key is a character of a key. -/
theorem keyChar_of_keyStart {c : Char} (h : keyStart c = true) : keyChar c = true := by
  simp only [keyStart, keyChar, asciiClass, Bool.and_eq_true] at h ⊢
  exact ⟨h.1, isKeyByte_of_isKeyStart h.2⟩

/-- `strip_paired_quotes` returns the value without its quotes. -/
theorem stripPairedQuotes_eq (value : List Char) :
    stripPairedQuotes value = .ok (stripQuotes value) := by
  unfold stripPairedQuotes
  simp only [head?_utf8 (show '\''.toNat < 128 by decide),
    head?_utf8 (show '"'.toNat < 128 by decide), getLast?_utf8 (show '\''.toNat < 128 by decide),
    getLast?_utf8 (show '"'.toNat < 128 by decide)]
  cases value with
  | nil => rfl
  | cons c t =>
    rw [stripQuotes]
    by_cases h : (c = '\'' ∨ c = '"') ∧ t.getLast? = some c
    · -- A quote at either end: two bytes, with a slice in between.
      obtain ⟨hc, hlast⟩ := h
      have hascii : c.toNat < 128 := by rcases hc with rfl | rfl <;> decide
      obtain ⟨m, rfl⟩ := List.getLast?_eq_some_iff.mp hlast
      have hone := byteLen_ascii hascii
      have hlen : (utf8 (c :: (m ++ [c]))).length = byteLen m + 2 := by
        have hsum : byteLen (c :: (m ++ [c])) = byteLen [c] + (byteLen m + byteLen [c]) := by
          rw [byteLen_cons, byteLen_append]
        rw [← byteLen, hsum, hone]
        omega
      have hslice := strSlice_append (ε := Empty) [c] m [c]
      rw [hone] at hslice
      have hstop : (utf8 (c :: (m ++ [c]))).length - 1 = 1 + byteLen m := by omega
      rw [if_pos, if_pos ⟨hc, hlast⟩, hstop, List.dropLast_concat]
      · exact hslice
      · refine ⟨by omega, ?_⟩
        rw [List.head?_cons, ← List.cons_append, List.getLast?_concat]
        rcases hc with rfl | rfl
        · exact .inl ⟨rfl, rfl⟩
        · exact .inr ⟨rfl, rfl⟩
    · rw [if_neg, if_neg h]
      -- Two bytes at least, with the same quote at both ends, are two characters.
      rintro ⟨hlen, hquotes⟩
      apply h
      rcases hquotes with ⟨hhead, hlast⟩ | ⟨hhead, hlast⟩
      all_goals
        rw [List.head?_cons, Option.some.injEq] at hhead
        subst hhead
        refine ⟨by simp, ?_⟩
        cases t with
        | nil =>
          rw [utf8_cons_ascii (by decide)] at hlen
          simp at hlen
        | cons a t => rwa [List.getLast?_cons_cons] at hlast

/-- The scanner ends a value where the expression does. -/
theorem valueEnd_eq (u : List Char) {x : List Char} (hx : x ≠ []) :
    ∃ q, (utf8 (u ++ x))[byteLen u]? = some q ∧
      valueEnd (utf8 (u ++ x)) (byteLen u) q = byteLen u + byteLen (splitValue x).1 := by
  obtain ⟨c, t, rfl⟩ := List.exists_cons_of_ne_nil hx
  have hspace : skipNonSpace (utf8 (u ++ c :: t)) (byteLen u) =
      byteLen u + byteLen ((c :: t).takeWhile fun x => !(x == ' ')) := by
    rw [skipNonSpace, skipWhile_not_cut (asciiOnly_beq (by decide)), asciiClass_beq (by decide),
      byteLen_append]
  rw [getElem?_utf8_append]
  by_cases hc : c = '\'' ∨ c = '"'
  · -- At a quote, both look for the next one like it.
    have hascii : c.toNat < 128 := by rcases hc with rfl | rfl <;> decide
    refine ⟨ascii c, by rw [utf8_cons_ascii hascii]; rfl, ?_⟩
    have hquote : (ascii c == ascii '\'' || ascii c == ascii '"') = true := by
      rcases hc with rfl | rfl <;> decide
    have hdrop : (utf8 (u ++ c :: t)).drop (byteLen u + 1) = utf8 t := by
      rw [← List.drop_drop, drop_utf8, utf8_cons_ascii hascii, List.drop_one, List.tail_cons]
    rw [valueEnd, if_pos hquote, hdrop, findIdx?_eq, any_utf8 (asciiOnly_beq hascii),
      takeWhile_not_utf8 (asciiOnly_beq hascii), asciiClass_beq hascii, splitValue]
    have hany : t.any (· == c) = decide (c ∈ t) := by
      rw [Bool.eq_iff_iff]
      simp
    rw [hany]
    by_cases hmem : c ∈ t
    · rw [if_pos (by simpa using hmem), if_pos ⟨hc, hmem⟩]
      rw [List.cons_append, byteLen_cons c (_ ++ _), byteLen_append, byteLen_ascii hascii,
        ← byteLen]
      dsimp only
      omega
    · -- Without one, the quote is part of a value that ends at a space.
      rw [if_neg (by simpa using hmem), if_neg (fun h => hmem h.2)]
      exact hspace
  · -- Any other character does not have a quote for its first byte.
    obtain ⟨b, s, henc, -⟩ := decodeStep_utf8EncodeChar c []
    have hb : b ∈ String.utf8EncodeChar c := by simp [henc]
    refine ⟨b, by rw [utf8_cons, henc]; rfl, ?_⟩
    have hsingle := ne_of_mem_utf8EncodeChar (q := '\'') (by decide) (fun h => hc (.inl h)) hb
    have hdouble := ne_of_mem_utf8EncodeChar (q := '"') (by decide) (fun h => hc (.inr h)) hb
    rw [valueEnd, if_neg (by simp [hsingle, hdouble]), hspace, splitValue,
      if_neg (fun h => hc h.1)]

/-- The scanner passes over a character that starts no key, byte by byte. -/
theorem keyValueLoop_skip (u : List Char) {c : Char} (hc : keyStart c = false) (v : List Char)
    (out : List (List Char × List Char)) :
    keyValueLoop (u ++ c :: v) (byteLen u) out =
      keyValueLoop (u ++ c :: v) (byteLen (u ++ [c])) out := by
  -- No byte of the character starts a key, as keys are ASCII.
  have bytes (n : ℕ) (hn : n ≤ byteLen [c]) :
      keyValueLoop (u ++ c :: v) (byteLen u) out =
        keyValueLoop (u ++ c :: v) (byteLen u + n) out := by
    induction n with
    | zero => rfl
    | succ n ih =>
      rw [ih (by omega)]
      have hlen : n < (String.utf8EncodeChar c).length := by
        simp only [byteLen, utf8_cons, utf8_nil, List.append_nil] at hn
        omega
      have hget : (utf8 (u ++ c :: v))[byteLen u + n]? = some (String.utf8EncodeChar c)[n] := by
        rw [← List.getElem?_drop, drop_utf8, utf8_cons, List.getElem?_append_left hlen,
          List.getElem?_eq_getElem hlen]
      obtain ⟨hlt, heq⟩ := List.getElem?_eq_some_iff.mp hget
      have hstart : isKeyStart (utf8 (u ++ c :: v))[byteLen u + n] = false := by
        rw [heq]
        exact not_of_mem_utf8EncodeChar asciiOnly_isKeyStart hc (List.getElem_mem hlen)
      rw [keyValueLoop, dif_pos hlt, dif_neg (by rw [hstart]; exact Bool.false_ne_true),
        Nat.add_assoc]
  rw [byteLen_append]
  exact bytes _ le_rfl

/-- The key at the front of a text. -/
theorem takeWhile_keyChar_cons {c : Char} (hc : keyStart c = true) (v : List Char) :
    (c :: v).takeWhile keyChar = c :: v.takeWhile keyChar :=
  List.takeWhile_cons_of_pos (keyChar_of_keyStart hc)

/-- The scanner on a text that goes on with a key `k`, up to the byte after it. -/
theorem keyValueLoop_key (u k w : List Char) {c : Char} {v : List Char} (hc : keyStart c = true)
    (hk : k = c :: v.takeWhile keyChar) (hw : w = v.dropWhile keyChar)
    (out : List (List Char × List Char)) :
    keyValueLoop (u ++ c :: v) (byteLen u) out =
      (if w.head? ≠ some '=' then keyValueLoop (u ++ c :: v) (byteLen (u ++ k)) out
      else do
        let q ← index (utf8 (u ++ c :: v)) (byteLen (u ++ k) + 1)
        let next := valueEnd (utf8 (u ++ c :: v)) (byteLen (u ++ k) + 1) q
        let value ← strSlice (u ++ c :: v) (byteLen (u ++ k) + 1) next
        let value ← stripPairedQuotes value
        keyValueLoop (u ++ c :: v) next (addPair out (k, value))) := by
  have htext : u ++ c :: v = u ++ k ++ w := by
    rw [hk, hw, List.append_assoc, List.cons_append, List.takeWhile_append_dropWhile]
  -- The run of bytes of a key is the key, and the byte after it is compared with the equals sign.
  have hskip : skipWhile isKeyByte (utf8 (u ++ c :: v)) (byteLen u) = byteLen (u ++ k) := by
    rw [skipWhile_cut asciiOnly_isKeyByte, ← keyChar, takeWhile_keyChar_cons hc, ← hk]
  obtain ⟨hbytes, hstart⟩ := utf8_cons_of_asciiClass hc v
  have hget : (utf8 (u ++ c :: v))[byteLen u]? = some (UInt8.ofNat c.toNat) := by
    rw [getElem?_utf8_append, hbytes]
    rfl
  obtain ⟨hlt, heq⟩ := List.getElem?_eq_some_iff.mp hget
  have hslice : (strSlice (u ++ c :: v) (byteLen u) (byteLen (u ++ k)) : Res Empty _) = .ok k := by
    rw [htext, byteLen_append]
    exact strSlice_append u k w
  have hnext : (utf8 (u ++ c :: v))[byteLen (u ++ k)]? ≠ some (ascii '=') ↔
      w.head? ≠ some '=' := by
    rw [htext, getElem?_utf8_append]
    exact not_congr (head?_utf8 (by decide) w)
  rw [keyValueLoop, dif_pos hlt, dif_pos (by rw [heq]; exact hstart), hskip, hslice, Res.ok_bind]
  simp only [hnext]

/-- The scanner at a match: it reads the value after the equals sign, and panics if nothing stands
there. -/
theorem keyValueLoop_match (u k x : List Char) {c : Char} {v : List Char} (hc : keyStart c = true)
    (hk : k = c :: v.takeWhile keyChar) (hx : v.dropWhile keyChar = '=' :: x)
    (out : List (List Char × List Char)) :
    keyValueLoop (u ++ c :: v) (byteLen u) out =
      if x = [] then .panicked
      else keyValueLoop (u ++ c :: v) (byteLen (u ++ k ++ ['='] ++ (splitValue x).1))
        (addPair out (k, stripQuotes (splitValue x).1)) := by
  have htext : u ++ c :: v = u ++ k ++ ['='] ++ x := by
    have hv := List.takeWhile_append_dropWhile (p := keyChar) (l := v)
    rw [hx] at hv
    rw [hk]
    simp [hv]
  have hat : byteLen (u ++ k) + 1 = byteLen (u ++ k ++ ['=']) := by
    rw [byteLen_append (u ++ k), byteLen_ascii (by decide)]
  rw [keyValueLoop_key u k _ hc hk rfl, hx, if_neg (by simp), hat, htext]
  by_cases hnil : x = []
  · -- The read is past the end.
    subst hnil
    have hpast : (utf8 (u ++ k ++ ['='] ++ []))[byteLen (u ++ k ++ ['='])]? = none := by
      rw [getElem?_utf8_append]
      rfl
    rw [index, hpast, if_pos rfl]
    rfl
  · obtain ⟨q, hq, hend⟩ := valueEnd_eq (u ++ k ++ ['=']) hnil
    have hslice := strSlice_append (ε := Empty) (u ++ k ++ ['=']) (splitValue x).1
      (splitValue x).2
    rw [List.append_assoc _ (splitValue x).1, splitValue_append] at hslice
    rw [if_neg hnil, index_of_getElem? hq, Res.ok_bind]
    simp only [hend, hslice, Res.ok_bind, stripPairedQuotes_eq]
    rw [byteLen_append _ (splitValue x).1]

/-- Where a value stands after the equals sign, a match does not end in the equals sign. -/
theorem endsInEquals_splitValue {text k x : List Char} (hx : x ≠ []) :
    endsInEquals ⟨text, [k, (splitValue x).1], (splitValue x).2⟩ = false := by
  rw [endsInEquals, Bool.and_eq_false_iff]
  by_contra hboth
  simp only [List.getD_cons_succ, List.getD_cons_zero, not_or, Bool.not_eq_false, beq_iff_eq]
    at hboth
  have hsplit := splitValue_append x
  rw [hboth.1, hboth.2] at hsplit
  exact hx hsplit.symm

/-- No match starts inside a key that has no equals sign after it. -/
theorem first_keyValueRe_suffix {c : Char} {v : List Char} (hc : keyStart c = true)
    (hv : (v.dropWhile keyChar).head? ≠ some '=') {k : List Char}
    (hk : k <:+ c :: v.takeWhile keyChar) (hne : k ≠ []) :
    keyValueRe.first (k ++ v.dropWhile keyChar) = none := by
  obtain ⟨a, t, rfl⟩ := List.exists_cons_of_ne_nil hne
  cases ha : keyStart a with
  | false => exact first_keyValueRe_neg ha
  | true =>
    -- A key that starts here ends where the whole key does.
    have hall : ∀ y ∈ t, keyChar y = true := by
      intro y hy
      have hmem : y ∈ (c :: v).takeWhile keyChar := by
        rw [takeWhile_keyChar_cons hc]
        exact hk.subset (List.mem_cons_of_mem a hy)
      exact List.mem_takeWhile_imp hmem
    rw [List.cons_append]
    apply first_keyValueRe_no_equals ha
    rw [List.dropWhile_append_of_pos hall, List.dropWhile_idempotent]
    exact hv

/-- What follows a key is shorter than the text. -/
theorem length_dropWhile_lt (c : Char) (v : List Char) :
    (v.dropWhile keyChar).length < (c :: v).length :=
  Nat.lt_succ_of_le (List.dropWhile_suffix keyChar).length_le

/-- So is what follows the value of a match. -/
theorem length_splitValue_lt {c : Char} {v x : List Char} (hx : v.dropWhile keyChar = '=' :: x) :
    (splitValue x).2.length < (c :: v).length := by
  have hsum := congrArg List.length (splitValue_append x)
  have hdrop := length_dropWhile_lt c v
  rw [hx] at hdrop
  simp only [List.length_append, List.length_cons] at hsum hdrop ⊢
  omega

/-- The scanner on the text `u ++ v`, after `u`: it panics if one of the matches in `v` is a key and
its equals sign at the very end, and returns their pairs otherwise. The induction is on the length
of `v`. -/
theorem keyValueLoop_eq (u v : List Char) (out : List (List Char × List Char)) :
    keyValueLoop (u ++ v) (byteLen u) out =
      if (keyValueRe.findAll v).any endsInEquals then .panicked
      else .ok (((keyValueRe.findAll v).map hitPair).foldl addPair out) := by
  induction hn : v.length using Nat.strong_induction_on generalizing u v out with
  | _ n ih =>
    subst hn
    cases v with
    | nil =>
      have hfind : keyValueRe.findAll [] = [] := by
        unfold Re.findAll
        rfl
      rw [hfind, keyValueLoop, dif_neg (by simp [byteLen])]
      rfl
    | cons c v =>
      cases hc : keyStart c with
      | false =>
        -- No key starts here, and no match does: both go on after the character.
        rw [keyValueLoop_skip u hc, Re.findAll_cons (first_keyValueRe_neg hc)]
        have hrest := ih v.length (by simp) (u ++ [c]) v out rfl
        rwa [List.append_assoc, List.singleton_append] at hrest
      | true =>
        obtain ⟨k, hk⟩ : ∃ k, k = c :: v.takeWhile keyChar := ⟨_, rfl⟩
        have hkv : c :: v = k ++ v.dropWhile keyChar := by
          rw [hk, List.cons_append, List.takeWhile_append_dropWhile]
        by_cases hequals : (v.dropWhile keyChar).head? = some '='
        · -- A match: the value stands after the equals sign.
          obtain ⟨x, hx⟩ := List.head?_eq_some_iff.mp hequals
          have hfirst := first_keyValueRe_equals hc hx
          rw [← hk] at hfirst
          rw [keyValueLoop_match u k x hc hk hx, Re.findAll_of_first hfirst (by simp),
            List.any_cons, List.map_cons, List.foldl_cons]
          by_cases hnil : x = []
          · subst hnil
            rw [if_pos rfl]
            rfl
          · have hsplit := splitValue_append x
            have hrest := ih _ (length_splitValue_lt hx) (u ++ k ++ ['='] ++ (splitValue x).1)
              (splitValue x).2 (addPair out (k, stripQuotes (splitValue x).1)) rfl
            have htext : u ++ k ++ ['='] ++ (splitValue x).1 ++ (splitValue x).2 = u ++ c :: v := by
              rw [List.append_assoc _ (splitValue x).1, hsplit, hkv, hx]
              simp
            rw [htext] at hrest
            rw [if_neg hnil, hrest, endsInEquals_splitValue hnil, Bool.false_or]
            rfl
        · -- No match: the scanner and the expression both go on after the key.
          have hnone : ∀ k', k' <:+ k → k' ≠ [] →
              keyValueRe.first (k' ++ v.dropWhile keyChar) = none :=
            fun k' hk' hne => first_keyValueRe_suffix hc hequals (hk ▸ hk') hne
          rw [keyValueLoop_key u k _ hc hk rfl, if_pos hequals, hkv, Re.findAll_skip hnone,
            ← List.append_assoc]
          exact ih _ (length_dropWhile_lt c v) (u ++ k) (v.dropWhile keyChar) out rfl

/-! ## The pairs of a text, and the parser -/

/-- Adding pairs one by one keeps the first pair of each key. -/
theorem foldl_addPair (kvs out : List (List Char × List Char)) :
    kvs.foldl addPair out =
      List.eraseDupsBy.loop (fun kv kv' => kv.1 == kv'.1) kvs out.reverse := by
  induction kvs generalizing out with
  | nil => simp [List.eraseDupsBy.loop]
  | cons kv kvs ih =>
    have hany : out.reverse.any (fun kv' => kv.1 == kv'.1) = out.any (·.1 == kv.1) := by
      rw [List.any_reverse]
      simp only [BEq.comm]
    rw [List.foldl_cons, List.eraseDupsBy.loop, hany, addPair, ih]
    cases out.any (·.1 == kv.1) with
    | true => rfl
    | false => simp

/-- `key_value_pairs` returns the pairs of the regular expression, unless it panics. -/
theorem keyValuePairs_eq (text : List Char) :
    keyValuePairs text =
      if (keyValueRe.findAll text).any endsInEquals then .panicked else .ok (matchPairs text) := by
  have hloop := keyValueLoop_eq [] text []
  rw [foldl_addPair] at hloop
  exact hloop

/-- The text before the first newline, less its last character, unless the newline comes first or
there is none. -/
def cutAtNewline (text : List Char) : List Char :=
  if '\n' ∈ text ∧ text.head? ≠ some '\n' then (text.takeWhile fun c => !(c == '\n')).dropLast
  else text

/-- The slice of `parse` falls between two characters. -/
theorem trimmed_eq (text : List Char) : trimmed text = .ok (cutAtNewline text) := by
  unfold trimmed
  cases hfind : strFind ['\n'] text with
  | none =>
    rw [cutAtNewline, if_neg (fun h => notMem_of_strFind hfind h.1)]
  | some p =>
    obtain ⟨u, v', rfl, rfl, hmem⟩ := exists_of_strFind_singleton hfind
    have hnot : ∀ c ∈ u, (!(c == '\n')) = true := fun c hc => by
      simpa using ne_of_mem_of_not_mem hc hmem
    have htake : (u ++ '\n' :: v').takeWhile (fun c => !(c == '\n')) = u := by
      rw [List.takeWhile_append_of_pos hnot]
      simp
    dsimp only
    rw [cutAtNewline, htake]
    rcases List.eq_nil_or_concat u with rfl | ⟨w, c, rfl⟩
    · rw [if_neg (by simp), if_neg (by simp)]
    · -- The byte before the newline is the last one of `c`, and the boundary before it that of `c`.
      rw [List.concat_eq_append] at *
      have hpos := byteLen_pos (s := w ++ [c]) (by simp)
      have hone := byteLen_singleton_pos c
      have hhead : (w ++ [c] ++ '\n' :: v').head? ≠ some '\n' := by
        cases w with
        | nil =>
          have := hnot c (by simp)
          simpa using this
        | cons a w =>
          have := hnot a (by simp)
          simpa using this
      have hat : byteLen (w ++ [c]) - 1 = byteLen w + (byteLen [c] - 1) := by
        rw [byteLen_append]
        omega
      have htext : w ++ [c] ++ '\n' :: v' = w ++ c :: '\n' :: v' := by simp
      rw [if_pos hpos, if_pos ⟨by simp, hhead⟩, List.dropLast_concat, hat, htext,
        floorBoundary_inside w _ (by omega)]
      have hslice := strSlice_append (ε := Empty) [] w (c :: '\n' :: v')
      simpa using hslice

/-- The scanner is the regular expression exactly on the texts none of whose matches is a key and
its equals sign at the very end, and the parser returns exactly on its own probe and on the
datagrams whose text, cut at the first newline, is such a text. -/
theorem keyValuePairs_eq_ok_iff (text : List Char) (src : SocketAddr) (data : List UInt8) :
    (keyValuePairs text = .ok (matchPairs text) ↔
      ∀ h ∈ keyValueRe.findAll text, endsInEquals h = false) ∧
    (parse src data ≠ .panicked ↔
      fromUtf8Lossy data = request ∨
        ∀ h ∈ keyValueRe.findAll (cutAtNewline (fromUtf8Lossy data)), endsInEquals h = false) := by
  have hpairs (text : List Char) : keyValuePairs text = .ok (matchPairs text) ↔
      ∀ h ∈ keyValueRe.findAll text, endsInEquals h = false := by
    rw [keyValuePairs_eq]
    split_ifs with hany
    · obtain ⟨h, hh, hends⟩ := List.any_eq_true.mp hany
      refine ⟨by simp, fun hall => ?_⟩
      rw [hall h hh] at hends
      cases hends
    · refine ⟨fun _ h hh => ?_, fun _ => rfl⟩
      rw [← Bool.not_eq_true]
      exact fun hends => hany (List.any_eq_true.mpr ⟨h, hh, hends⟩)
  -- The probe that comes back is left out; any other text is cut and scanned.
  refine ⟨hpairs text, ?_⟩
  unfold parse
  by_cases hecho : fromUtf8Lossy data = request
  · simp [hecho]
  · rw [if_neg hecho, trimmed_eq, Res.ok_bind, ← hpairs]
    rw [keyValuePairs_eq]
    split_ifs <;> simp [hecho]

/-- The two differ at `A=`: the expression matches the empty value, and the scanner panics, as the
parser does on a datagram with this text. -/
theorem keyValuePairs_equals_at_end :
    matchPairs "A=".toList = [(['A'], [])] ∧ keyValuePairs "A=".toList = .panicked ∧
      ∀ src, parse src (utf8 "A=".toList) = .panicked := by
  have hfind : (keyValueRe.findAll "A=".toList).any endsInEquals = true := by decide +kernel
  have hpairs : keyValuePairs "A=".toList = .panicked := by
    rw [keyValuePairs_eq, if_pos hfind]
  refine ⟨by decide +kernel, hpairs, fun src => ?_⟩
  have hcut : cutAtNewline "A=".toList = "A=".toList := by decide
  rw [parse, fromUtf8Lossy_utf8, if_neg (by decide), trimmed_eq, Res.ok_bind, hcut, hpairs]
  rfl

end Uscan.Vision360
