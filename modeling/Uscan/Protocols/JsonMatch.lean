import Uscan.Lib.Capture
import Uscan.Protocols.Dahua

/-!
# The values of a JSON text and their regular expressions

`extract_json_string` and `extract_json_section` look for the value of a key by hand, in place of
the expressions `"KEY" *: *"([^"]*)"` and `"KEY" *: *(\x7b[^\x7d]*\x7d)`. A quoted key is a
candidate, which fails if no colon, no opening delimiter, or no closing one follows; then the loop
goes on after the quote before the key, which is one byte. So the loop passes over one character at
a time and returns what the leftmost match captures (`extractJson_search`).
-/

namespace Uscan.Dahua2

open Re

/-! ## The regular expressions -/

/-- `"KEY"`. -/
def quotedKey (key : List Char) : List Char := '"' :: key ++ ['"']

/-- A text between two characters: `START([^CLOSE]*)CLOSE`, or `(START[^CLOSE]*CLOSE)` if the
characters are captured with it. -/
def valueRe (start close : Char) (inclusive : Bool) : Re Char :=
  if inclusive then group (seq (lit [start]) (seq (many (· != close)) (lit [close])))
  else seq (lit [start]) (seq (group (many (· != close))) (lit [close]))

/-- ` *: *VALUE`. -/
def afterKeyRe (value : Re Char) : Re Char :=
  seq (many (· == ' ')) (seq (lit [':']) (seq (many (· == ' ')) value))

/-- `"KEY" *: *VALUE`. -/
def jsonRe (key : List Char) (value : Re Char) : Re Char :=
  seq (lit (quotedKey key)) (afterKeyRe value)

/-- `"KEY" *: *"([^"]*)"`. -/
def jsonStringRe (key : List Char) : Re Char := jsonRe key (valueRe '"' '"' false)

/-- `"KEY" *: *(\x7b[^\x7d]*\x7d)`. -/
def jsonSectionRe (key : List Char) : Re Char := jsonRe key (valueRe '\x7b' '\x7d' true)

variable {start close : Char}

/-- The expressions have one group. -/
theorem arity_jsonRe (key : List Char) (start close : Char) (inclusive : Bool) :
    (jsonRe key (valueRe start close inclusive)).arity = some 1 := by
  cases inclusive <;> simp [jsonRe, afterKeyRe, valueRe, arity, arity_lit]

/-- A value does not match where its first character does not stand. -/
theorem run_valueRe_neg {v : List Char} (h : ¬ [start] <+: v) (close : Char) (inclusive : Bool) :
    run (valueRe start close inclusive) v = [] := by
  cases inclusive with
  | false => exact run_seq_lit_neg h _
  | true =>
    rw [valueRe, if_pos rfl, run, run_seq_lit_neg h]
    rfl

/-- A closing character stands after the part without one exactly if there is one. -/
theorem close_iff (close : Char) (w : List Char) :
    [close] <+: w.dropWhile (· != close) ↔ close ∈ w := by
  constructor
  · exact fun h => (List.dropWhile_suffix _).subset (h.subset (List.mem_singleton_self close))
  · intro h
    obtain ⟨x, y, rfl, hx⟩ := List.eq_append_cons_of_mem h
    rw [(takeWhile_ne_append hx y).2]
    exact List.prefix_append [close] y

/-- The rest of a text is captured up to the character that closes it. -/
theorem captureAt_text (start close : Char) (w : List Char) :
    captureAt (valueRe start close false) (start :: w) =
      if close ∈ w then some (w.takeWhile (· != close)) else none := by
  have hstart := captureAt_lit_append [start] (seq (group (many (· != close))) (lit [close])) w
  rw [List.singleton_append] at hstart
  rw [valueRe, if_neg (by simp), hstart, captureAt_group_many (by simp)]
  simp only [close_iff]

/-- The rest of a section is captured with the characters around it. -/
theorem captureAt_section (start close : Char) (w : List Char) :
    captureAt (valueRe start close true) (start :: w) =
      if close ∈ w then some (start :: w.takeWhile (· != close) ++ [close]) else none := by
  have hstart : first (lit [start]) (start :: w) = some ⟨[start], [], w⟩ :=
    first_lit_append [start] w
  have hstop (a : Char) (t : List Char) (ha : (a != close) = true) :
      run (lit [close]) (a :: t) = [] := run_lit_cons_neg (by simpa using ha) t
  unfold valueRe captureAt
  rw [if_pos rfl, first_group, ((single_lit [start]).commits _).first_seq, hstart,
    Option.bind_some, (commits_many hstop).first_seq, first_many, Option.bind_some]
  split_ifs with h
  · obtain ⟨t, ht⟩ := (close_iff close w).mpr h
    rw [← ht, first_lit_append]
    rfl
  · rw [first_lit_neg (mt (close_iff close w).mp h)]
    rfl

/-! ## The value after a key -/

/-- The byte after a part of a text is that of an ASCII character exactly if the character is the
next one. -/
theorem byte_iff {q : Char} (hq : q.toNat < 128) (u v : List Char) :
    (byteLen u < byteLen (u ++ v) ∧ (utf8 (u ++ v))[byteLen u]? = some (ascii q)) ↔
      [q] <+: v := by
  rw [getElem?_utf8_append, head?_utf8 hq]
  constructor
  · rintro ⟨-, h⟩
    obtain ⟨w, rfl⟩ := List.head?_eq_some_iff.mp h
    exact ⟨w, rfl⟩
  · rintro ⟨w, rfl⟩
    have hpos := byteLen_pos (List.cons_ne_nil q w)
    rw [List.singleton_append, byteLen_append]
    exact ⟨by omega, rfl⟩

/-- A part of a text up to an ASCII character, without or with the character. -/
theorem slice_to_close (hclose : close.toNat < 128) (u x y : List Char) (inclusive : Bool) :
    (strSlice (u ++ (x ++ close :: y)) (byteLen u)
        (byteLen u + byteLen x + if inclusive then 1 else 0) : Res Empty (List Char)) =
      .ok (if inclusive then x ++ [close] else x) := by
  cases inclusive with
  | false =>
    rw [← List.append_assoc]
    exact strSlice_append u x (close :: y)
  | true =>
    have hlen : byteLen u + byteLen x + 1 = byteLen u + byteLen (x ++ [close]) := by
      rw [byteLen_append x, byteLen_ascii hclose, Nat.add_assoc]
    rw [if_pos rfl, if_pos rfl, hlen, List.append_cons x, ← List.append_assoc u]
    exact strSlice_append u (x ++ [close]) y

/-- A text after its first character, as the code takes it and as the expression captures it. -/
theorem valueAt_text (hstart : start.toNat < 128) (hclose : close.toNat < 128)
    (u w : List Char) :
    valueAt (u ++ start :: w) (byteLen u) start close false =
      .ok (captureAt (valueRe start close false) (start :: w)) := by
  have hfirst : byteLen u + 1 = byteLen (u ++ [start]) := by
    rw [byteLen_append, byteLen_ascii hstart]
  unfold valueAt
  rw [if_pos ((byte_iff hstart u (start :: w)).mpr ⟨w, rfl⟩), if_neg (by simp), hfirst,
    List.append_cons u start w, captureAt_text]
  dsimp only
  rw [strFrom_append, Res.ok_bind]
  by_cases hw : close ∈ w
  · obtain ⟨x, y, rfl, hx⟩ := List.eq_append_cons_of_mem hw
    rw [if_pos hw, (takeWhile_ne_append hx y).1, strFind_singleton_append hx y]
    dsimp only
    rw [slice_to_close hclose]
    rfl
  · rw [if_neg hw, strFind_eq_none hw]
    rfl

/-- A section with the characters around it. Its first character does not close it. -/
theorem valueAt_section (hstart : start.toNat < 128) (hclose : close.toNat < 128)
    (hne : start ≠ close) (u w : List Char) :
    valueAt (u ++ start :: w) (byteLen u) start close true =
      .ok (captureAt (valueRe start close true) (start :: w)) := by
  have hmem {x : List Char} (hx : close ∉ x) : close ∉ start :: x := by
    rw [List.mem_cons, not_or]
    exact ⟨hne.symm, hx⟩
  unfold valueAt
  rw [if_pos ((byte_iff hstart u (start :: w)).mpr ⟨w, rfl⟩), if_pos rfl, captureAt_section]
  dsimp only
  rw [strFrom_append, Res.ok_bind]
  by_cases hw : close ∈ w
  · obtain ⟨x, y, rfl, hx⟩ := List.eq_append_cons_of_mem hw
    rw [if_pos hw, (takeWhile_ne_append hx y).1, ← List.cons_append,
      strFind_singleton_append (hmem hx) y]
    dsimp only
    rw [slice_to_close hclose]
    rfl
  · rw [if_neg hw, strFind_eq_none (hmem hw)]
    rfl

/-- The value after a part of a text is what the expression captures there. -/
theorem valueAt_eq (hstart : start.toNat < 128) (hclose : close.toNat < 128) {inclusive : Bool}
    (hne : inclusive = true → start ≠ close) (u v : List Char) :
    valueAt (u ++ v) (byteLen u) start close inclusive =
      .ok (captureAt (valueRe start close inclusive) v) := by
  by_cases h : [start] <+: v
  · obtain ⟨w, rfl⟩ := h
    cases inclusive with
    | false => exact valueAt_text hstart hclose u w
    | true => exact valueAt_section hstart hclose (hne rfl) u w
  · unfold valueAt
    rw [if_neg (mt (byte_iff hstart u v).mp h), captureAt, first, run_valueRe_neg h]
    rfl

/-- After a key, the loop takes what the rest of the expression captures. -/
theorem afterKey_eq (hstart : start.toNat < 128) (hclose : close.toNat < 128) (hspace : start ≠ ' ')
    {inclusive : Bool} (hne : inclusive = true → start ≠ close) (u v : List Char) :
    (let i := skipSpaces (u ++ v) (byteLen u)
      if i < byteLen (u ++ v) ∧ (utf8 (u ++ v))[i]? = some (ascii ':') then
        valueAt (u ++ v) (skipSpaces (u ++ v) (i + 1)) start close inclusive
      else .ok none) = .ok (captureAt (afterKeyRe (valueRe start close inclusive)) v) := by
  have hcolonRe (a : Char) (t : List Char) (ha : (a == ' ') = true) :
      run (seq (lit [':']) (seq (many (· == ' ')) (valueRe start close inclusive))) (a :: t) =
        [] := by
    obtain rfl : a = ' ' := by simpa using ha
    exact run_seq_lit_cons_neg (by decide) _ t
  have hvalueRe (a : Char) (t : List Char) (ha : (a == ' ') = true) :
      run (valueRe start close inclusive) (a :: t) = [] := by
    obtain rfl : a = ' ' := by simpa using ha
    exact run_valueRe_neg (by simpa using hspace) close inclusive
  rw [afterKeyRe, captureAt_many hcolonRe, skipSpaces, skipWhile_ascii_cut (by decide)]
  -- The text before the colon, with the spaces.
  obtain ⟨u', hu'⟩ : ∃ u', u' = u ++ v.takeWhile (· == ' ') := ⟨_, rfl⟩
  have htext : u ++ v = u' ++ v.dropWhile (· == ' ') := by
    rw [hu', List.append_assoc, List.takeWhile_append_dropWhile]
  rw [← hu', htext]
  dsimp only
  by_cases h : [':'] <+: v.dropWhile (· == ' ')
  · rw [if_pos ((byte_iff (by decide) u' _).mpr h)]
    -- After the colon and more spaces stands the value.
    obtain ⟨w, hw⟩ := h
    have hcolon : byteLen u' + 1 = byteLen (u' ++ [':']) := by
      rw [byteLen_append, byteLen_ascii (by decide)]
    rw [← hw, captureAt_lit_append, captureAt_many hvalueRe, hcolon, ← List.append_assoc,
      skipSpaces, skipWhile_ascii_cut (by decide),
      ← valueAt_eq hstart hclose hne (u' ++ [':'] ++ w.takeWhile (· == ' ')),
      List.append_assoc _ (w.takeWhile _), List.takeWhile_append_dropWhile]
  · rw [if_neg (mt (byte_iff (by decide) u' _).mp h), captureAt_lit_neg h]

/-! ## The loop -/

/-- Without a quoted key the loop ends. -/
theorem extractJsonLoop_none {key v : List Char} (hfind : strFind (quotedKey key) v = none)
    (start close : Char) (inclusive : Bool) (u : List Char) :
    extractJsonLoop key (u ++ v) start close inclusive (byteLen u) = .ok none := by
  have hle : byteLen u ≤ byteLen (u ++ v) := by
    rw [byteLen_append]
    omega
  rw [extractJsonLoop, dif_pos hle, strFrom_append, Res.ok_bind, ← quotedKey, hfind]
  rfl

/-- What the loop does where a quoted key is found. -/
theorem extractJsonLoop_found (hstart : start.toNat < 128) (hclose : close.toNat < 128)
    (hspace : start ≠ ' ') {inclusive : Bool} (hne : inclusive = true → start ≠ close)
    {key s w : List Char}
    (hfind : strFind (quotedKey key) (s ++ (quotedKey key ++ w)) = some (byteLen s))
    (u : List Char) :
    extractJsonLoop key (u ++ (s ++ (quotedKey key ++ w))) start close inclusive (byteLen u) =
      match captureAt (afterKeyRe (valueRe start close inclusive)) w with
      | some t => .ok (some t)
      | none =>
        extractJsonLoop key (u ++ s ++ ['"'] ++ (key ++ ['"'] ++ w)) start close inclusive
          (byteLen (u ++ s ++ ['"'])) := by
  have hle : byteLen u ≤ byteLen (u ++ (s ++ (quotedKey key ++ w))) := by
    rw [byteLen_append u]
    omega
  have hafter := afterKey_eq hstart hclose hspace hne (u ++ s ++ quotedKey key) w
  rw [byteLen_append (u ++ s), byteLen_append u s, List.append_assoc (u ++ s),
    List.append_assoc u s] at hafter
  -- The search goes on after the quotation mark, which is one byte.
  have hquote : byteLen u + byteLen s + 1 = byteLen (u ++ s ++ ['"']) := by
    rw [byteLen_append, byteLen_append, byteLen_ascii (by decide)]
  have htext : u ++ (s ++ (quotedKey key ++ w)) = u ++ s ++ ['"'] ++ (key ++ ['"'] ++ w) := by
    simp [quotedKey]
  rw [extractJsonLoop, dif_pos hle, strFrom_append, Res.ok_bind, ← quotedKey, hfind]
  dsimp only at hafter ⊢
  split_ifs at hafter ⊢ with hcolon
  · rw [hafter, Res.ok_bind, hquote, htext]
    rfl
  · rw [← Res.ok.inj hafter, Res.ok_bind, hquote, htext]

/-- The extraction returns what the leftmost match of the expression captures. -/
theorem extractJsonLoop_eq (hstart : start.toNat < 128) (hclose : close.toNat < 128)
    (hspace : start ≠ ' ') {inclusive : Bool} (hne : inclusive = true → start ≠ close)
    (key json : List Char) :
    extractJsonLoop key json start close inclusive 0 =
      .ok ((jsonRe key (valueRe start close inclusive)).capture json) := by
  refine searchLoop_eq_capture (arity_jsonRe key start close inclusive)
    (fun u v hfind => extractJsonLoop_none hfind start close inclusive u) ?_ ?_ [] json
  · intro u s w t hfind hcapture
    rw [extractJsonLoop_found hstart hclose hspace hne hfind, hcapture]
  · intro u s w hfind hcapture
    refine ⟨['"'], key ++ ['"'] ++ w, by simp [quotedKey], by simp, ?_, ?_⟩
    · -- The part that is passed over is one character.
      intro x' hx' hx hproper
      rcases List.suffix_cons_iff.mp hx' with heq | hnil
      · exact absurd heq hproper
      · exact absurd (List.suffix_nil.mp hnil) hx
    · rw [extractJsonLoop_found hstart hclose hspace hne hfind, hcapture]

/-- `extract_json_string` is the search for its expression. -/
theorem extractJsonString_eq (key json : List Char) :
    extractJsonString key json = .ok ((jsonStringRe key).capture json) :=
  extractJsonLoop_eq (by decide) (by decide) (by decide) (by decide) key json

/-- `extract_json_section` is the search for its expression. -/
theorem extractJsonSection_eq (key json : List Char) :
    extractJsonSection key json = .ok ((jsonSectionRe key).capture json) :=
  extractJsonLoop_eq (by decide) (by decide) (by decide) (by decide) key json

/-- The extraction of a text returns. -/
theorem extractJsonString_eq_ok (key json : List Char) :
    ∃ value, extractJsonString key json = .ok value := ⟨_, extractJsonString_eq key json⟩

/-- For every text and every key, the extraction returns what the leftmost match of the expression
captures. -/
theorem extractJson_search (key json : List Char) :
    extractJsonString key json = .ok ((jsonStringRe key).capture json) ∧
      extractJsonSection key json = .ok ((jsonSectionRe key).capture json) :=
  ⟨extractJsonString_eq key json, extractJsonSection_eq key json⟩

/-- A key that is also a value, or has a value of another kind, is passed over. -/
example : (jsonStringRe "a".toList).capture "\x7b\"b\":\"a\",\"a\":1,\"a\" : \"x\"\x7d".toList =
    some "x".toList := by decide

end Uscan.Dahua2
