import Uscan.Lib.Regex
import Uscan.Protocols.Text

/-!
# The tokens of a server header and their regular expression

`split_server_details` splits a text by hand, in place of taking all matches of
`[^,/]+(/[^ ,]+)?`. It differs from the expression in two ways. It skips spaces and tabs before a
name, so that a name of nothing else is skipped with the slash after it, and the version becomes a
name. And it takes the slash after a name also where no version follows.

`splitLoop_eq` says what the scanner does in terms of characters, by induction on what is left of
the text. `tokens_eq_serverTokens` compares it with the expression.
-/

namespace Uscan.Ssdp

/-! ## The scanner in terms of characters -/

/-- A character that is skipped before a token. -/
def gapChar (c : Char) : Bool := c == ',' || c == '/' || c == ' ' || c == '\t'

/-- `[^,/]`: a character of a name. -/
def nameChar (c : Char) : Bool := !(c == ',' || c == '/')

/-- `[^ ,]`: a character of a version. -/
def versionChar (c : Char) : Bool := !(c == ' ' || c == ',')

/-- The slash and the version after a name. -/
def versionPart : List Char → List Char
  | '/' :: w => '/' :: w.takeWhile versionChar
  | _ => []

/-- A token, if it is not blank. -/
def unlessBlank (t : List Char) : List (List Char) := if trim t = [] then [] else [trim t]

/-- A character that is not skipped is one of a name. -/
theorem nameChar_of_gapChar {c : Char} (h : gapChar c = false) : nameChar c = true := by
  simp only [gapChar, Bool.or_eq_false_iff] at h
  simp [nameChar, h.1.1.1, h.1.1.2]

/-- The tokens of a text. -/
def tokens : List Char → List (List Char)
  | [] => []
  | c :: s =>
    if _hgap : gapChar c = true then tokens s
    else
      let name := (c :: s).takeWhile nameChar
      let rest := (c :: s).dropWhile nameChar
      unlessBlank (name ++ versionPart rest) ++ tokens (rest.drop (versionPart rest).length)
termination_by s => s.length
decreasing_by
  · simp
  · have hname := nameChar_of_gapChar (by simpa using _hgap)
    have hdrop := (List.dropWhile_suffix (l := s) nameChar).length_le
    rw [List.dropWhile_cons_of_pos hname, List.length_drop, List.length_cons]
    omega

/-- Gaps are skipped. -/
theorem tokens_gap {g : List Char} (hg : ∀ c ∈ g, gapChar c = true) (s : List Char) :
    tokens (g ++ s) = tokens s := by
  induction g with
  | nil => rfl
  | cons c g ih =>
    have hrest := ih fun c' hc' => hg c' (List.mem_cons_of_mem _ hc')
    rw [List.cons_append, tokens, dif_pos (hg c List.mem_cons_self), hrest]

/-- A token is taken where there is no gap. -/
theorem tokens_cons {c : Char} {s : List Char} (hc : gapChar c = false) :
    tokens (c :: s) =
      unlessBlank ((c :: s).takeWhile nameChar ++ versionPart ((c :: s).dropWhile nameChar)) ++
        tokens (((c :: s).dropWhile nameChar).drop
          (versionPart ((c :: s).dropWhile nameChar)).length) := by
  rw [tokens, dif_neg (by simp [hc])]

/-! ## The loop over bytes -/

/-- The classes of bytes of the loop are classes of ASCII characters. -/
theorem asciiOnly_isGap : AsciiOnly isGap :=
  (((asciiOnly_beq (by decide)).or (asciiOnly_beq (by decide))).or (asciiOnly_beq (by decide))).or
    (asciiOnly_beq (by decide))

theorem asciiOnly_endsPart : AsciiOnly endsPart :=
  (asciiOnly_beq (by decide)).or (asciiOnly_beq (by decide))

theorem asciiOnly_endsToken : AsciiOnly endsToken :=
  (asciiOnly_beq (by decide)).or (asciiOnly_beq (by decide))

/-- The bytes of a gap are those of its characters. -/
theorem asciiClass_isGap : asciiClass isGap = gapChar := by
  unfold isGap
  simp only [asciiClass_or, asciiClass_beq (show ','.toNat < 128 by decide),
    asciiClass_beq (show '/'.toNat < 128 by decide),
    asciiClass_beq (show ' '.toNat < 128 by decide),
    asciiClass_beq (show '\t'.toNat < 128 by decide)]
  rfl

/-- The bytes outside the ends of a name are those of its characters. -/
theorem not_asciiClass_endsPart : (fun c => !asciiClass endsPart c) = nameChar := by
  unfold endsPart
  simp only [asciiClass_or, asciiClass_beq (show ','.toNat < 128 by decide),
    asciiClass_beq (show '/'.toNat < 128 by decide)]
  rfl

/-- The bytes outside the ends of a version are those of its characters. -/
theorem not_asciiClass_endsToken : (fun c => !asciiClass endsToken c) = versionChar := by
  unfold endsToken
  simp only [asciiClass_or, asciiClass_beq (show ','.toNat < 128 by decide),
    asciiClass_beq (show ' '.toNat < 128 by decide)]
  rfl

/-- The version after a slash. -/
theorem versionPart_slash (w : List Char) :
    versionPart ('/' :: w) = '/' :: w.takeWhile versionChar := rfl

/-- Without a slash there is no version. -/
theorem versionPart_of_head?_ne {v : List Char} (h : v.head? ≠ some '/') : versionPart v = [] := by
  unfold versionPart
  split
  · exact absurd rfl h
  · rfl

/-- The end of a token whose name ends after `u`. -/
theorem tokenEnd_eq (u v : List Char) :
    tokenEnd (utf8 (u ++ v)) (byteLen u) = byteLen (u ++ versionPart v) := by
  have hslashAt : (utf8 (u ++ v))[byteLen u]? = some (ascii '/') ↔ v.head? = some '/' := by
    rw [getElem?_utf8_append, head?_utf8 (by decide)]
  unfold tokenEnd
  by_cases h : v.head? = some '/'
  · obtain ⟨w, rfl⟩ := List.head?_eq_some_iff.mp h
    have hslash : byteLen u + 1 = byteLen (u ++ ['/']) := by
      rw [byteLen_append, byteLen_ascii (by decide)]
    rw [if_pos (hslashAt.mpr h), hslash, List.append_cons, skipWhile_not_cut asciiOnly_endsToken,
      not_asciiClass_endsToken, List.append_assoc]
    rfl
  · rw [if_neg (mt hslashAt.mp h), versionPart_of_head?_ne h, List.append_nil]

/-- A part of a text, as a part of its bytes. -/
theorem subslice_utf8 (u v w : List Char) :
    (subslice (utf8 (u ++ v ++ w)) (byteLen u) (byteLen (u ++ v)) : Res Empty (List UInt8)) =
      .ok (utf8 v) := by
  rw [byteLen_append, List.append_assoc, utf8_append, utf8_append]
  exact subslice_append (utf8 u) (utf8 v) (utf8 w)

/-- The version stands at the front of what follows a name. -/
theorem versionPart_append (v : List Char) :
    versionPart v ++ v.drop (versionPart v).length = v := by
  refine List.prefix_iff_eq_append.mp ?_
  unfold versionPart
  split
  · exact List.cons_prefix_cons.mpr ⟨rfl, List.takeWhile_prefix versionChar⟩
  · exact List.nil_prefix

/-- At the end of a text the loop ends. -/
theorem splitLoop_end (u : List Char) (out : List (List Char)) :
    splitLoop (utf8 u) (byteLen u) out = .ok out := by
  rw [splitLoop, dif_neg (by rw [byteLen]; omega)]

/-- Before it, the loop goes on. -/
theorem byteLen_lt_length_utf8 (u : List Char) {v : List Char} (hv : v ≠ []) :
    byteLen u < (utf8 (u ++ v)).length := by
  have hpos := byteLen_pos hv
  change byteLen u < byteLen (u ++ v)
  rw [byteLen_append]
  omega

/-- A round passes over the gap first. -/
theorem skipWhile_gap {g x : List Char} (hg : ∀ c ∈ g, gapChar c = true)
    (hx : x.takeWhile gapChar = []) (u : List Char) :
    skipWhile isGap (utf8 (u ++ (g ++ x))) (byteLen u) = byteLen (u ++ g) := by
  rw [skipWhile_cut asciiOnly_isGap, asciiClass_isGap, List.takeWhile_append_of_pos hg, hx,
    List.append_nil]

/-- Then it looks for the end of the name. -/
theorem skipWhile_name (u x : List Char) :
    skipWhile (fun c => !endsPart c) (utf8 (u ++ x)) (byteLen u) =
      byteLen (u ++ x.takeWhile nameChar) := by
  rw [skipWhile_not_cut asciiOnly_endsPart, not_asciiClass_endsPart]

/-- A round over a gap at the end of the text is the last one. -/
theorem splitLoop_gap {g : List Char} (hg : ∀ c ∈ g, gapChar c = true) (u : List Char)
    (out : List (List Char)) : splitLoop (utf8 (u ++ g)) (byteLen u) out = .ok out := by
  by_cases hne : g = []
  · rw [hne, List.append_nil, splitLoop_end]
  · have hstart := skipWhile_gap (x := []) hg rfl u
    have hpart := skipWhile_name (u ++ g) []
    rw [List.append_nil] at hstart hpart
    rw [List.takeWhile_nil, List.append_nil] at hpart
    rw [splitLoop, dif_pos (byteLen_lt_length_utf8 u hne), hstart, dif_pos hpart, splitLoop_end]

/-- Any other round passes over a gap, keeps the token after it, made of a name and a version, and
leaves the rest to the next one. -/
theorem splitLoop_token {g x name r rest : List Char} (hg : ∀ c ∈ g, gapChar c = true)
    (hx : x.takeWhile gapChar = []) (hname : x.takeWhile nameChar = name) (hne : name ≠ [])
    (hr : x = name ++ r) (hrest : versionPart r ++ rest = r) (u : List Char)
    (out : List (List Char)) :
    splitLoop (utf8 (u ++ (g ++ x))) (byteLen u) out =
      splitLoop (utf8 (u ++ g ++ name ++ versionPart r ++ rest))
        (byteLen (u ++ g ++ name ++ versionPart r))
        (out ++ unlessBlank (name ++ versionPart r)) := by
  have hstart := skipWhile_gap hg hx u
  have hpart := skipWhile_name (u ++ g) x
  rw [hname, List.append_assoc u] at hpart
  have hlt : byteLen u < (utf8 (u ++ (g ++ x))).length := by
    refine byteLen_lt_length_utf8 u fun hnil => hne ?_
    rw [← hname, (List.append_eq_nil_iff.mp hnil).2, List.takeWhile_nil]
  have hlonger : byteLen (u ++ g ++ name) ≠ byteLen (u ++ g) := by
    have hpos := byteLen_pos hne
    rw [byteLen_append (u ++ g)]
    omega
  rw [splitLoop, dif_pos hlt, hstart, hpart, dif_neg hlonger]
  -- The same text, as cut after the name and after the version.
  have hcut : u ++ (g ++ x) = u ++ g ++ name ++ r := by
    rw [hr, ← List.append_assoc, ← List.append_assoc]
  have hcut' : u ++ g ++ name ++ r = u ++ g ++ name ++ versionPart r ++ rest := by
    rw [List.append_assoc _ (versionPart r), hrest]
  have hend := tokenEnd_eq (u ++ g ++ name) r
  have hfirst := subslice_utf8 (u ++ g) name r
  have hsecond := subslice_utf8 (u ++ g ++ name) (versionPart r) rest
  rw [← hcut'] at hsecond
  rw [hcut]
  dsimp only
  rw [hend, hfirst, Res.ok_bind, hsecond, Res.ok_bind, fromUtf8Lossy_utf8, fromUtf8Lossy_utf8,
    ← hcut']
  unfold unlessBlank
  split_ifs with hblank
  · rw [List.append_nil]
  · rfl

/-- What the loop returns after the part `u` of a text. The induction is on what is left. -/
theorem splitLoop_eq (u v : List Char) (out : List (List Char)) :
    splitLoop (utf8 (u ++ v)) (byteLen u) out = .ok (out ++ tokens v) := by
  induction hn : v.length using Nat.strongRecOn generalizing u v out with
  | ind n ih =>
    -- The gap, and what follows it.
    obtain ⟨g, x, rfl, hg, hx⟩ : ∃ g x, v = g ++ x ∧ (∀ c ∈ g, gapChar c = true) ∧
        x.takeWhile gapChar = [] :=
      ⟨v.takeWhile gapChar, v.dropWhile gapChar, List.takeWhile_append_dropWhile.symm,
        fun _ => List.mem_takeWhile_imp,
        List.takeWhile_eq_nil_iff.mpr (List.dropWhile_get_zero_not gapChar v)⟩
    rw [tokens_gap hg]
    cases x with
    | nil => rw [List.append_nil, splitLoop_gap hg, tokens, List.append_nil]
    | cons c s =>
      have hc : gapChar c = false := by
        by_contra hgap
        rw [List.takeWhile_cons_of_pos (by simpa using hgap)] at hx
        cases hx
      rw [tokens_cons hc]
      obtain ⟨name, hname⟩ : ∃ name, (c :: s).takeWhile nameChar = name := ⟨_, rfl⟩
      obtain ⟨r, hr⟩ : ∃ r, (c :: s).dropWhile nameChar = r := ⟨_, rfl⟩
      have hcut : c :: s = name ++ r := by
        rw [← hname, ← hr, List.takeWhile_append_dropWhile]
      have hne : name ≠ [] := by
        rw [← hname, List.takeWhile_cons_of_pos (nameChar_of_gapChar hc)]
        exact List.cons_ne_nil _ _
      obtain ⟨rest, hrest⟩ : ∃ rest, r.drop (versionPart r).length = rest := ⟨_, rfl⟩
      have hversion : versionPart r ++ rest = r := hrest ▸ versionPart_append r
      have hshort : rest.length < n := by
        have hpos := List.length_pos_iff.mpr hne
        rw [← hn, hcut, ← hversion]
        simp only [List.length_append]
        omega
      rw [splitLoop_token hg hx hname hne hcut hversion, ih _ hshort _ rest _ rfl, hname, hr,
        hrest, List.append_assoc]

/-- `split_server_details` returns the tokens of the text. -/
theorem splitServerDetails_eq (device : List Char) :
    splitServerDetails device = .ok (tokens device) := splitLoop_eq [] device []

/-! ## The regular expression -/

open Re

/-- `(/[^ ,]+)?`. -/
def versionRe : Re Char := alt (group (seq (lit ['/']) (many1 versionChar))) eps

/-- `[^,/]+(/[^ ,]+)?`. -/
def serverRe : Re Char := seq (many1 nameChar) versionRe

/-- The matches of the expression, trimmed, without the blank ones. -/
def serverTokens (s : List Char) : List (List Char) :=
  ((serverRe.findAll s).map fun h => trim h.text).filter (· ≠ [])

/-- The version that the expression matches after a name: a slash alone is none. -/
def hitVersion (r : List Char) : List Char := if versionPart r = ['/'] then [] else versionPart r

/-- What follows the elements of a class at the front of a text. -/
theorem drop_length_takeWhile (p : Char → Bool) (s : List Char) :
    s.drop (s.takeWhile p).length = s.dropWhile p := by
  have hdrop := List.prefix_iff_eq_append.mp (List.takeWhile_prefix (l := s) p)
  exact List.append_cancel_left (hdrop.trans List.takeWhile_append_dropWhile.symm)

/-- After a slash, a version matches if it has a character. -/
theorem first_slash (w : List Char) :
    first (seq (lit ['/']) (many1 versionChar)) ('/' :: w) =
      (first (many1 versionChar) w).map (Hit.andThen ⟨['/'], [], w⟩) := by
  have hslash : first (lit ['/']) ('/' :: w) = some ⟨['/'], [], w⟩ := first_lit_append ['/'] w
  rw [((single_lit ['/']).commits _).first_seq, hslash, Option.bind_some]

/-- The match of the version after a name. -/
theorem first_versionRe (r : List Char) :
    ∃ groups, versionRe.first r =
      some ⟨hitVersion r, groups, r.drop (hitVersion r).length⟩ := by
  rw [versionRe, first_alt, first_group]
  by_cases hslash : r.head? = some '/'
  · obtain ⟨w, rfl⟩ := List.head?_eq_some_iff.mp hslash
    rw [first_slash, hitVersion, versionPart_slash]
    by_cases hnone : w.takeWhile versionChar = []
    · -- A slash alone is no version.
      rw [first_many1_neg hnone, hnone, if_pos rfl]
      exact ⟨[], rfl⟩
    · obtain ⟨a, w, rfl⟩ := List.exists_cons_of_ne_nil fun h : w = [] => hnone (by rw [h]; rfl)
      have ha : versionChar a = true := by
        by_contra hneg
        exact hnone (List.takeWhile_cons_of_neg hneg)
      rw [first_many1_pos ha, if_neg fun h => hnone (List.cons.inj h).2, List.length_cons,
        List.drop_succ_cons, drop_length_takeWhile]
      exact ⟨_, rfl⟩
  · have hnot : ¬ ['/'] <+: r := by
      rintro ⟨w, rfl⟩
      exact hslash rfl
    rw [first, run_seq_lit_neg hnot, hitVersion, versionPart_of_head?_ne hslash, if_neg (by simp)]
    exact ⟨[], rfl⟩

/-- The match of a name and its version. -/
theorem first_serverRe {c : Char} (hc : nameChar c = true) (s : List Char) :
    ∃ groups, serverRe.first (c :: s) =
      some ⟨(c :: s).takeWhile nameChar ++ hitVersion ((c :: s).dropWhile nameChar), groups,
        ((c :: s).dropWhile nameChar).drop
          (hitVersion ((c :: s).dropWhile nameChar)).length⟩ := by
  obtain ⟨groups, hversion⟩ := first_versionRe ((c :: s).dropWhile nameChar)
  exact ⟨_, first_seq_of_first (first_many1_pos hc s) hversion⟩

/-- Where no name starts, there is no match. -/
theorem first_serverRe_neg {c : Char} (hc : nameChar c = false) (s : List Char) :
    serverRe.first (c :: s) = none := by
  rw [serverRe, first, run, many1, run_seq_sym_neg hc]
  rfl

/-! ## The two at a name -/

/-- A space or a tab. -/
def isBlank (c : Char) : Bool := c == ' ' || c == '\t'

/-- The name of a match. -/
def hitName (h : Hit Char) : List Char := h.text.takeWhile nameChar

/-- A match where the scanner slips: a name of spaces and tabs only has a version, or another match
stands right before a slash. -/
def Slips (h : Hit Char) : Prop :=
  if (hitName h).all isBlank then hitName h ≠ h.text else h.rest.head? = some '/'

instance (h : Hit Char) : Decidable (Slips h) :=
  inferInstanceAs (Decidable (if (hitName h).all isBlank then hitName h ≠ h.text
    else h.rest.head? = some '/'))

/-- The text is a name and what follows it. -/
structure NameThen (name r : List Char) : Prop where
  /-- The name is not empty. -/
  ne_nil : name ≠ []
  /-- It is one. -/
  nameChar_of_mem : ∀ c ∈ name, nameChar c = true
  /-- It ends there. -/
  not_nameChar : ∀ c, r.head? = some c → nameChar c = false

variable {name r : List Char}

/-- A text that starts with a name is split after it. -/
theorem NameThen.exists_eq {c : Char} (hc : nameChar c = true) (s : List Char) :
    ∃ name r, c :: s = name ++ r ∧ NameThen name r := by
  refine ⟨(c :: s).takeWhile nameChar, (c :: s).dropWhile nameChar,
    List.takeWhile_append_dropWhile.symm, ?_, fun c' hc' => List.mem_takeWhile_imp hc', ?_⟩
  · rw [List.takeWhile_cons_of_pos hc]
    exact List.cons_ne_nil _ _
  · intro c' hc'
    have := List.head?_dropWhile_not nameChar (c :: s)
    rw [hc'] at this
    simpa using this

/-- The name is what stands before its end, also after a part of it. -/
theorem NameThen.takeWhile_eq (h : NameThen name r) {m : List Char} (hm : m <:+ name) :
    (m ++ r).takeWhile nameChar = m ∧ (m ++ r).dropWhile nameChar = r := by
  have hall : ∀ c ∈ m, nameChar c = true := fun c hc => h.nameChar_of_mem c (hm.subset hc)
  rw [List.takeWhile_append_of_pos hall, List.dropWhile_append_of_pos hall]
  cases r with
  | nil => simp
  | cons c r =>
    have hc := h.not_nameChar c rfl
    rw [List.takeWhile_cons_of_neg (by simp [hc]), List.dropWhile_cons_of_neg (by simp [hc]),
      List.append_nil]
    exact ⟨rfl, rfl⟩

/-- The expression matches the name and its version. -/
theorem NameThen.findAll_eq (h : NameThen name r) :
    ∃ groups, serverRe.findAll (name ++ r) =
      ⟨name ++ hitVersion r, groups, r.drop (hitVersion r).length⟩ ::
        serverRe.findAll (r.drop (hitVersion r).length) := by
  obtain ⟨htake, hdrop⟩ := h.takeWhile_eq List.suffix_rfl
  obtain ⟨c, m, rfl⟩ := List.exists_cons_of_ne_nil h.ne_nil
  obtain ⟨groups, hfirst⟩ :=
    first_serverRe (h.nameChar_of_mem c List.mem_cons_self) (m ++ r)
  rw [← List.cons_append, htake, hdrop] at hfirst
  exact ⟨groups, findAll_of_first hfirst (by simp)⟩

/-- A blank is skipped before a token, and trimmed. -/
theorem of_isBlank {c : Char} (h : isBlank c = true) :
    gapChar c = true ∧ isWhitespace c = true := by
  rcases Bool.or_eq_true_iff.mp h with h | h <;>
    · rw [eq_of_beq h]
      decide

/-- A blank name is skipped. -/
theorem tokens_blank (hblank : name.all isBlank = true) : tokens (name ++ r) = tokens r :=
  tokens_gap (fun c hc => (of_isBlank (List.all_eq_true.mp hblank c hc)).1) r

/-- Another name is taken, with a slash and a version after it. -/
theorem NameThen.tokens_eq (h : NameThen name r) (hblank : ¬ name.all isBlank = true) :
    tokens (name ++ r) =
      unlessBlank (name ++ versionPart r) ++ tokens (r.drop (versionPart r).length) := by
  -- The blanks at the front of the name are skipped, and would be trimmed.
  obtain ⟨b, hb⟩ : ∃ b, b = name.takeWhile isBlank := ⟨_, rfl⟩
  obtain ⟨m, hm⟩ : ∃ m, m = name.dropWhile isBlank := ⟨_, rfl⟩
  have hbm : name = b ++ m := by rw [hb, hm, List.takeWhile_append_dropWhile]
  have hall : ∀ c ∈ b, isBlank c = true := fun c hc => List.mem_takeWhile_imp (hb ▸ hc)
  have htrim : trim (name ++ versionPart r) = trim (m ++ versionPart r) := by
    rw [hbm, List.append_assoc, trim_append_left fun c hc => (of_isBlank (hall c hc)).2]
  have hsuffix : m <:+ name := hbm ▸ List.suffix_append b m
  obtain ⟨htake, hdrop⟩ := h.takeWhile_eq hsuffix
  have hhead := List.head?_dropWhile_not isBlank name
  rw [← hm] at hhead
  cases m with
  | nil =>
    rw [List.append_nil] at hbm
    exact absurd (List.all_eq_true.mpr (hbm ▸ hall)) hblank
  | cons c m =>
    have hc : gapChar c = false := by
      have hname := h.nameChar_of_mem c (hsuffix.subset List.mem_cons_self)
      simp only [nameChar, Bool.not_eq_true', Bool.or_eq_false_iff] at hname
      simp only [List.head?_cons, isBlank, Bool.or_eq_false_iff] at hhead
      simp [gapChar, hname.1, hname.2, hhead.1, hhead.2]
    have hskip := tokens_blank (r := c :: m ++ r) (List.all_eq_true.mpr hall)
    rw [List.cons_append] at hskip htake hdrop
    rw [hbm, List.append_assoc, List.cons_append, hskip, tokens_cons hc, htake, hdrop, ← hbm]
    unfold unlessBlank
    rw [htrim]

/-- The tokens of the expression, after the first match. -/
theorem serverTokens_of_findAll {s rest : List Char} {h : Hit Char}
    (hfind : serverRe.findAll s = h :: serverRe.findAll rest) :
    serverTokens s = unlessBlank h.text ++ serverTokens rest := by
  unfold serverTokens unlessBlank
  rw [hfind, List.map_cons, List.filter_cons]
  split_ifs <;> simp_all

/-- A version starts with a slash. -/
theorem head?_hitVersion {c : Char} (h : (hitVersion r).head? = some c) : c = '/' := by
  unfold hitVersion at h
  by_cases hslash : r.head? = some '/'
  · obtain ⟨w, rfl⟩ := List.head?_eq_some_iff.mp hslash
    rw [versionPart_slash] at h
    split_ifs at h
    · cases h
    · exact (Option.some.inj h).symm
  · rw [versionPart_of_head?_ne hslash, if_neg (by simp)] at h
    cases h

/-- The match stands before a slash if that is no version. -/
theorem head?_drop_hitVersion (r : List Char) :
    (r.drop (hitVersion r).length).head? = some '/' ↔ versionPart r = ['/'] := by
  unfold hitVersion
  by_cases hslash : r.head? = some '/'
  · obtain ⟨w, rfl⟩ := List.head?_eq_some_iff.mp hslash
    split_ifs with hversion
    · exact iff_of_true rfl hversion
    · refine iff_of_false ?_ hversion
      rw [versionPart_slash, List.length_cons, List.drop_succ_cons, drop_length_takeWhile]
      intro hhead
      have hnot := List.head?_dropWhile_not versionChar w
      rw [hhead] at hnot
      exact absurd hnot (by decide)
  · rw [versionPart_of_head?_ne hslash, if_neg (by simp)]
    exact iff_of_false hslash (by simp)

/-- The match slips if the name is blank and has a version, or if the slash is no version. -/
theorem NameThen.slips_iff (h : NameThen name r) (groups : List (List Char)) :
    Slips ⟨name ++ hitVersion r, groups, r.drop (hitVersion r).length⟩ ↔
      if name.all isBlank then hitVersion r ≠ [] else versionPart r = ['/'] := by
  have hversion : NameThen name (hitVersion r) :=
    ⟨h.ne_nil, h.nameChar_of_mem, fun c hc => by rw [head?_hitVersion hc]; rfl⟩
  have hname : hitName ⟨name ++ hitVersion r, groups, r.drop (hitVersion r).length⟩ = name :=
    (hversion.takeWhile_eq List.suffix_rfl).1
  rw [Slips, hname]
  split_ifs
  · exact not_congr List.self_eq_append_right
  · exact head?_drop_hitVersion r

/-! ## When the scanner is the expression -/

/-- The only white space of the text are spaces and tabs. -/
def Plain (s : List Char) : Prop := ∀ c ∈ s, isWhitespace c = true → isBlank c = true

/-- Of a plain text, no token starts with a slash. -/
theorem head?_of_mem_tokens {s : List Char} (hs : Plain s) {t : List Char} (ht : t ∈ tokens s) :
    t.head? ≠ some '/' := by
  induction s using tokens.induct with
  | case1 =>
    rw [tokens] at ht
    cases ht
  | case2 c s hgap ih =>
    rw [tokens, dif_pos hgap] at ht
    exact ih (fun c' hc' => hs c' (List.mem_cons_of_mem _ hc')) ht
  | case3 c s hgap rest ih =>
    have hc : gapChar c = false := by simpa using hgap
    rw [tokens_cons hc] at ht
    rcases List.mem_append.mp ht with ht | ht
    · -- The token starts with the first character of its name.
      have hwhite : isWhitespace c = false := by
        by_contra hwhite
        have hblank := hs c List.mem_cons_self (by simpa using hwhite)
        rw [(of_isBlank hblank).1] at hc
        cases hc
      have htrim := head?_trim hwhite (s.takeWhile nameChar ++
        versionPart ((c :: s).dropWhile nameChar))
      rw [List.takeWhile_cons_of_pos (nameChar_of_gapChar hc), List.cons_append] at ht
      unfold unlessBlank at ht
      split_ifs at ht
      · cases ht
      · rw [List.mem_singleton.mp ht, htrim]
        rintro ⟨rfl⟩
        cases hc
    · refine ih (fun c' hc' => hs c' ?_) ht
      exact (List.dropWhile_suffix _).subset (List.mem_of_mem_drop hc')

/-- A blank text has no token. -/
theorem unlessBlank_blank {t : List Char} (h : t.all isBlank = true) : unlessBlank t = [] :=
  if_pos (trim_eq_nil.mpr fun c hc => (of_isBlank (List.all_eq_true.mp h c hc)).2)

/-- A text with a character that is no white space has a token. -/
theorem unlessBlank_of_mem {t : List Char} {c : Char} (h : c ∈ t) (hc : isWhitespace c = false) :
    unlessBlank t = [trim t] := by
  refine if_neg fun hnil => ?_
  have hmem := mem_trim h hc
  rw [hnil] at hmem
  cases hmem

/-- Where the match does not slip, both take the same token and go on at the same place. -/
theorem NameThen.step (h : NameThen name r)
    (hslip : ¬ if name.all isBlank then hitVersion r ≠ [] else versionPart r = ['/']) :
    ∃ token, tokens (name ++ r) = token ++ tokens (r.drop (hitVersion r).length) ∧
      serverTokens (name ++ r) = token ++ serverTokens (r.drop (hitVersion r).length) := by
  obtain ⟨groups, hfind⟩ := h.findAll_eq
  have hserver := serverTokens_of_findAll hfind
  by_cases hblank : name.all isBlank = true
  · -- The name is skipped, or its match is blank.
    rw [if_pos hblank, not_not] at hslip
    rw [hslip, List.append_nil, unlessBlank_blank hblank] at hserver
    exact ⟨[], by rw [tokens_blank hblank, hslip]; rfl, by rw [hserver, hslip]⟩
  · rw [if_neg hblank] at hslip
    have hversion : hitVersion r = versionPart r := if_neg hslip
    refine ⟨unlessBlank (name ++ versionPart r), ?_, ?_⟩
    · rw [h.tokens_eq hblank, hversion]
    · rw [hserver, hversion]

/-- Where a match in a plain text slips, the tokens are different. -/
theorem NameThen.tokens_ne (h : NameThen name r) (hplain : Plain (name ++ r))
    (hslip : if name.all isBlank then hitVersion r ≠ [] else versionPart r = ['/']) :
    tokens (name ++ r) ≠ serverTokens (name ++ r) := by
  obtain ⟨groups, hfind⟩ := h.findAll_eq
  have hserver := serverTokens_of_findAll hfind
  have hslash : isWhitespace '/' = false := by decide
  intro heq
  by_cases hblank : name.all isBlank = true
  · -- The match is a version without a name, and starts with a slash.
    rw [if_pos hblank] at hslip
    obtain ⟨c, v, hv⟩ := List.exists_cons_of_ne_nil hslip
    obtain rfl : c = '/' := head?_hitVersion (r := r) (by rw [hv]; rfl)
    have hwhite : ∀ c ∈ name, isWhitespace c = true := fun c hc =>
      (of_isBlank (List.all_eq_true.mp hblank c hc)).2
    have hmem : trim ('/' :: v) ∈ tokens (name ++ r) := by
      rw [heq, hserver, hv, unlessBlank_of_mem (c := '/') (by simp) hslash,
        trim_append_left hwhite]
      exact List.mem_append_left _ (List.mem_singleton_self _)
    exact head?_of_mem_tokens hplain hmem (head?_trim hslash v)
  · -- The scanner takes the slash after the name.
    rw [if_neg hblank] at hslip
    obtain ⟨c, hc, hnot⟩ : ∃ c ∈ name, ¬ isBlank c = true := by
      simpa [List.all_eq_true] using hblank
    have hwhite : isWhitespace c = false := by
      by_contra hwhite
      exact hnot (hplain c (List.mem_append_left _ hc) (by simpa using hwhite))
    have hnone : hitVersion r = [] := if_pos hslip
    rw [h.tokens_eq hblank, hserver, hnone, hslip, List.append_nil,
      unlessBlank_of_mem (List.mem_append_left _ hc) hwhite, unlessBlank_of_mem hc hwhite] at heq
    -- The name of the expression has no slash, and so none after trimming.
    have htrim : trim (name ++ ['/']) = trim name := (List.cons.inj heq).1
    have hmem : '/' ∈ trim name := by
      rw [← htrim]
      exact mem_trim (by simp) hslash
    exact absurd (h.nameChar_of_mem '/' (mem_of_mem_trim hmem)) (by decide)

/-- The tokens are those of the expression if no match slips, and in a plain text only then. -/
theorem tokens_eq_serverTokens (s : List Char) :
    ((∀ h ∈ serverRe.findAll s, ¬ Slips h) → tokens s = serverTokens s) ∧
      (Plain s → tokens s = serverTokens s → ∀ h ∈ serverRe.findAll s, ¬ Slips h) := by
  induction hn : s.length using Nat.strongRecOn generalizing s with
  | ind n ih =>
    cases s with
    | nil =>
      have hfind : serverRe.findAll [] = [] := by
        unfold findAll
        rfl
      rw [serverTokens, hfind, tokens]
      exact ⟨fun _ => rfl, fun _ _ h hh => absurd hh List.not_mem_nil⟩
    | cons c s =>
      cases hc : nameChar c with
      | false =>
        -- Both skip the separator.
        have hgap : gapChar c = true := by
          by_contra hgap
          rw [nameChar_of_gapChar (by simpa using hgap)] at hc
          cases hc
        have htokens : tokens (c :: s) = tokens s :=
          tokens_gap (g := [c]) (by simpa using hgap) s
        have hfind := findAll_cons (first_serverRe_neg hc s)
        obtain ⟨heq, hslips⟩ := ih s.length (by rw [← hn, List.length_cons]; omega) s rfl
        rw [htokens, serverTokens, hfind]
        exact ⟨heq, fun hplain => hslips fun c' hc' => hplain c' (List.mem_cons_of_mem _ hc')⟩
      | true =>
        obtain ⟨name, r, hs, hname⟩ := NameThen.exists_eq hc s
        obtain ⟨groups, hfind⟩ := hname.findAll_eq
        have hslip := hname.slips_iff groups
        rw [hs] at hn ⊢
        rw [hfind, List.forall_mem_cons, hslip]
        by_cases hslips : if name.all isBlank then hitVersion r ≠ [] else versionPart r = ['/']
        · exact ⟨fun h => absurd hslips h.1, fun hplain heq =>
            absurd heq (hname.tokens_ne hplain hslips)⟩
        · -- The rest is shorter.
          obtain ⟨token, htokens, hserver⟩ := hname.step hslips
          have hshort : (r.drop (hitVersion r).length).length < n := by
            have hpos := List.length_pos_iff.mpr hname.ne_nil
            rw [← hn, List.length_append, List.length_drop]
            omega
          obtain ⟨heq, hrest⟩ := ih _ hshort _ rfl
          rw [htokens, hserver, List.append_cancel_left_eq]
          refine ⟨fun h => heq h.2, fun hplain htail => ⟨hslips, hrest (fun c hc => ?_) htail⟩⟩
          exact hplain c (List.mem_append_right _ (List.mem_of_mem_drop hc))

/-- In a text with other white space, two slips can cancel out. -/
example : tokens " /\n / b".toList = serverTokens " /\n / b".toList := by decide +kernel

/-! ## The device -/

/-- `extract_http_var` returns. -/
theorem extractHttpVar_ok (data name : List Char) :
    ∃ value, extractHttpVar data name = .ok value := by
  unfold extractHttpVar
  induction (lines data).drop 1 with
  | nil => exact ⟨[], rfl⟩
  | cons line rest ih =>
    unfold findVar
    by_cases h : ':' ∈ line
    · obtain ⟨u, v, rfl, hu⟩ := List.eq_append_cons_of_mem h
      obtain ⟨hkey, hvalue⟩ := cut_at (ε := Empty) (show ':'.toNat < 128 by decide) u v
      rw [strFind_singleton_append hu v]
      dsimp only
      rw [hkey, Res.ok_bind, hvalue, Res.ok_bind]
      split_ifs
      · exact ⟨_, rfl⟩
      · exact ih
    · rw [strFind_eq_none h]
      exact ih

/-- `extract_uuid` returns. -/
theorem extractUuid_ok (usn : List Char) : ∃ uuid, extractUuid usn = .ok uuid := by
  unfold extractUuid splitFirst
  cases hfind : strFind "::".toList usn with
  | none => exact ⟨_, rfl⟩
  | some i =>
    obtain ⟨u, w, -, hslice, -⟩ := exists_cut_of_strFind (ε := Empty) hfind
    dsimp only
    rw [hslice]
    exact ⟨_, rfl⟩

/-- A token is trimmed and not empty. -/
theorem trim_of_mem_serverTokens {s t : List Char} (h : t ∈ serverTokens s) :
    trim t = t ∧ t ≠ [] := by
  obtain ⟨hmem, hne⟩ := List.mem_filter.mp h
  obtain ⟨hit, -, rfl⟩ := List.mem_map.mp hmem
  exact ⟨trim_trim _, by simpa using hne⟩

/-- The type that is reported for the tokens of a header. -/
theorem typeOf_eq (server : List Char) :
    (if trim ((serverTokens server).getLast?.getD []) = [] then "anonymous".toList
      else trim ((serverTokens server).getLast?.getD [])) =
      (serverTokens server).getLast?.getD "anonymous".toList := by
  cases hlast : (serverTokens server).getLast? with
  | none => rfl
  | some t =>
    obtain ⟨htrim, hne⟩ := trim_of_mem_serverTokens (List.mem_of_getLast? hlast)
    rw [Option.getD_some, Option.getD_some, htrim, if_neg hne]

/-- The type of a device is the last token of the header of its server, if no match slips there. -/
theorem parse_deviceType (src : SocketAddr) (data : List UInt8) :
    ∃ usn server, extractHttpVar (fromUtf8Lossy data) "USN".toList = .ok usn ∧
      extractHttpVar (fromUtf8Lossy data) "SERVER".toList = .ok server ∧
      (usn = [] → parse src data = .ok []) ∧
      (usn ≠ [] → (∀ h ∈ serverRe.findAll server, ¬ Slips h) →
        ∃ device, parse src data = .ok [device] ∧
          device.deviceType = (serverTokens server).getLast?.getD "anonymous".toList) := by
  obtain ⟨usn, husn⟩ := extractHttpVar_ok (fromUtf8Lossy data) "USN".toList
  obtain ⟨server, hserver⟩ := extractHttpVar_ok (fromUtf8Lossy data) "SERVER".toList
  obtain ⟨serial, hserial⟩ := extractUuid_ok usn
  refine ⟨usn, server, husn, hserver, fun hnil => ?_, fun hne hslips => ?_⟩
  · unfold parse
    dsimp only
    rw [husn, Res.ok_bind, if_pos hnil]
    rfl
  · have htokens := (tokens_eq_serverTokens server).1 hslips
    unfold parse
    dsimp only
    rw [husn, Res.ok_bind, if_neg hne, hserver, Res.ok_bind, splitServerDetails_eq, Res.ok_bind,
      hserial, Res.ok_bind, htokens, typeOf_eq]
    exact ⟨_, rfl, rfl⟩

/-- For every text the scanner returns the tokens of the expression if none of its matches slips,
and in a text with no other white space than spaces and tabs only then. So the type of a device is
the last token of the header of its server, or a word, if no match slips there. -/
theorem splitServerDetails_iff (src : SocketAddr) (data : List UInt8) (device : List Char) :
    ((∀ h ∈ serverRe.findAll device, ¬ Slips h) →
        splitServerDetails device = .ok (serverTokens device)) ∧
      (Plain device → (splitServerDetails device = .ok (serverTokens device) ↔
        ∀ h ∈ serverRe.findAll device, ¬ Slips h)) ∧
      ∃ usn server, extractHttpVar (fromUtf8Lossy data) "USN".toList = .ok usn ∧
        extractHttpVar (fromUtf8Lossy data) "SERVER".toList = .ok server ∧
        (usn = [] → parse src data = .ok []) ∧
        (usn ≠ [] → (∀ h ∈ serverRe.findAll server, ¬ Slips h) →
          ∃ device, parse src data = .ok [device] ∧
            device.deviceType = (serverTokens server).getLast?.getD "anonymous".toList) := by
  obtain ⟨heq, hslips⟩ := tokens_eq_serverTokens device
  rw [splitServerDetails_eq, Res.ok.injEq]
  exact ⟨heq, fun hplain => ⟨hslips hplain, heq⟩, parse_deviceType src data⟩

/-- In a header with versions after all names, no match slips. -/
theorem splitServerDetails_iff_upnp :
    (∀ h ∈ serverRe.findAll "UPnP/1.0 IP/1.00".toList, ¬ Slips h) ∧
      splitServerDetails "UPnP/1.0 IP/1.00".toList =
        .ok ["UPnP/1.0".toList, "IP/1.00".toList] := by
  have hslips : ∀ h ∈ serverRe.findAll "UPnP/1.0 IP/1.00".toList, ¬ Slips h := by decide +kernel
  refine ⟨hslips, ?_⟩
  rw [(splitServerDetails_iff ⟨.v4 .unspecified, 1900⟩ [] _).1 hslips]
  decide +kernel

/-- The scanner takes a slash without a version, and drops the slash of a version without a name. -/
theorem splitServerDetails_slips :
    splitServerDetails "a/".toList ≠ .ok (serverTokens "a/".toList) ∧
      splitServerDetails " /1".toList ≠ .ok (serverTokens " /1".toList) := by
  rw [splitServerDetails_eq, splitServerDetails_eq]
  decide +kernel

end Uscan.Ssdp
