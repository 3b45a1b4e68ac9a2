import Uscan.Protocols.Text
import Uscan.Lib.Capture
import Uscan.Lib.Scan

/-!
# The Eaton matcher and its regular expression

The engine looks for the objects of an answer with a matcher written by hand, in place of the
expression `objectRe`. Up to the quote before the name the matcher follows the expression step by
step (`matchTag_follows`). It then cuts out as many bytes as the wanted name has, before it knows
that the name stands there, and panics where that cut falls inside a character. `Unsplit` says that
this does not happen up to the leftmost match; precisely then the matcher extracts what the
expression captures (`extractObjectEntry_eq_ok_iff`), and `parse` returns precisely if this holds
for each name that it looks for (`extract_parse_total_iff`).
-/

namespace Uscan.Eaton

open Re

/-- ` +name *= *"`. -/
def nameAttribute : Re Char :=
  seq (many1 (· == ' ')) <| seq (lit "name".toList) <| seq (many (· == ' ')) <|
    seq (lit ['=']) <| seq (many (· == ' ')) (lit ['"'])

/-- `<OBJECT +name *= *"`. -/
def opening : Re Char := seq (lit "<OBJECT".toList) nameAttribute

/-- `([^<]*)</OBJECT>`. -/
def content : Re Char := seq (group (many (· != '<'))) (lit "</OBJECT>".toList)

/-- `<OBJECT +name *= *"{name}">([^<]*)</OBJECT>`. -/
def objectRe (name : List Char) : Re Char :=
  seq opening (seq (lit name) (seq (lit ['"', '>']) content))

/-- The text starts like the expression up to the quote before the name, and as many bytes as the
name has end inside a character after it. -/
def Splits (name s : List Char) : Prop :=
  ∃ h ∈ first opening s, byteLen name ≤ byteLen h.rest ∧ splitAtByte h.rest (byteLen name) = none

/-- No place of the text splits, from the front up to the leftmost match. -/
def Unsplit (name : List Char) : List Char → Prop
  | [] => True
  | c :: s =>
    ¬ Splits name (c :: s) ∧ (first (objectRe name) (c :: s) = none → Unsplit name s)

/-! ## The steps of the matcher -/

/-- A part of the matcher, in terms of the text before and after the byte where it starts. -/
def cut (f : List Char → ℕ → Res Empty (Option (List Char))) (u v : List Char) :
    Res Empty (Option (List Char)) :=
  f (u ++ v) (byteLen u)

/-- The part after `<OBJECT`. -/
def matchTag (name xml : List Char) (i : ℕ) : Res Empty (Option (List Char)) :=
  if skipSpaces xml i = i then .ok none
  else do
    let named ← startsWithAt xml (skipSpaces xml i) "name".toList
    if !named then return none else matchName xml (skipSpaces xml (skipSpaces xml i + 4)) name

/-- The part after the quote before the name. -/
def matchValue (name xml : List Char) (i : ℕ) : Res Empty (Option (List Char)) :=
  if i + byteLen name > byteLen xml then .ok none
  else do
    let found ← strSlice xml i (i + byteLen name)
    if found ≠ name then return none
    else
      let ends ← startsWithAt xml (i + byteLen name) ['"', '>']
      if !ends then return none else objectText xml (i + byteLen name + 2)

variable {name : List Char}

/-- A comparison after a part of the text. -/
theorem startsWithAt_cut (u v pat : List Char) :
    startsWithAt (u ++ v) (byteLen u) pat = .ok (pat.isPrefixOf v) := by
  rw [startsWithAt, strFrom_append]
  rfl

/-- A comparison follows the text that it compares with. -/
theorem follows_startsWith (w : List Char) (f : List Char → ℕ → Res Empty (Option (List Char))) :
    Follows (.ok none) (lit w)
      (cut fun xml i => do
        let found ← startsWithAt xml i w
        if !found then return none else f xml (i + byteLen w))
      (cut f) := by
  refine follows_lit (fun u t => ?_) fun u v h => ?_
  · have hpos : w.isPrefixOf (w ++ t) = true := List.isPrefixOf_iff_prefix.mpr ⟨t, rfl⟩
    rw [cut, startsWithAt_cut, hpos, cut, byteLen_append, List.append_assoc]
    rfl
  · have hneg : w.isPrefixOf v = false := by
      simpa [← List.isPrefixOf_iff_prefix] using h
    rw [cut, startsWithAt_cut, hneg]
    rfl

/-- A loop over spaces follows their repetition. -/
theorem follows_skipSpaces (f : List Char → ℕ → Res Empty (Option (List Char))) :
    Follows (.ok none) (many (· == ' ')) (cut fun xml i => f xml (skipSpaces xml i)) (cut f) := by
  refine follows_many fun u v => ?_
  rw [cut, cut, skipSpaces, skipWhile_ascii_cut (by decide), List.append_assoc,
    List.takeWhile_append_dropWhile]

/-- So does a loop over spaces that must find one. -/
theorem follows_skipSpaces1 (f : List Char → ℕ → Res Empty (Option (List Char))) :
    Follows (.ok none) (many1 (· == ' '))
      (cut fun xml i => if skipSpaces xml i = i then .ok none else f xml (skipSpaces xml i))
      (cut f) := by
  refine follows_many1 (fun u v h => ?_) fun u v h => ?_
  · have hpos := byteLen_pos h
    rw [cut, cut, skipSpaces, skipWhile_ascii_cut (by decide),
      if_neg (by rw [byteLen_append]; omega), List.append_assoc, List.takeWhile_append_dropWhile]
  · rw [cut, skipSpaces, skipWhile_ascii_cut (by decide), h, List.append_nil, if_pos rfl]

/-- Spaces before a quote need no backtracking. -/
theorem commits_quote : Commits (many (· == ' ')) (lit ['"']) :=
  commits_many fun a t ha => by rw [beq_iff_eq.mp ha, run_lit_cons_neg (by decide)]

/-- Spaces before an equals sign need none. -/
theorem commits_equals (q : Re Char) : Commits (many (· == ' ')) (seq (lit ['=']) q) :=
  commits_many fun a t ha => by rw [beq_iff_eq.mp ha, run_seq_lit_cons_neg (by decide)]

/-- Spaces before the name of the attribute need none. -/
theorem commits_name (q : Re Char) : Commits (many1 (· == ' ')) (seq (lit "name".toList) q) :=
  commits_many1 fun a t ha => by rw [beq_iff_eq.mp ha, run_seq_lit_neg (by simp)]

/-- Up to the quote before the name, the matcher follows the expression. -/
theorem matchTag_follows (name : List Char) :
    Follows (.ok none) nameAttribute (cut (matchTag name)) (cut (matchValue name)) := by
  have hname : byteLen "name".toList = 4 := by decide +kernel
  refine (follows_skipSpaces1 fun xml i => do
    let named ← startsWithAt xml i "name".toList
    if !named then return none else matchName xml (skipSpaces xml (i + 4)) name).seq ?_
    (commits_name _)
  rw [← hname]
  refine (follows_startsWith _ fun xml i => matchName xml (skipSpaces xml i) name).seq ?_
    ((single_lit _).commits _)
  refine (follows_skipSpaces fun xml i => matchName xml i name).seq ?_ (commits_equals _)
  refine (follows_startsWith _ fun xml i => do
    let quote ← startsWithAt xml (skipSpaces xml i) ['"']
    if !quote then return none else matchValue name xml (skipSpaces xml i + 1)).seq ?_
    ((single_lit _).commits _)
  exact (follows_skipSpaces fun xml i => do
    let quote ← startsWithAt xml i ['"']
    if !quote then return none else matchValue name xml (i + 1)).seq
    (follows_startsWith _ (matchValue name)) commits_quote

/-- The expression up to the quote before the name matches in at most one way. -/
theorem single_opening : Single opening :=
  ((single_lit _).commits _).single <| (commits_name _).single <|
    ((single_lit _).commits _).single <| (commits_equals _).single <|
      ((single_lit _).commits _).single <| commits_quote.single (single_lit _)

/-! ## The content -/

/-- Up to the first place of a character, or to the end. -/
theorem getD_strFind (c : Char) (s : List Char) :
    (strFind [c] s).getD (byteLen s) = byteLen (s.takeWhile (· != c)) := by
  cases hfind : strFind [c] s with
  | none =>
    have hall : ∀ x ∈ s, (x != c) = true := fun x hx => by
      simpa using ne_of_mem_of_not_mem hx (notMem_of_strFind hfind)
    rw [List.takeWhile_eq_self_iff.mpr hall]
    rfl
  | some n =>
    obtain ⟨u, v, rfl, rfl, hmem⟩ := exists_of_strFind_singleton hfind
    have hall : ∀ x ∈ u, (x != c) = true := fun x hx => by
      simpa using ne_of_mem_of_not_mem hx hmem
    rw [List.takeWhile_append_of_pos hall, List.takeWhile_cons_of_neg (by simp), List.append_nil]
    rfl

/-- What the expression captures of the content. -/
theorem captureAt_content (s : List Char) :
    captureAt content s =
      if "</OBJECT>".toList <+: s.dropWhile (· != '<') then some (s.takeWhile (· != '<'))
      else none :=
  captureAt_group_many rfl "/OBJECT>".toList s

/-- The matcher extracts what the expression captures of the content. -/
theorem objectText_cut (u v : List Char) :
    objectText (u ++ v) (byteLen u) = .ok (captureAt content v) := by
  have hstop : byteLen u + (strFind ['<'] v).getD (byteLen (u ++ v) - byteLen u) =
      byteLen (u ++ v.takeWhile (· != '<')) := by
    rw [byteLen_append, Nat.add_sub_cancel_left, getD_strFind, byteLen_append]
  have hsplit : u ++ v = u ++ v.takeWhile (· != '<') ++ v.dropWhile (· != '<') := by
    rw [List.append_assoc, List.takeWhile_append_dropWhile]
  rw [objectText, strFrom_append, Res.ok_bind]
  dsimp only
  rw [hstop, hsplit, startsWithAt_cut, Res.ok_bind, captureAt_content, byteLen_append,
    strSlice_append]
  by_cases h : "</OBJECT>".toList <+: v.dropWhile (· != '<')
  · rw [if_pos (List.isPrefixOf_iff_prefix.mpr h), if_pos h]
    rfl
  · rw [if_neg (by rwa [List.isPrefixOf_iff_prefix]), if_neg h]
    rfl

/-! ## The name -/

/-- After the name the matcher extracts what the expression captures from the end of the tag on. -/
theorem tagEnd_cut (u w : List Char) :
    (do
      let ends ← startsWithAt (u ++ w) (byteLen u) ['"', '>']
      if !ends then return none else objectText (u ++ w) (byteLen u + 2)) =
      (.ok (captureAt (seq (lit ['"', '>']) content) w) : Res Empty (Option (List Char))) := by
  rw [startsWithAt_cut, Res.ok_bind]
  by_cases hends : ['"', '>'] <+: w
  · obtain ⟨t, rfl⟩ := hends
    have hcontent : byteLen u + 2 = byteLen (u ++ ['"', '>']) := by
      rw [byteLen_append]
      rfl
    rw [if_neg (by simp), ← List.append_assoc, hcontent, objectText_cut, captureAt_lit_append]
  · rw [if_pos (by simpa [← List.isPrefixOf_iff_prefix] using hends), captureAt_lit_neg hends]
    rfl

/-- Where the cut does not fall inside a character, the matcher extracts what the expression
captures from the name on. -/
theorem matchValue_cut {v : List Char}
    (h : ¬ (byteLen name ≤ byteLen v ∧ splitAtByte v (byteLen name) = none)) (u : List Char) :
    matchValue name (u ++ v) (byteLen u) =
      .ok (captureAt (seq (lit name) (seq (lit ['"', '>']) content)) v) := by
  unfold matchValue
  by_cases hlong : byteLen u + byteLen name > byteLen (u ++ v)
  · -- The rest of the text is shorter than the name.
    have hneg : ¬ name <+: v := by
      rintro ⟨t, rfl⟩
      simp only [byteLen_append] at hlong
      omega
    rw [if_pos hlong, captureAt_lit_neg hneg]
  rw [byteLen_append] at hlong
  obtain ⟨⟨found, w⟩, hsplit⟩ := Option.ne_none_iff_exists'.mp fun hnone => h ⟨by omega, hnone⟩
  obtain ⟨rfl, hlen⟩ := eq_of_splitAtByte hsplit
  rw [if_neg (by rwa [byteLen_append]), strSlice_cut, hsplit]
  dsimp only
  rw [Res.ok_bind]
  by_cases hname : found = name
  · subst hname
    have htext : u ++ (found ++ w) = u ++ found ++ w := (List.append_assoc u found w).symm
    rw [if_neg (by simp), htext, ← byteLen_append, captureAt_lit_append]
    exact tagEnd_cut (u ++ found) w
  · -- Another text as long as the name stands there.
    have hneg : ¬ name <+: found ++ w := by
      intro hprefix
      obtain ⟨t, ht⟩ := hprefix
      have hcut := splitAtByte_append name t
      rw [ht, hsplit] at hcut
      exact hname (Prod.mk.inj (Option.some.inj hcut)).1
    rw [if_pos hname, captureAt_lit_neg hneg]
    rfl

/-- Where it does, the matcher panics. -/
theorem matchValue_split {v : List Char} (hle : byteLen name ≤ byteLen v)
    (hnone : splitAtByte v (byteLen name) = none) (u : List Char) :
    matchValue name (u ++ v) (byteLen u) = .panicked := by
  rw [matchValue, if_neg (by rw [byteLen_append]; omega), strSlice_cut, hnone]
  rfl

/-! ## An object -/

/-- What the matcher makes of a place where `<OBJECT` stands, in terms of the match of the
expression up to the quote before the name. -/
theorem matchObject_opening (name u : List Char) {v : List Char} (hv : "<OBJECT".toList <+: v) :
    matchObject (u ++ v) (byteLen u) name =
      (first opening v).elim (.ok none) fun h =>
        matchValue name (u ++ h.text ++ h.rest) (byteLen (u ++ h.text)) := by
  obtain ⟨t, rfl⟩ := hv
  have hfollows := matchTag_follows name (u ++ "<OBJECT".toList) t
  have hfirst : first opening ("<OBJECT".toList ++ t) =
      (first nameAttribute t).map (Hit.andThen ⟨"<OBJECT".toList, [], t⟩) := by
    rw [first, opening, run_seq_lit_append, List.head?_map]
    rfl
  rw [cut, byteLen_append, List.append_assoc] at hfollows
  rw [hfirst]
  refine Eq.trans hfollows ?_
  cases first nameAttribute t with
  | none => rfl
  | some h =>
    rw [Option.elim_some, Option.map_some, Option.elim_some, cut, Hit.andThen, List.append_assoc u]

/-- Where nothing splits, the matcher extracts what the expression captures. -/
theorem matchObject_eq_ok {v : List Char} (hv : "<OBJECT".toList <+: v) (h : ¬ Splits name v)
    (u : List Char) :
    matchObject (u ++ v) (byteLen u) name = .ok (captureAt (objectRe name) v) := by
  rw [matchObject_opening name u hv, captureAt, objectRe, (single_opening.commits _).first_seq]
  cases hfirst : first opening v with
  | none => rfl
  | some x =>
    have hgroups : x.groups = [] :=
      List.length_eq_zero_iff.mp (length_groups (by simp [opening, nameAttribute, arity, arity_lit,
        many1]) (List.mem_of_mem_head? hfirst))
    rw [Option.elim_some, Option.bind_some, matchValue_cut (fun hcut => h ⟨x, hfirst, hcut⟩),
      Option.bind_map, captureAt]
    simp only [Function.comp_def, Hit.andThen, hgroups, List.nil_append]

/-- Where it splits, the matcher panics. -/
theorem matchObject_split {v : List Char} (hv : "<OBJECT".toList <+: v) (h : Splits name v)
    (u : List Char) : matchObject (u ++ v) (byteLen u) name = .panicked := by
  obtain ⟨x, hfirst, hle, hnone⟩ := h
  rw [matchObject_opening name u hv, hfirst, Option.elim_some, matchValue_split hle hnone]

/-! ## The search -/

/-- Where `<OBJECT` does not stand, the expression does not match and nothing splits. -/
theorem first_of_not_opening {s : List Char} (h : ¬ "<OBJECT".toList <+: s) (name : List Char) :
    first (objectRe name) s = none ∧ ¬ Splits name s := by
  have hnone : first opening s = none := by
    rw [first, opening, run_seq_lit_neg h]
    rfl
  refine ⟨?_, ?_⟩
  · rw [objectRe, (single_opening.commits _).first_seq, hnone]
    rfl
  · rintro ⟨x, hx, -⟩
    rw [hnone] at hx
    cases hx

/-- The expression captures something wherever it matches. -/
theorem captureAt_objectRe_eq_none_iff (name s : List Char) :
    captureAt (objectRe name) s = none ↔ first (objectRe name) s = none := by
  have harity : (objectRe name).arity = some 1 := by
    simp [objectRe, opening, nameAttribute, content, arity, arity_lit, many1]
  exact captureAt_eq_none_iff harity

/-- A place without a match that does not split is passed over. -/
theorem unsplit_cons {c : Char} {s : List Char} (hsplit : ¬ Splits name (c :: s))
    (hfirst : first (objectRe name) (c :: s) = none) :
    (Unsplit name (c :: s) ↔ Unsplit name s) ∧
      capture (objectRe name) (c :: s) = capture (objectRe name) s := by
  constructor
  · exact ⟨fun h => h.2 hfirst, fun h => ⟨hsplit, fun _ => h⟩⟩
  · rw [capture, capture, search_cons hfirst]
    cases search (objectRe name) s <;> rfl

/-- A stretch where `<OBJECT` does not stand is passed over. -/
theorem unsplit_skip {a b : List Char}
    (h : ∀ a', a' <:+ a → a' ≠ [] → ¬ "<OBJECT".toList <+: a' ++ b) (name : List Char) :
    (Unsplit name (a ++ b) ↔ Unsplit name b) ∧
      capture (objectRe name) (a ++ b) = capture (objectRe name) b := by
  induction a with
  | nil => exact ⟨Iff.rfl, rfl⟩
  | cons c a ih =>
    obtain ⟨hunsplit, hcaptured⟩ := ih fun a' ha' => h a' (ha'.trans (List.suffix_cons c a))
    obtain ⟨hfirst, hsplit⟩ :=
      first_of_not_opening (h (c :: a) List.suffix_rfl (List.cons_ne_nil c a)) name
    obtain ⟨hunsplit', hcaptured'⟩ := unsplit_cons hsplit hfirst
    exact ⟨hunsplit'.trans hunsplit, hcaptured'.trans hcaptured⟩

/-- A place with a match that does not split ends the search. -/
theorem unsplit_of_capture {c : Char} {s t : List Char} (hsplit : ¬ Splits name (c :: s))
    (h : captureAt (objectRe name) (c :: s) = some t) :
    Unsplit name (c :: s) ∧ capture (objectRe name) (c :: s) = some t := by
  refine ⟨⟨hsplit, fun hnone => ?_⟩, capture_of_captureAt h⟩
  rw [(captureAt_objectRe_eq_none_iff name _).mpr hnone] at h
  cases h

/-- The search of the matcher after any part of the text. The induction is on the length of the
rest: the search goes on after the first character of a place that did not match. -/
theorem extractObjectLoop_eq_ok_iff (name u v : List Char) (x : Option (List Char)) :
    extractObjectLoop (u ++ v) name (byteLen u) = .ok x ↔
      Unsplit name v ∧ x = capture (objectRe name) v := by
  induction hlen : v.length using Nat.strongRecOn generalizing u v with
  | ind n ih =>
    rw [extractObjectLoop, dif_pos (by rw [byteLen_append]; omega), strFrom_append, Res.ok_bind]
    cases hfind : strFind "<OBJECT".toList v with
    | none =>
      -- No place of the rest is a candidate.
      have hskip := @unsplit_skip v []
        (fun v' hv' _ => by rw [List.append_nil]; exact not_prefix_of_strFind hfind hv') name
      rw [List.append_nil] at hskip
      have hnone : capture (objectRe name) v = none := hskip.2.trans rfl
      rw [hskip.1, hnone]
      simp [Unsplit, eq_comm]
    | some off =>
      obtain ⟨a, b, rfl, rfl, hfound⟩ := exists_of_strFind hfind
      obtain ⟨b', rfl⟩ : ∃ b', b = '<' :: b' := by
        obtain ⟨t, rfl⟩ := hfound.here
        exact ⟨"OBJECT".toList ++ t, rfl⟩
      have hskip := unsplit_skip hfound.not_before name
      have hobject : matchObject (u ++ (a ++ '<' :: b')) (byteLen u + byteLen a) name =
          matchObject (u ++ a ++ '<' :: b') (byteLen (u ++ a)) name := by
        rw [byteLen_append, List.append_assoc]
      dsimp only
      rw [hobject, hskip.1, hskip.2]
      by_cases hsplit : Splits name ('<' :: b')
      · -- The candidate makes the matcher panic.
        have hnot : ¬ Unsplit name ('<' :: b') := fun h => h.1 hsplit
        rw [matchObject_split hfound.here hsplit, Res.panicked_bind]
        simp [hnot]
      rw [matchObject_eq_ok hfound.here hsplit, Res.ok_bind]
      cases hcapture : captureAt (objectRe name) ('<' :: b') with
      | some t =>
        obtain ⟨hunsplit, hcaptured⟩ := unsplit_of_capture hsplit hcapture
        rw [hcaptured]
        simp [hunsplit, eq_comm]
      | none =>
        -- The candidate fails, and the search goes on after its first character.
        have hquote : byteLen u + byteLen a + 1 = byteLen (u ++ a ++ ['<']) := by
          rw [byteLen_append, byteLen_append, byteLen_ascii (by decide)]
        have htext : u ++ (a ++ '<' :: b') = u ++ a ++ ['<'] ++ b' := by simp
        have hrest := ih b'.length (by rw [← hlen]; simp; omega) (u ++ a ++ ['<']) b' rfl
        obtain ⟨hunsplit, hcaptured⟩ :=
          unsplit_cons hsplit ((captureAt_objectRe_eq_none_iff name _).mp hcapture)
        dsimp only
        rw [hquote, htext, hrest, hunsplit, hcaptured]

/-- The matcher extracts what the expression captures exactly when nothing splits up to the leftmost
match. -/
theorem extractObjectEntry_eq_ok_iff (name xml : List Char) (x : Option (List Char)) :
    extractObjectEntry xml name = .ok x ↔ Unsplit name xml ∧ x = capture (objectRe name) xml :=
  extractObjectLoop_eq_ok_iff name [] xml x

/-! ## The packet -/

/-- Nothing splits for the names that `parse` looks for: that of the description, that of the
product if there is no description, and that of the serial number if there is one of them. -/
structure ParseUnsplit (xml : List Char) : Prop where
  /-- The description comes first. -/
  description : Unsplit "System.Description".toList xml
  /-- The name of the product stands in for it. -/
  product : capture (objectRe "System.Description".toList) xml = none →
    Unsplit "UPS.PowerSummary.iProduct".toList xml
  /-- A device has a serial number. -/
  serial : (capture (objectRe "System.Description".toList) xml <|>
      capture (objectRe "UPS.PowerSummary.iProduct".toList) xml) ≠ none →
    Unsplit "UPS.PowerSummary.iSerialNumber".toList xml

/-- What follows an extraction is reached exactly when nothing splits, with what the leftmost match
captures. -/
theorem exists_extract_bind_iff (name xml : List Char)
    (f : Option (List Char) → Res Empty (List Device)) :
    (∃ devs, (extractObjectEntry xml name >>= f) = .ok devs) ↔
      Unsplit name xml ∧ ∃ devs, f (capture (objectRe name) xml) = .ok devs := by
  constructor
  · rintro ⟨devs, h⟩
    obtain ⟨x, hentry, hf⟩ := Res.bind_eq_ok.mp h
    obtain ⟨hunsplit, rfl⟩ := (extractObjectEntry_eq_ok_iff name xml x).mp hentry
    exact ⟨hunsplit, devs, hf⟩
  · rintro ⟨hunsplit, devs, hf⟩
    have hentry := (extractObjectEntry_eq_ok_iff name xml _).mpr ⟨hunsplit, rfl⟩
    exact ⟨devs, by rw [hentry, Res.ok_bind, hf]⟩

/-- The parser returns exactly when nothing splits for the names that it looks for. -/
theorem parse_eq_ok_iff (src : SocketAddr) (data : List UInt8) :
    (∃ devs, parse src data = .ok devs) ↔ ParseUnsplit (fromUtf8Lossy data) := by
  unfold parse
  generalize fromUtf8Lossy data = xml
  have hserial (f : Option (List Char) → List Device) :
      (∃ devs, (do
        let serial ← extractObjectEntry xml "UPS.PowerSummary.iSerialNumber".toList
        return f serial) = Res.ok devs) ↔
        Unsplit "UPS.PowerSummary.iSerialNumber".toList xml :=
    (exists_extract_bind_iff _ xml _).trans (and_iff_left ⟨_, rfl⟩)
  dsimp only
  rw [exists_extract_bind_iff]
  -- A description is a model; the product is looked for only without one.
  cases hdesc : capture (objectRe "System.Description".toList) xml with
  | some model =>
    simp only [Res.ok_bind]
    rw [hserial]
    constructor
    · rintro ⟨hd, hs⟩
      exact ⟨hd, fun hnone => (nomatch hdesc.symm.trans hnone), fun _ => hs⟩
    · intro h
      exact ⟨h.description, h.serial (by rw [hdesc]; exact Option.some_ne_none model)⟩
  | none =>
    dsimp only
    rw [exists_extract_bind_iff]
    cases hprod : capture (objectRe "UPS.PowerSummary.iProduct".toList) xml with
    | some model =>
      simp only
      rw [hserial]
      constructor
      · rintro ⟨hd, hp, hs⟩
        exact ⟨hd, fun _ => hp, fun _ => hs⟩
      · intro h
        refine ⟨h.description, h.product hdesc, h.serial ?_⟩
        rw [hdesc, hprod]
        exact Option.some_ne_none model
    | none =>
      constructor
      · rintro ⟨hd, hp, -⟩
        exact ⟨hd, fun _ => hp, fun h => absurd (by rw [hdesc, hprod]; rfl) h⟩
      · intro h
        exact ⟨h.description, h.product hdesc, _, rfl⟩

/-- For every text and every name, the matcher returns what the leftmost match of the expression
captures exactly when nothing splits up to that match; and the parser returns exactly when nothing
splits for the names that it looks for. -/
theorem extract_parse_total_iff (name xml : List Char) (src : SocketAddr) (data : List UInt8) :
    (extractObjectEntry xml name = .ok (capture (objectRe name) xml) ↔ Unsplit name xml) ∧
    ((∃ devs, parse src data = .ok devs) ↔ ParseUnsplit (fromUtf8Lossy data)) := by
  refine ⟨?_, parse_eq_ok_iff src data⟩
  rw [extractObjectEntry_eq_ok_iff]
  exact and_iff_left rfl

/-- A text with another name, whose last letter is not ASCII, where the one of the description is
looked for. -/
def splitXml : List Char := "<OBJECT name=\"System.Descriptioé\">".toList

/-- The end of the name that is looked for falls inside that letter. -/
theorem parse_splitXml :
    extractObjectEntry splitXml "System.Description".toList = .panicked ∧
      parse ⟨.v4 .unspecified, 4679⟩ (utf8 splitXml) = .panicked := by
  constructor
  · decide +kernel
  · decide +kernel

end Uscan.Eaton
