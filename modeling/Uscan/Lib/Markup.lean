import Mathlib.Tactic.Common

/-!
# Documents of tags and texts

A document is a tree of elements, with texts between the tags. It is written as a sequence of tags,
each with the text behind it (`Piece`). What stands directly between the tags of a name, looked up
from left to right in that sequence (`firstContent`), is the text of the first element of the tree
that has the name, no attributes and no other elements inside (`firstContent_pieces`).
-/

namespace Uscan.Markup

/-! ## Tags and texts -/

/-- A tag without its brackets, and the text behind it. -/
structure Piece where
  /-- The tag. -/
  tag : List Char
  /-- The text. -/
  tail : List Char
  deriving DecidableEq, Repr

/-- No bracket stands where it does not belong. -/
structure Piece.Ok (p : Piece) : Prop where
  /-- The tag does not open another one, -/
  tag_lt : '<' ∉ p.tag
  /-- it ends once, -/
  tag_gt : '>' ∉ p.tag
  /-- and the text has no tag. -/
  tail_lt : '<' ∉ p.tail

/-- The text of a sequence of pieces. -/
def write : List Piece → List Char
  | [] => []
  | p :: ps => '<' :: p.tag ++ '>' :: p.tail ++ write ps

/-- What stands directly between a tag and the closing tag of its name, for the first such tag. -/
def firstContent (name : List Char) : List Piece → Option (List Char)
  | [] => none
  | [_] => none
  | p :: q :: ps =>
    if p.tag = name ∧ q.tag = '/' :: name then some p.tail else firstContent name (q :: ps)

/-- A piece with another tag is passed over. -/
theorem firstContent_cons_ne {name : List Char} {p : Piece} (h : p.tag ≠ name) (ps : List Piece) :
    firstContent name (p :: ps) = firstContent name ps := by
  cases ps with
  | nil => rfl
  | cons q ps => exact if_neg fun hpq => h hpq.1

/-- So is one that another piece follows than its closing tag. -/
theorem firstContent_cons_of_next {name : List Char} {q : Piece} (h : q.tag ≠ '/' :: name)
    (p : Piece) (ps : List Piece) :
    firstContent name (p :: q :: ps) = firstContent name (q :: ps) :=
  if_neg fun hpq => h hpq.2

/-! ## Trees -/

/-- A character of a name. -/
def isNameChar (c : Char) : Bool := c.isAlphanum || c == '-' || c == '_' || c == '.' || c == ':'

/-- The name of an element. -/
structure IsName (s : List Char) : Prop where
  /-- It is not empty. -/
  ne_nil : s ≠ []
  /-- It consists of the characters of names. -/
  all : ∀ c ∈ s, isNameChar c = true

/-- A name is known by running through it. -/
theorem IsName.of_all {s : List Char} (h : (!s.isEmpty && s.all isNameChar) = true) : IsName s := by
  obtain ⟨hne, hall⟩ := Bool.and_eq_true_iff.mp h
  exact ⟨by simpa using hne, List.all_eq_true.mp hall⟩

/-- The text of attributes, with the blank before it. -/
structure IsAttrs (s : List Char) : Prop where
  /-- It starts with the blank. -/
  head : ∀ c ∈ s.head?, c = ' '
  /-- It has no brackets, -/
  lt : '<' ∉ s
  /-- of either kind. -/
  gt : '>' ∉ s

/-- A tag that opens no element: a declaration, or one that is closed at its own end. -/
structure IsMark (s : List Char) : Prop where
  /-- It is no closing tag. -/
  head : s.head? ≠ some '/'
  /-- It is no name. -/
  not_name : ∃ c ∈ s, isNameChar c = false
  /-- It has no brackets, -/
  lt : '<' ∉ s
  /-- of either kind. -/
  gt : '>' ∉ s

/-- A sequence of elements, each with the text behind it. -/
inductive Forest where
  /-- There is no more. -/
  | nil
  /-- A tag that opens no element. -/
  | mark (tag tail : List Char) (rest : Forest)
  /-- An element, with the text before its first child. -/
  | element (name attrs text : List Char) (children : Forest) (tail : List Char) (rest : Forest)
  deriving DecidableEq, Repr

namespace Forest

/-- The tags and texts of a forest. -/
def pieces : Forest → List Piece
  | nil => []
  | mark tag tail rest => ⟨tag, tail⟩ :: rest.pieces
  | element name attrs text children tail rest =>
    ⟨name ++ attrs, text⟩ :: children.pieces ++ ⟨'/' :: name, tail⟩ :: rest.pieces

/-- The names and the texts of the elements without attributes that have no other ones inside, in
order. -/
def leaves : Forest → List (List Char × List Char)
  | nil => []
  | mark _ _ rest => rest.leaves
  | element name attrs text children _ rest =>
    (if attrs = [] ∧ children = nil then [(name, text)] else children.leaves) ++ rest.leaves

/-- Every name, tag and text is one. -/
def Ok : Forest → Prop
  | nil => True
  | mark tag tail rest => IsMark tag ∧ '<' ∉ tail ∧ rest.Ok
  | element name attrs text children tail rest =>
    IsName name ∧ IsAttrs attrs ∧ '<' ∉ text ∧ '<' ∉ tail ∧ children.Ok ∧ rest.Ok

/-- The text of the first of the leaves with a name. -/
def content (f : Forest) (name : List Char) : Option (List Char) :=
  (f.leaves.find? fun leaf => leaf.1 = name).map Prod.snd

/-- The text of the first leaf, of two sequences. -/
theorem find?_append_map (leaves leaves' : List (List Char × List Char)) (name : List Char) :
    ((leaves ++ leaves').find? fun leaf => leaf.1 = name).map Prod.snd =
      ((leaves.find? fun leaf => leaf.1 = name).map Prod.snd).or
        ((leaves'.find? fun leaf => leaf.1 = name).map Prod.snd) := by
  rw [List.find?_append]
  cases leaves.find? fun leaf => leaf.1 = name <;> rfl

/-- The first tag of a forest closes nothing. -/
theorem head_pieces {f : Forest} (hf : f.Ok) (hne : f ≠ nil) :
    ∃ p ps, f.pieces = p :: ps ∧ ∀ name, p.tag ≠ '/' :: name := by
  cases f with
  | nil => exact absurd rfl hne
  | mark tag tail rest =>
    refine ⟨⟨tag, tail⟩, rest.pieces, rfl, fun name h => hf.1.head ?_⟩
    rw [show tag = '/' :: name from h]
    rfl
  | element name attrs text children tail rest =>
    refine ⟨⟨name ++ attrs, text⟩, _, rfl, fun name' h => ?_⟩
    obtain ⟨c, cs, rfl⟩ := List.exists_cons_of_ne_nil hf.1.ne_nil
    obtain ⟨rfl, -⟩ := List.cons_eq_cons.mp h
    exact absurd (hf.1.all '/' List.mem_cons_self) (by decide)

/-- A name is the tag of an element only without attributes. -/
theorem append_eq_name {name name' attrs : List Char} (hname : IsName name) (hattrs : IsAttrs attrs)
    (h : name' ++ attrs = name) : name' = name ∧ attrs = [] := by
  cases attrs with
  | nil => exact ⟨by rwa [List.append_nil] at h, rfl⟩
  | cons c attrs =>
    have hc := hattrs.head c rfl
    have hblank := hname.all c (by rw [← h]; exact List.mem_append_right _ List.mem_cons_self)
    rw [hc] at hblank
    exact absurd hblank (by decide)

/-- The first text directly between the tags of a name is that of the first leaf with the name. The
induction is along the forest; an element that is no leaf is passed over, and its children come
next. -/
theorem firstContent_pieces {f : Forest} (hf : f.Ok) {name : List Char} (hname : IsName name)
    (ps : List Piece) :
    firstContent name (f.pieces ++ ps) = (f.content name).or (firstContent name ps) := by
  induction f generalizing ps with
  | nil => rfl
  | mark tag tail rest ih =>
    obtain ⟨hmark, -, hrest⟩ := hf
    have hne : tag ≠ name := by
      rintro rfl
      obtain ⟨c, hc, hnot⟩ := hmark.not_name
      rw [hname.all c hc] at hnot
      cases hnot
    exact (firstContent_cons_ne hne _).trans (ih hrest ps)
  | element name' attrs text children tail rest ihChildren ihRest =>
    obtain ⟨hname', hattrs, -, -, hchildren, hrest⟩ := hf
    have hclose : '/' :: name' ≠ name := by
      rintro rfl
      exact absurd (hname.all '/' List.mem_cons_self) (by decide)
    -- What comes after the opening tag.
    have hinside : firstContent name
        (children.pieces ++ (⟨'/' :: name', tail⟩ :: (rest.pieces ++ ps))) =
          (children.content name).or ((rest.content name).or (firstContent name ps)) := by
      rw [ihChildren hchildren, firstContent_cons_ne hclose, ihRest hrest]
    rw [pieces, List.append_assoc, List.cons_append, List.cons_append, content, leaves,
      find?_append_map, Option.or_assoc]
    by_cases hleaf : attrs = [] ∧ children = nil
    · obtain ⟨rfl, rfl⟩ := hleaf
      rw [if_pos ⟨rfl, rfl⟩, List.append_nil]
      by_cases hsame : name' = name
      · subst hsame
        simp [firstContent, pieces]
      · rw [firstContent_cons_ne hsame, List.find?_cons_of_neg (by simpa using hsame)]
        exact hinside
    · rw [if_neg hleaf]
      refine Eq.trans ?_ hinside
      by_cases hsame : name' ++ attrs = name
      · -- It has children, of which the first opens.
        obtain ⟨-, rfl⟩ := append_eq_name hname hattrs hsame
        obtain ⟨p, pieces', hpieces, hopen⟩ := head_pieces hchildren fun h => hleaf ⟨rfl, h⟩
        rw [hpieces, List.cons_append]
        exact firstContent_cons_of_next (hopen name) _ _
      · exact firstContent_cons_ne hsame _

/-- A name has no brackets. -/
theorem notMem_of_isName {name : List Char} (h : IsName name) {c : Char}
    (hc : isNameChar c = false) :
    c ∉ name := by
  intro hmem
  rw [h.all c hmem] at hc
  cases hc

/-- Every piece of a forest has its brackets in place. -/
theorem pieces_ok {f : Forest} (hf : f.Ok) : ∀ p ∈ f.pieces, p.Ok := by
  induction f with
  | nil => exact fun _ hp => absurd hp List.not_mem_nil
  | mark tag tail rest ih =>
    obtain ⟨hmark, htail, hrest⟩ := hf
    exact List.forall_mem_cons.mpr ⟨⟨hmark.lt, hmark.gt, htail⟩, ih hrest⟩
  | element name attrs text children tail rest ihChildren ihRest =>
    obtain ⟨hname, hattrs, htext, htail, hchildren, hrest⟩ := hf
    have hlt : '<' ∉ name := notMem_of_isName hname (by decide)
    have hgt : '>' ∉ name := notMem_of_isName hname (by decide)
    refine List.forall_mem_cons.mpr ⟨⟨?_, ?_, htext⟩, List.forall_mem_append.mpr
      ⟨ihChildren hchildren, List.forall_mem_cons.mpr ⟨⟨?_, ?_, htail⟩, ihRest hrest⟩⟩⟩
    · simpa using ⟨hlt, hattrs.lt⟩
    · simpa using ⟨hgt, hattrs.gt⟩
    · simpa using hlt
    · simpa using hgt

end Forest

/-! ## Documents -/

/-- A document. -/
structure Document where
  /-- The text before the first tag. -/
  prolog : List Char
  /-- The elements. -/
  forest : Forest
  /-- There is no tag before the first one. -/
  prolog_lt : '<' ∉ prolog
  /-- The elements are well-formed. -/
  forest_ok : forest.Ok

namespace Document

variable (doc : Document)

/-- The text of a document. -/
def text : List Char := doc.prolog ++ write doc.forest.pieces

/-- The tags of a document. -/
def tags : List (List Char) := doc.forest.pieces.map Piece.tag

/-- The text of the first leaf with a name. -/
def content (name : List Char) : Option (List Char) := doc.forest.content name

/-- It stands directly between the tags of the name. -/
theorem firstContent_eq {name : List Char} (hname : IsName name) :
    firstContent name doc.forest.pieces = doc.content name := by
  have h := Forest.firstContent_pieces doc.forest_ok hname []
  rwa [List.append_nil, firstContent, Option.or_none] at h

end Document

end Uscan.Markup
