import Mathlib.Data.List.Forall2
import Mathlib.Tactic.Common

/-!
# Reading comma-separated values

A reader of RFC 4180 files as an automaton over characters. A field stands in quotation marks, where
it may have commas and line breaks and a doubled mark stands for one, or it has none of these. Rows
end with a line feed or with a carriage return and a line feed, and the last row may end with the
text. `Csv.Encodes t f` says that the reader takes the text `t` as the field `f`; it holds of every
quoted field (`Csv.encodes_quote`) and of a field without special characters (`Csv.encodes_bare`).
Lines of such fields, joined with line feeds, are read back as their rows (`Csv.read_lines`).
-/

namespace Uscan.Csv

/-- Where in a field the reader stands. -/
inductive Mode where
  /-- At the start of a field. -/
  | start
  /-- In a field without quotation marks. -/
  | bare
  /-- Between quotation marks. -/
  | quoted
  /-- After a quotation mark that ends the field, unless it is doubled. -/
  | closed
  /-- After a carriage return that ends the row. -/
  | cr
  deriving DecidableEq, Repr

/-- The state of the reader. -/
structure State where
  /-- Where in the field. -/
  mode : Mode
  /-- The field so far. -/
  field : List Char
  /-- The fields before it in its row. -/
  row : List (List Char)
  /-- The rows before. -/
  rows : List (List (List Char))
  deriving DecidableEq, Repr

namespace State

/-- The state at the start of a text. -/
def init : State := ⟨.start, [], [], []⟩

/-- The field goes on with `c`. -/
def push (st : State) (c : Char) (mode : Mode) : State :=
  { st with mode := mode, field := st.field ++ [c] }

/-- The field ends. -/
def endField (st : State) : State := ⟨.start, [], st.row ++ [st.field], st.rows⟩

/-- The row ends. -/
def endRow (st : State) : State := ⟨.start, [], [], st.rows ++ [st.row ++ [st.field]]⟩

end State

/-- The state after a character, unless it is not allowed there. -/
def step (st : State) (c : Char) : Option State :=
  match st.mode with
  | .quoted => if c = '"' then some { st with mode := .closed } else some (st.push c .quoted)
  | .cr => if c = '\n' then some st.endRow else none
  | .start =>
    if c = '"' then some { st with mode := .quoted } else separate st c (some (st.push c .bare))
  | .bare => if c = '"' then none else separate st c (some (st.push c .bare))
  | .closed => if c = '"' then some (st.push c .quoted) else separate st c none
where
  /-- Outside quotation marks: a separator, or another character. -/
  separate (st : State) (c : Char) (other : Option State) : Option State :=
    if c = ',' then some st.endField
    else if c = '\n' then some st.endRow
    else if c = '\r' then some { st with mode := .cr }
    else other

/-- The rows at the end of a text. A line break there does not start another row. -/
def finish (st : State) : Option (List (List (List Char))) :=
  match st.mode with
  | .quoted => none
  | .cr => none
  | .start => if st.row = [] then some st.rows else some st.endRow.rows
  | .bare => some st.endRow.rows
  | .closed => some st.endRow.rows

/-- The rows of a text. -/
def read (text : List Char) : Option (List (List (List Char))) :=
  text.foldlM step .init >>= finish

/-! ## Fields -/

/-- The state is at the end of a field, whose row so far is `row`. -/
structure EndsWith (st : State) (row : List (List Char)) : Prop where
  /-- The field has ended, or can end here. -/
  mode_eq : st.mode = .bare ∨ st.mode = .closed
  /-- The row with the field. -/
  row_eq : st.row ++ [st.field] = row

/-- The reader takes the text as the field. -/
def Encodes (text field : List Char) : Prop :=
  ∀ row rows, ∃ st, text.foldlM step ⟨.start, [], row, rows⟩ = some st ∧
    EndsWith st (row ++ [field]) ∧ st.rows = rows

/-- A field in quotation marks. -/
def quote (field : List Char) : List Char :=
  '"' :: field.flatMap (fun c => if c = '"' then ['"', '"'] else [c]) ++ ['"']

/-- Between quotation marks, the reader undoes the doubling. The induction is along the field. -/
theorem foldlM_doubled (f acc : List Char) (row : List (List Char))
    (rows : List (List (List Char))) :
    (f.flatMap (fun c => if c = '"' then ['"', '"'] else [c])).foldlM step
      ⟨.quoted, acc, row, rows⟩ = some ⟨.quoted, acc ++ f, row, rows⟩ := by
  induction f generalizing acc with
  | nil => simp
  | cons c f ih =>
    rw [List.flatMap_cons, List.foldlM_append]
    -- A quotation mark takes two steps, any other character one.
    have hchar : (if c = '"' then ['"', '"'] else [c]).foldlM step ⟨.quoted, acc, row, rows⟩ =
        some ⟨.quoted, acc ++ [c], row, rows⟩ := by
      by_cases hc : c = '"'
      · rw [if_pos hc, hc]
        rfl
      · rw [if_neg hc]
        simp [step, hc, State.push]
    rw [hchar]
    show List.foldlM step ⟨.quoted, acc ++ [c], row, rows⟩ _ = _
    rw [ih, List.append_assoc, List.singleton_append]

/-- A field in quotation marks is read as the field, whatever it has. -/
theorem encodes_quote (f : List Char) : Encodes (quote f) f := by
  intro row rows
  refine ⟨⟨.closed, f, row, rows⟩, ?_, ⟨.inr rfl, rfl⟩, rfl⟩
  unfold quote
  rw [List.foldlM_append, List.foldlM_cons]
  show ((List.foldlM step ⟨.quoted, [], row, rows⟩ _) >>= _) = _
  rw [foldlM_doubled]
  rfl

/-- The characters that end a field or start a quoted one. -/
def special : List Char := ['"', ',', '\n', '\r']

/-- A character that is not special belongs to a field without quotation marks. -/
theorem step_bare {st : State} (hst : st.mode = .start ∨ st.mode = .bare) {c : Char}
    (hc : c ∉ special) : step st c = some (st.push c .bare) := by
  simp only [special, List.mem_cons, List.not_mem_nil, or_false, not_or] at hc
  obtain ⟨hquote, hcomma, hlf, hcr⟩ := hc
  unfold step step.separate
  rcases hst with h | h
  · simp only [h, hquote, hcomma, hlf, hcr, if_false]
  · simp only [h, hquote, hcomma, hlf, hcr, if_false]

/-- A field without special characters stands for itself. -/
theorem encodes_bare {f : List Char} (hne : f ≠ []) (h : ∀ c ∈ f, c ∉ special) : Encodes f f := by
  -- The first character leaves the start of the field; the others go on with it.
  have core (f acc : List Char) (row : List (List Char)) (rows : List (List (List Char)))
      (h : ∀ c ∈ f, c ∉ special) :
      f.foldlM step ⟨.bare, acc, row, rows⟩ = some ⟨.bare, acc ++ f, row, rows⟩ := by
    induction f generalizing acc with
    | nil => simp
    | cons c f ih =>
      rw [List.foldlM_cons, step_bare (.inr rfl) (h c List.mem_cons_self)]
      show List.foldlM step ⟨.bare, acc ++ [c], row, rows⟩ f = _
      rw [ih _ fun d hd => h d (List.mem_cons_of_mem _ hd), List.append_assoc,
        List.singleton_append]
  intro row rows
  obtain ⟨c, s, rfl⟩ := List.exists_cons_of_ne_nil hne
  refine ⟨⟨.bare, c :: s, row, rows⟩, ?_, ⟨.inl rfl, rfl⟩, rfl⟩
  rw [List.foldlM_cons, step_bare (.inl rfl) (h c List.mem_cons_self)]
  exact core s [c] row rows fun d hd => h d (List.mem_cons_of_mem _ hd)

/-! ## Rows -/

/-- At the end of a field, a comma starts the next one. -/
theorem EndsWith.step_comma {st : State} {row : List (List Char)} (h : EndsWith st row) :
    step st ',' = some ⟨.start, [], row, st.rows⟩ := by
  rw [← h.row_eq]
  unfold step
  rcases h.mode_eq with hmode | hmode <;> rw [hmode] <;> rfl

/-- At the end of a field, a line feed ends the row. -/
theorem EndsWith.step_lf {st : State} {row : List (List Char)} (h : EndsWith st row) :
    step st '\n' = some ⟨.start, [], [], st.rows ++ [row]⟩ := by
  rw [← h.row_eq]
  unfold step
  rcases h.mode_eq with hmode | hmode <;> rw [hmode] <;> rfl

/-- At the end of a field, the text can end. -/
theorem EndsWith.finish_eq {st : State} {row : List (List Char)} (h : EndsWith st row) :
    finish st = some (st.rows ++ [row]) := by
  rw [← h.row_eq]
  unfold finish
  rcases h.mode_eq with hmode | hmode <;> rw [hmode] <;> rfl

/-- The reader takes the line as a row with these fields. -/
def EncodesRow (line : List Char) (fields : List (List Char)) : Prop :=
  ∃ texts, line = [','].intercalate texts ∧ texts ≠ [] ∧ List.Forall₂ Encodes texts fields

/-- Texts of fields, joined with commas, are read as the fields. The induction is along the
fields. -/
theorem foldlM_row {texts fields : List (List Char)} (hne : texts ≠ [])
    (h : List.Forall₂ Encodes texts fields) (row : List (List Char))
    (rows : List (List (List Char))) :
    ∃ st, ([','].intercalate texts).foldlM step ⟨.start, [], row, rows⟩ = some st ∧
      EndsWith st (row ++ fields) ∧ st.rows = rows := by
  induction h generalizing row with
  | nil => exact absurd rfl hne
  | @cons text field texts fields htext hrest ih =>
    obtain ⟨st, hrun, hends, hrows⟩ := htext row rows
    cases hrest with
    | nil =>
      rw [List.intercalate_singleton]
      exact ⟨st, hrun, hends, hrows⟩
    | @cons text' field' texts fields htext' hrest =>
      -- The comma stands at the end of the first field, and starts the next one.
      obtain ⟨st', hrun', hends', hrows'⟩ := ih (by simp) (row ++ [field])
      refine ⟨st', ?_, by simpa using hends', hrows'⟩
      rw [List.intercalate_cons_cons, List.append_assoc, List.foldlM_append, hrun]
      show List.foldlM step st (',' :: _) = _
      rw [List.foldlM_cons, hends.step_comma, hrows]
      exact hrun'

/-- Lines of fields, joined with line feeds, are read as their rows. The induction is along the
lines. -/
theorem read_lines {lines : List (List Char)} {rows : List (List (List Char))} (hne : lines ≠ [])
    (h : List.Forall₂ EncodesRow lines rows) : read (['\n'].intercalate lines) = some rows := by
  have core (lines : List (List Char)) (rows before : List (List (List Char))) (hne : lines ≠ [])
      (h : List.Forall₂ EncodesRow lines rows) :
      ((['\n'].intercalate lines).foldlM step ⟨.start, [], [], before⟩ >>= finish) =
        some (before ++ rows) := by
    -- The rows of the lines before are kept.
    induction h generalizing before with
    | nil => exact absurd rfl hne
    | @cons line row lines rows hline hrest ih =>
      obtain ⟨texts, rfl, htexts, hfields⟩ := hline
      obtain ⟨st, hrun, hends, hrows⟩ := foldlM_row htexts hfields [] before
      rw [List.nil_append] at hends
      cases hrest with
      | nil =>
        rw [List.intercalate_singleton, hrun]
        exact hends.finish_eq.trans (by rw [hrows])
      | @cons line' row' lines rows hline' hrest =>
        rw [List.intercalate_cons_cons, List.append_assoc, List.foldlM_append, hrun]
        show (List.foldlM step st ('\n' :: _) >>= finish) = _
        rw [List.foldlM_cons, hends.step_lf, hrows]
        have hnext := ih (before ++ [row]) (by simp)
        rw [List.append_assoc, List.singleton_append] at hnext
        exact hnext
  have hread := core lines rows [] hne h
  rwa [List.nil_append] at hread

end Uscan.Csv
