import Mathlib.Data.List.Infix
import Mathlib.Tactic.Common

/-!
# The lines of a text

`strLines` is `str::lines`: a line ends at a line feed or at the end of the text, and loses its line
feed and a carriage return before it. `TextOf` says that a text is written from lines, each ended in
one way or the other and the last one possibly not ended, and `strLines_textOf` that such a text has
these lines.
-/

namespace Uscan

/-- A line without the carriage return that it may end in. -/
def stripCr (line : List Char) : List Char :=
  if line.getLast? = some '\r' then line.dropLast else line

/-- The loop of `strLines`, with the start of a line that has been read. -/
def linesLoop (line : List Char) : List Char → List (List Char)
  | [] => if line = [] then [] else [line]
  | c :: s => if c = '\n' then stripCr line :: linesLoop [] s else linesLoop (line ++ [c]) s

/-- `str::lines`. -/
def strLines (s : List Char) : List (List Char) := linesLoop [] s

/-- The loop reads on to the end of the line. -/
theorem linesLoop_append {u : List Char} (hu : '\n' ∉ u) (line s : List Char) :
    linesLoop line (u ++ s) = linesLoop (line ++ u) s := by
  induction u generalizing line with
  | nil => rw [List.nil_append, List.append_nil]
  | cons c u ih =>
    obtain ⟨hc, hu⟩ := not_or.mp (List.mem_cons.not.mp hu)
    rw [List.cons_append, linesLoop, if_neg (Ne.symm hc), ih hu, List.append_assoc,
      List.singleton_append]

/-- A line that is ended by a line feed. -/
theorem strLines_cons {line : List Char} (h : '\n' ∉ line) (s : List Char) :
    strLines (line ++ '\n' :: s) = stripCr line :: strLines s := by
  rw [strLines, linesLoop_append h, List.nil_append, linesLoop, if_pos rfl, strLines]

/-- A line that the end of the text ends. -/
theorem strLines_last {line : List Char} (h : '\n' ∉ line) (hne : line ≠ []) :
    strLines line = [line] := by
  rw [strLines, ← List.append_nil line, linesLoop_append h, List.nil_append, linesLoop,
    List.append_nil, if_neg hne]

/-- A text that is written from lines. -/
inductive TextOf : List (List Char) → List Char → Prop where
  /-- No lines. -/
  | nil : TextOf [] []
  /-- A last line that is not ended. -/
  | last {line : List Char} (hne : line ≠ []) : TextOf [line] line
  /-- A line that is ended by a line feed. -/
  | lf {line : List Char} {lines : List (List Char)} {s : List Char} (h : TextOf lines s) :
    TextOf (line :: lines) (line ++ '\n' :: s)
  /-- A line that is ended by a carriage return and a line feed. -/
  | crlf {line : List Char} {lines : List (List Char)} {s : List Char} (h : TextOf lines s) :
    TextOf (line :: lines) (line ++ '\r' :: '\n' :: s)

/-- A text has the lines that it is written from, if no end of a line is part of one. -/
theorem strLines_textOf {lines : List (List Char)} {s : List Char} (h : TextOf lines s)
    (hlines : ∀ line ∈ lines, '\n' ∉ line ∧ line.getLast? ≠ some '\r') : strLines s = lines := by
  induction h with
  | nil => rfl
  | last hne => exact strLines_last (hlines _ (List.mem_singleton_self _)).1 hne
  | lf h ih =>
    obtain ⟨⟨hlf, hcr⟩, hlines⟩ := List.forall_mem_cons.mp hlines
    rw [strLines_cons hlf, ih hlines, stripCr, if_neg hcr]
  | @crlf line lines s h ih =>
    obtain ⟨⟨hlf, hcr⟩, hlines⟩ := List.forall_mem_cons.mp hlines
    -- The line that ends at the line feed has the carriage return at its end.
    have hlf' : '\n' ∉ line ++ ['\r'] := by simpa using hlf
    have hsplit : line ++ '\r' :: '\n' :: s = line ++ ['\r'] ++ '\n' :: s := by
      rw [List.append_assoc, List.singleton_append]
    rw [hsplit, strLines_cons hlf', ih hlines, stripCr, if_pos List.getLast?_concat,
      List.dropLast_concat]

end Uscan
