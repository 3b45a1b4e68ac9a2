import Mathlib.Data.List.Induction
import Mathlib.Logic.Function.Basic
import Mathlib.Tactic.Common
import Uscan.Lib.Runs

/-!
# Files that are replaced as a whole

New contents are written to a file beside another one, which is then renamed. However far the
replacements of a run get, and whatever the last one leaves behind, the file has the contents of the
last one that has got to its end, or those from before the run (`run_dest`), and all files but the
two keep theirs (`run_other`).
-/

namespace Uscan.Replace

variable {κ β : Type} [DecidableEq κ]

/-- The contents of the files that there are. -/
abbrev Files (κ β : Type) := κ → Option β

/-- How far a replacement gets. -/
inductive Reach (β : Type) where
  /-- It writes nothing. -/
  | nothing
  /-- It stops before the file is renamed, with something left beside it. -/
  | stopped (left : Option β)
  /-- It renames the file, with its new contents. -/
  | renamed (new : β)

/-- The file `tmp` takes the place of the file `dest`. -/
def rename (tmp dest : κ) (files : Files κ β) : Files κ β :=
  Function.update (Function.update files dest (files tmp)) tmp none

/-- A replacement of `dest`. -/
def step (tmp dest : κ) (files : Files κ β) : Reach β → Files κ β
  | .nothing => files
  | .stopped left => Function.update files tmp left
  | .renamed new => rename tmp dest (Function.update files tmp (some new))

/-- The new contents of a replacement that has got to its end. -/
def Reach.new? : Reach β → Option β
  | .nothing => none
  | .stopped _ => none
  | .renamed new => some new

/-- The new contents of the last one that has. -/
def last (rs : List (Reach β)) : Option β := (rs.filterMap Reach.new?).getLast?

/-- One more replacement. -/
theorem last_concat (rs : List (Reach β)) (r : Reach β) :
    last (rs ++ [r]) = r.new?.or (last rs) := by
  rw [last, List.filterMap_append]
  cases hnew : r.new? with
  | none => simp [hnew, last]
  | some new => simp [hnew]

/-- The contents of the file after a replacement. -/
theorem step_dest {tmp dest : κ} (hne : dest ≠ tmp) (files : Files κ β) (r : Reach β) :
    step tmp dest files r dest = r.new?.or (files dest) := by
  cases r with
  | nothing => rfl
  | stopped left => exact Function.update_of_ne hne left files
  | renamed new =>
    rw [step, rename, Function.update_of_ne hne, Function.update_self, Function.update_self]
    rfl

/-- The contents of the file after a run. The induction is on the last replacement. -/
theorem run_dest {tmp dest : κ} (hne : dest ≠ tmp) (files : Files κ β) (rs : List (Reach β)) :
    Machine.run (step tmp dest) files rs dest = (last rs).or (files dest) := by
  induction rs using List.reverseRecOn with
  | nil => rfl
  | append_singleton rs r ih =>
    rw [Machine.run_append, Machine.run_cons, Machine.run_nil, step_dest hne, ih, last_concat,
      Option.or_assoc]

/-- A replacement is about the two files. -/
theorem step_other {tmp dest path : κ} (htmp : path ≠ tmp) (hdest : path ≠ dest)
    (files : Files κ β) (r : Reach β) : step tmp dest files r path = files path := by
  cases r with
  | nothing => rfl
  | stopped left => exact Function.update_of_ne htmp left files
  | renamed new =>
    rw [step, rename, Function.update_of_ne htmp, Function.update_of_ne hdest,
      Function.update_of_ne htmp]

/-- So is a run. -/
theorem run_other {tmp dest path : κ} (htmp : path ≠ tmp) (hdest : path ≠ dest)
    (files : Files κ β) (rs : List (Reach β)) :
    Machine.run (step tmp dest) files rs path = files path := by
  induction rs generalizing files with
  | nil => rfl
  | cons r rs ih => rw [Machine.run_cons, ih, step_other htmp hdest]

end Uscan.Replace
