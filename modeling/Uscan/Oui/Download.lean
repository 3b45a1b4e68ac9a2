import Uscan.Errors
import Uscan.Lib.Replace
import Uscan.Lib.Split
import Uscan.Oui.Database

/-!
# Downloads of the vendors

The rest of `oui.rs`, and `run_update_oui` of `commands.rs`. The text that the IEEE publishes is
written beside the file of the cache and then takes its place, so that the cache is always as the
last download has left it that came so far.

`downloads_load` is about every sequence of downloads, also of ones that fail or are killed: what
`load` then reads. A text without entries is not saved, so that in contrast to the files of the
system the cache never hides the built-in database without having data itself.
-/

namespace Uscan.Oui

/-! ## A download -/

/-- `Path::with_extension`, of a path with a file name. -/
def Path.withExtension (path ext : Path) : Path :=
  let dir := path.rdropWhile (· ≠ ascii '/')
  let name := path.rtakeWhile (· ≠ ascii '/')
  -- A dot in front is a part of the stem.
  let stem :=
    if ascii '.' ∈ name.tail then (name.rdropWhile (· ≠ ascii '.')).dropLast else name
  dir ++ stem ++ ascii '.' :: ext

/-- The answers of the operating system and of the server during a download. -/
structure Fetch where
  /-- `create_dir_all`. -/
  createDirAll : Except Error Unit
  /-- The request, with `into_string`. -/
  body : Except Error (List Char)
  /-- `write`; an error comes with what is left of the file. -/
  write : Except (Error × Option (List UInt8)) Unit
  /-- `rename`. -/
  rename : Except Error Unit

/-- The part of `download` that gets a text with entries. -/
def Fetch.text (fetch : Fetch) : Res Error (List Char) :=
  match fetch.createDirAll with
  | .error e => .err e
  | .ok () =>
    match fetch.body with
    | .error e => .err e
    | .ok body =>
      match parseOuiFile body with
      | .panicked => .panicked
      | .ok none =>
        .err (.config "downloaded OUI data has no base-16 entries (unexpected format)")
      | .ok (some _) => .ok body

/-- The files with other contents of one of them. -/
def Surroundings.write (around : Surroundings) (path : Path) (contents : Option (List UInt8)) :
    Surroundings :=
  { around with read := Function.update around.read path contents }

/-- The file that is written beside the cache. -/
def Path.tmp (dest : Path) : Path := dest.withExtension (utf8 "tmp".toList)

/-- `download`. -/
def download (fetch : Fetch) (around : Surroundings) : Surroundings × Res Error Path :=
  match around.cachePath with
  | none => (around, .err (.config "no HOME/XDG_CACHE_HOME to place cache"))
  | some dest =>
    match fetch.text with
    | .panicked => (around, .panicked)
    | .err e => (around, .err e)
    | .ok body =>
      match fetch.write with
      | .error (e, left) => (around.write dest.tmp left, .err e)
      | .ok () =>
        let written := around.write dest.tmp (some (utf8 body))
        match fetch.rename with
        | .error e => (written, .err e)
        | .ok () =>
          ({ written with read := Replace.rename dest.tmp dest written.read }, .ok dest)

/-- `run_update_oui`: the files after it, and what it leaves behind besides. -/
def runUpdateOui (fetch : Fetch) (around : Surroundings) :
    Surroundings × Res Empty CommandOutcome :=
  let (after, result) := download fetch around
  match result with
  | .ok dest =>
    let msg := "OUI database saved to ".toList ++ fromUtf8Lossy dest ++ ['\n']
    (after, .ok ⟨msg, [], 0⟩)
  | .err e => (after, .ok (.failed e.text))
  | .panicked => (after, .panicked)

/-! ## The path of the cache -/

/-- The path of the cache ends in its directory and its name. -/
theorem cachePath_eq {around : Surroundings} {dest : Path} (h : around.cachePath = some dest) :
    ∃ front, dest = front ++ utf8 "uscan/oui.txt".toList := by
  obtain ⟨dir, -, rfl⟩ := Option.map_eq_some_iff.mp h
  obtain ⟨front, hfront⟩ := exists_joinPath (ascii '/') dir (utf8 "uscan".toList)
  have hlast : (front ++ utf8 "uscan".toList).getLast? = some (ascii 'n') := by
    rw [List.getLast?_append_of_ne_nil _ (by decide)]
    decide
  have hjoin : ¬ (front ++ utf8 "uscan".toList = [] ∨
      (front ++ utf8 "uscan".toList).getLast? = some (ascii '/')) := by
    rw [hlast]
    rintro (hnil | hslash)
    · rw [hnil] at hlast
      cases hlast
    · exact absurd hslash (by decide)
  refine ⟨front, ?_⟩
  rw [hfront, joinPath, if_neg hjoin, List.append_assoc]
  rfl

/-- The file beside the cache is in the same directory. -/
theorem tmp_eq (front : Path) :
    Path.tmp (front ++ utf8 "uscan/oui.txt".toList) = front ++ utf8 "uscan/oui.tmp".toList := by
  have hpath : front ++ utf8 "uscan/oui.txt".toList =
      (front ++ utf8 "uscan".toList) ++ ascii '/' :: utf8 "oui.txt".toList := by
    rw [List.append_assoc]
    rfl
  have hslash : ∀ b ∈ utf8 "oui.txt".toList, decide (b ≠ ascii '/') = true :=
    List.all_eq_true.mp (by decide)
  rw [Path.tmp, Path.withExtension, hpath, rdropWhile_append_cons _ hslash (by decide),
    rtakeWhile_append_cons _ hslash (by decide)]
  simp only [List.append_assoc]
  rfl

/-- Neither of the two files is one of the system, and they are not the same. -/
theorem cache_apart {around : Surroundings} {dest : Path} (h : around.cachePath = some dest) :
    dest ≠ dest.tmp ∧ ∀ path ∈ ouiPaths, path ≠ dest ∧ path ≠ dest.tmp := by
  obtain ⟨front, rfl⟩ := cachePath_eq h
  rw [tmp_eq]
  refine ⟨fun heq => absurd (List.append_cancel_left heq) (by decide), fun path hpath => ?_⟩
  -- They end in a directory that is none of the system.
  have hends : ∀ path ∈ ouiPaths, ¬ utf8 "uscan/oui.txt".toList <:+ path ∧
      ¬ utf8 "uscan/oui.tmp".toList <:+ path := by
    decide
  obtain ⟨hdest, htmp⟩ := hends path hpath
  exact ⟨fun heq => hdest ⟨front, heq.symm⟩, fun heq => htmp ⟨front, heq.symm⟩⟩

/-! ## Runs of downloads -/

/-- A use of the command. -/
inductive Use where
  /-- It comes to its end. -/
  | ended (fetch : Fetch)
  /-- It is killed before it renames the file, with something left of that. -/
  | killed (left : Option (List UInt8))
  /-- It is killed after it has renamed the file, or its message cannot be printed. If it does not
  come so far, it comes to its end. -/
  | late (fetch : Fetch)

namespace Surroundings

variable (around : Surroundings)

/-- What a use makes of the files. -/
def use : Use → Surroundings
  | .ended fetch => (runUpdateOui fetch around).1
  | .killed left => around.cachePath.elim around fun dest => around.write dest.tmp left
  | .late fetch => (runUpdateOui fetch around).1

/-- The text that a use puts in the place of the cache. One that comes to its end does so just when
it exits with 0. -/
def saved? : Use → Option (List Char)
  | .ended fetch => if exitCode (runUpdateOui fetch around).2 = 0 then fetch.body.toOption else none
  | .killed _ => none
  | .late fetch =>
    match (download fetch around).2 with
    | .ok _ => fetch.body.toOption
    | _ => none

end Surroundings

/-- How far a download gets with the replacement of the cache. -/
def Fetch.reach (fetch : Fetch) : Replace.Reach (List UInt8) :=
  match fetch.text, fetch.write, fetch.rename with
  | .ok body, .ok (), .ok () => .renamed (utf8 body)
  | .ok body, .ok (), .error _ => .stopped (some (utf8 body))
  | .ok _, .error (_, left), _ => .stopped left
  | _, _, _ => .nothing

/-- How far a use gets. -/
def Use.reach : Use → Replace.Reach (List UInt8)
  | .ended fetch => fetch.reach
  | .killed left => .stopped left
  | .late fetch => fetch.reach

/-- A text that is got is that of the server, and has entries. -/
theorem Fetch.text_eq_ok {fetch : Fetch} {text : List Char} (h : fetch.text = .ok text) :
    fetch.body = .ok text ∧ ∃ map, parseOuiFile text = .ok (some map) := by
  rw [Fetch.text] at h
  cases hdir : fetch.createDirAll with
  | error e =>
    rw [hdir] at h
    cases h
  | ok _ =>
    cases hbody : fetch.body with
    | error e =>
      rw [hdir, hbody] at h
      cases h
    | ok body =>
      rw [hdir, hbody] at h
      dsimp only at h
      cases hparse : parseOuiFile body with
      | panicked =>
        rw [hparse] at h
        cases h
      | err e => exact e.elim
      | ok map =>
        cases map with
        | none =>
          rw [hparse] at h
          cases h
        | some map =>
          rw [hparse] at h
          cases h
          exact ⟨rfl, map, hparse⟩

/-- What a download does to the files. -/
theorem runUpdateOui_files {around : Surroundings} {dest : Path}
    (h : around.cachePath = some dest) (fetch : Fetch) :
    (runUpdateOui fetch around).1 =
      { around with read := Replace.step dest.tmp dest around.read fetch.reach } := by
  rw [runUpdateOui, download, h, Fetch.reach]
  dsimp only
  cases fetch.text with
  | panicked => rfl
  | err e => rfl
  | ok body =>
    cases fetch.write with
    | error e => rfl
    | ok _ => cases fetch.rename <;> rfl

/-- It returns the path of the cache, and the command exits with 0, just when it has renamed the
file. -/
theorem download_cases {around : Surroundings} {dest : Path}
    (h : around.cachePath = some dest) (fetch : Fetch) :
    (∃ body, fetch.text = .ok body ∧ fetch.reach.new? = some (utf8 body) ∧
        (download fetch around).2 = .ok dest ∧ exitCode (runUpdateOui fetch around).2 = 0) ∨
      (fetch.reach.new? = none ∧ (∀ path, (download fetch around).2 ≠ .ok path) ∧
        exitCode (runUpdateOui fetch around).2 ≠ 0) := by
  rw [runUpdateOui, download, h, Fetch.reach]
  dsimp only
  cases fetch.text with
  | panicked => exact .inr ⟨rfl, (fun _ hok => by cases hok), (by decide : 101 ≠ 0)⟩
  | err e => exact .inr ⟨rfl, (fun _ hok => by cases hok), Nat.one_ne_zero⟩
  | ok body =>
    cases fetch.write with
    | error e => exact .inr ⟨rfl, (fun _ hok => by cases hok), Nat.one_ne_zero⟩
    | ok _ =>
      cases fetch.rename with
      | error e => exact .inr ⟨rfl, (fun _ hok => by cases hok), Nat.one_ne_zero⟩
      | ok _ => exact .inl ⟨body, rfl, rfl, rfl, rfl⟩

/-- A use that is not killed before the renaming saves a text just when it renames the file. -/
theorem saved?_cases {around : Surroundings} {dest : Path} (h : around.cachePath = some dest)
    {u : Use} {fetch : Fetch} (hu : u = .ended fetch ∨ u = .late fetch) :
    (∃ body, fetch.text = .ok body ∧ fetch.reach.new? = some (utf8 body) ∧
        around.saved? u = some body) ∨
      fetch.reach.new? = none ∧ around.saved? u = none := by
  obtain ⟨body, htext, hnew, hok, hcode⟩ | ⟨hnew, hok, hcode⟩ := download_cases h fetch
  · refine .inl ⟨body, htext, hnew, ?_⟩
    have hbody := (Fetch.text_eq_ok htext).1
    rcases hu with rfl | rfl
    · rw [Surroundings.saved?, if_pos hcode, hbody]
      rfl
    · rw [Surroundings.saved?, hok, hbody]
      rfl
  · refine .inr ⟨hnew, ?_⟩
    rcases hu with rfl | rfl
    · rw [Surroundings.saved?, if_neg hcode]
    · rw [Surroundings.saved?]
      split
      · exact absurd ‹_› (hok _)
      · rfl

/-- Without a path for the cache, a use does nothing. -/
theorem use_of_none {around : Surroundings} (h : around.cachePath = none) (u : Use) :
    around.use u = around ∧ around.saved? u = none := by
  cases u with
  | ended fetch =>
    rw [Surroundings.use, Surroundings.saved?, runUpdateOui, download, h]
    exact ⟨rfl, rfl⟩
  | killed left =>
    rw [Surroundings.use, h]
    exact ⟨rfl, rfl⟩
  | late fetch =>
    rw [Surroundings.use, Surroundings.saved?, runUpdateOui, download, h]
    exact ⟨rfl, rfl⟩

/-- With one, it is a replacement of the cache, -/
theorem use_eq {around : Surroundings} {dest : Path} (h : around.cachePath = some dest) (u : Use) :
    around.use u = { around with read := Replace.step dest.tmp dest around.read u.reach } := by
  cases u with
  | ended fetch => exact runUpdateOui_files h fetch
  | killed left =>
    rw [Surroundings.use, h]
    rfl
  | late fetch => exact runUpdateOui_files h fetch

/-- which gets to its end just when a text is saved. -/
theorem new?_reach {around : Surroundings} {dest : Path} (h : around.cachePath = some dest)
    (u : Use) : u.reach.new? = (around.saved? u).map utf8 := by
  have hfetch {fetch : Fetch} (hu : u = .ended fetch ∨ u = .late fetch) :
      fetch.reach.new? = (around.saved? u).map utf8 := by
    obtain ⟨body, -, hnew, hsaved⟩ | ⟨hnew, hsaved⟩ := saved?_cases h hu
    · rw [hnew, hsaved, Option.map_some]
    · rw [hnew, hsaved, Option.map_none]
  cases u with
  | ended fetch => exact hfetch (.inl rfl)
  | killed left => rfl
  | late fetch => exact hfetch (.inr rfl)

/-- A text that is saved has entries. -/
theorem exists_map_of_saved {around : Surroundings} {u : Use} {text : List Char}
    (h : around.saved? u = some text) : ∃ map, parseOuiFile text = .ok (some map) := by
  cases hdest : around.cachePath with
  | none =>
    rw [(use_of_none hdest u).2] at h
    cases h
  | some dest =>
    have hfetch {fetch : Fetch} (hu : u = .ended fetch ∨ u = .late fetch) :
        ∃ map, parseOuiFile text = .ok (some map) := by
      obtain ⟨body, htext, -, hsaved⟩ | ⟨-, hsaved⟩ := saved?_cases hdest hu
      · rw [hsaved] at h
        cases h
        exact (Fetch.text_eq_ok htext).2
      · rw [hsaved] at h
        cases h
    cases u with
    | ended fetch => exact hfetch (.inl rfl)
    | killed left => cases h
    | late fetch => exact hfetch (.inr rfl)

/-- The text that the last use has saved that has saved one. -/
def Surroundings.lastSaved (around : Surroundings) (uses : List Use) : Option (List Char) :=
  (uses.filterMap around.saved?).getLast?

/-- It is what the last replacement has brought. -/
theorem last_reach {around : Surroundings} {dest : Path} (h : around.cachePath = some dest)
    (uses : List Use) :
    Replace.last (uses.map Use.reach) = (around.lastSaved uses).map utf8 := by
  rw [Replace.last, Surroundings.lastSaved, List.filterMap_map, ← List.getLast?_map,
    List.map_filterMap]
  exact congrArg _ (List.filterMap_congr fun u _ => new?_reach h u)

/-- A run of uses is one of replacements. -/
theorem run_use {around : Surroundings} {dest : Path} (h : around.cachePath = some dest)
    (uses : List Use) :
    Machine.run Surroundings.use around uses =
      { around with
        read := Machine.run (Replace.step dest.tmp dest) around.read (uses.map Use.reach) } := by
  induction uses generalizing around with
  | nil => rfl
  | cons u uses ih =>
    rw [Machine.run_cons, use_eq h]
    exact ih h

/-- Without a path for the cache, a run does nothing. -/
theorem run_use_of_none {around : Surroundings} (h : around.cachePath = none) (uses : List Use) :
    Machine.run Surroundings.use around uses = around ∧ around.lastSaved uses = none := by
  induction uses with
  | nil => exact ⟨rfl, rfl⟩
  | cons u uses ih =>
    obtain ⟨huse, hsaved⟩ := use_of_none h u
    rw [Machine.run_cons, huse, Surroundings.lastSaved, List.filterMap_cons_none hsaved]
    exact ih

/-- The text of the first file of the system that is one. -/
def Surroundings.systemText (around : Surroundings) : Option (List Char) :=
  ouiPaths.findSome? around.readToString

/-- `load` reads that text, or else the one of the cache. -/
theorem load_eq (around : Surroundings) (embedded : Option (List Char)) :
    load around embedded = (around.systemText.or
      (around.cachePath.bind around.readToString)).elim (loadEmbedded embedded) parseOuiFile := by
  have hcache : around.cachePath.toList.findSome? around.readToString =
      around.cachePath.bind around.readToString := by
    cases around.cachePath with
    | none => rfl
    | some dest => rw [Option.toList_some, List.findSome?_singleton, Option.bind_some]
  rw [load, Surroundings.candidates, List.findSome?_append, hcache, Surroundings.systemText]
  cases (ouiPaths.findSome? around.readToString).or
    (around.cachePath.bind around.readToString) <;> rfl

/-- It depends on the files of the system only. -/
theorem systemText_congr {around around' : Surroundings}
    (h : ∀ path ∈ ouiPaths, around'.read path = around.read path) :
    around'.systemText = around.systemText := by
  have htexts : ouiPaths.map around'.readToString = ouiPaths.map around.readToString := by
    refine List.map_congr_left fun path hpath => ?_
    rw [Surroundings.readToString, Surroundings.readToString, h path hpath]
  have hfind (a : Surroundings) :
      a.systemText = (ouiPaths.map a.readToString).findSome? id := by
    rw [List.findSome?_map, Function.id_comp, Surroundings.systemText]
  rw [hfind, hfind, htexts]

/-- After any downloads, with whatever success, and also if some are killed, every file but the
cache and the one beside it is as before, and the cache holds the text of the last download that has
put one in its place, or what it held before; a download that comes to its end does so just when it
exits with 0. `load` then reads the file of the system that it would have read before, or else that
text, in which there are entries; it reads what it would have read before as long as no download has
been saved. -/
theorem downloads_load (around : Surroundings) (uses : List Use) (embedded : Option (List Char)) :
    let after := Machine.run Surroundings.use around uses
    let saved := around.lastSaved uses
    (∀ path, (∀ dest, around.cachePath = some dest → path ≠ dest ∧ path ≠ dest.tmp) →
        after.read path = around.read path) ∧
      (∀ dest, around.cachePath = some dest →
        after.read dest = (saved.map utf8).or (around.read dest)) ∧
      load after embedded = (around.systemText.or saved).elim (load around embedded) parseOuiFile ∧
      ∀ text, saved = some text → ∃ map, parseOuiFile text = .ok (some map) ∧ map ≠ ∅ := by
  have hentries (text : List Char) (h : around.lastSaved uses = some text) :
      ∃ map, parseOuiFile text = .ok (some map) ∧ map ≠ ∅ := by
    obtain ⟨u, -, hu⟩ := List.mem_filterMap.mp (List.mem_of_getLast? h)
    obtain ⟨map, hmap⟩ := exists_map_of_saved hu
    exact ⟨map, hmap, readEntries_ne_empty hmap⟩
  cases hdest : around.cachePath with
  | none =>
    obtain ⟨hrun, hlast⟩ := run_use_of_none hdest uses
    rw [hrun, hlast]
    refine ⟨fun _ _ => rfl, nofun, ?_, nofun⟩
    rw [Option.or_none, load_eq, hdest]
    cases around.systemText <;> rfl
  | some dest =>
    obtain ⟨hne, hsystem⟩ := cache_apart hdest
    rw [run_use hdest]
    generalize hread :
      Machine.run (Replace.step dest.tmp dest) around.read (uses.map Use.reach) = read
    have hcache : read dest = ((around.lastSaved uses).map utf8).or (around.read dest) := by
      rw [← hread, Replace.run_dest hne, last_reach hdest]
    have hother (path : Path) (h : path ≠ dest ∧ path ≠ dest.tmp) :
        read path = around.read path := by
      rw [← hread, Replace.run_other h.2 h.1]
    refine ⟨fun path hpath => hother path (hpath dest rfl), ?_, ?_, hentries⟩
    · rintro dest' ⟨⟩
      exact hcache
    · have hafter : ({ around with read := read } : Surroundings).cachePath = some dest := hdest
      have hsame : ({ around with read := read } : Surroundings).systemText = around.systemText :=
        systemText_congr fun path hpath => hother path (hsystem path hpath)
      rw [load_eq, load_eq, hsame, hafter, hdest]
      cases around.systemText with
      | some text => rfl
      | none =>
        -- The cache is read, which holds the bytes of the text.
        have htext : ({ around with read := read } : Surroundings).readToString dest =
            (((around.lastSaved uses).map utf8).or (around.read dest)).bind fromUtf8 :=
          congrArg (·.bind fromUtf8) hcache
        rw [Option.bind_some, htext]
        cases around.lastSaved uses with
        | none => rfl
        | some text =>
          rw [Option.map_some, Option.some_or, Option.bind_some, fromUtf8_utf8]
          rfl

end Uscan.Oui
