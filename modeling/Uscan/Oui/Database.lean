import Uscan.Lib.Split
import Uscan.Oui.File

/-!
# The database of vendors

The rest of `oui.rs`: where the vendors come from, and that the two formats of the database say the
same. `load` takes the first of four files that can be read as text, and the built-in database if
there is none. Whether the text has an entry it does not look at, so that a file without entries
leaves it without data (`load_data_iff`).

A list of entries can be written as lines of either format, and both parsers read the same map from
it (`formats_agree`).
-/

namespace Uscan.Oui

/-! ## Where the data come from -/

/-- A path, in the bytes of the operating system. -/
abbrev Path := List UInt8

/-- `OUI_PATHS`. -/
def ouiPaths : List Path :=
  [utf8 "/usr/share/misc/oui.txt".toList, utf8 "/var/lib/ieee-data/oui.txt".toList,
    utf8 "/usr/share/ieee-data/oui.txt".toList]

/-- What `load` reads outside the program. -/
structure Surroundings where
  /-- The value of `XDG_CACHE_HOME`, if it is set. -/
  xdgCacheHome : Option Path
  /-- The value of `HOME`, if it is set. -/
  home : Option Path
  /-- The bytes of a file, if it can be read. -/
  read : Path → Option (List UInt8)

namespace Surroundings

variable (around : Surroundings)

/-- `cache_path`. -/
def cachePath : Option Path :=
  let join : Path → Path → Path := joinPath (ascii '/')
  (around.xdgCacheHome.or (around.home.map (join · (utf8 ".cache".toList)))).map fun dir =>
    join (join dir (utf8 "uscan".toList)) (utf8 "oui.txt".toList)

/-- `read_to_string`: the text of a file, if it can be read and is UTF-8. -/
def readToString (path : Path) : Option (List Char) := (around.read path).bind fromUtf8

/-- The paths that `load` tries. -/
def candidates : List Path := ouiPaths ++ around.cachePath.toList

/-- The texts of the candidates, each if it is one. -/
def texts : List (Option (List Char)) := around.candidates.map around.readToString

end Surroundings

/-- `load_embedded`, of the text that the built-in database is unpacked to. -/
def loadEmbedded (embedded : Option (List Char)) : Res Empty (Option OuiMap) :=
  match embedded with
  | some text => parseCompact text
  | none => .ok none

/-- `load`. -/
def load (around : Surroundings) (embedded : Option (List Char)) : Res Empty (Option OuiMap) :=
  match around.candidates.findSome? around.readToString with
  | some text => parseOuiFile text
  | none => loadEmbedded embedded

/-- `lookup`, in what `load` gave when it was called first. -/
def lookup (map : Option OuiMap) (mac : Vector UInt8 6) : Option (List Char) :=
  map.bind (·.lookup ⟨mac[0], mac[1], mac[2]⟩)

/-- With the data of a file, a lookup gives the vendor of the last line for the first three bytes of
the address. -/
theorem lookup_eq_some_iff {text : List Char} {map : Option OuiMap}
    (h : parseOuiFile text = .ok map) (mac : Vector UInt8 6) (vendor : List Char) :
    lookup map mac = some vendor ↔
      ∃ before line after, strLines text = before ++ line :: after ∧
        Contributes line ⟨mac[0], mac[1], mac[2]⟩ vendor ∧
        ∀ line' ∈ after, ∀ vendor', ¬ Contributes line' ⟨mac[0], mac[1], mac[2]⟩ vendor' :=
  (lastWins_of_parseOuiFile h).2.bind_lookup_iff _ vendor

/-- A text has an entry. -/
def HasEntry (text : List Char) : Prop :=
  ∃ line ∈ strLines text, ∃ oui vendor, Contributes line oui vendor

/-- The map of the first text that has an entry, or `db` if none has one. -/
inductive FirstData (db : OuiMap) : List (Option (List Char)) → OuiMap → Prop where
  /-- There is no text left. -/
  | embedded : FirstData db [] db
  /-- The first text has an entry. -/
  | here {text : List Char} {texts : List (Option (List Char))} {map : OuiMap}
    (h : HasEntry text) (hmap : LastWins Contributes (strLines text) (some map)) :
    FirstData db (some text :: texts) map
  /-- There is no first text, or it has no entry. -/
  | next {text : Option (List Char)} {texts : List (Option (List Char))} {map : OuiMap}
    (h : ∀ t, text = some t → ¬ HasEntry t) (hrest : FirstData db texts map) :
    FirstData db (text :: texts) map

/-- Where no file is a text, the data are the built-in ones. -/
theorem firstData_of_none {db : OuiMap} {texts : List (Option (List Char))}
    (h : texts.findSome? id = none) : FirstData db texts db := by
  induction texts with
  | nil => exact .embedded
  | cons text texts ih =>
    rw [List.findSome?_cons] at h
    cases text with
    | none => exact .next (fun t ht => by cases ht) (ih h)
    | some t => cases h

/-- Where the first text has an entry, the data are its own. -/
theorem firstData_of_some {db map : OuiMap} {text : List Char}
    {texts : List (Option (List Char))} (h : texts.findSome? id = some text)
    (hentry : HasEntry text) (hmap : LastWins Contributes (strLines text) (some map)) :
    FirstData db texts map := by
  induction texts with
  | nil => cases h
  | cons first texts ih =>
    rw [List.findSome?_cons] at h
    cases first with
    | none => exact .next (fun t ht => by cases ht) (ih h)
    | some t =>
      cases h
      exact .here hentry hmap

/-- A map that a parser returns is not empty. -/
theorem readEntries_ne_empty {entry : List Char → Res Unit (Option (Oui × List Char))}
    {lines : List (List Char)} {start map : OuiMap}
    (h : readEntries entry lines start = .ok (some map)) : map ≠ ∅ := by
  induction lines generalizing start with
  | nil =>
    rw [readEntries, unlessEmpty, Res.ok.injEq] at h
    split_ifs at h with hempty
    rwa [← Option.some.inj h]
  | cons line lines ih =>
    rw [readEntries] at h
    cases hline : entry line with
    | ok e =>
      rw [hline] at h
      cases e with
      | none => exact ih h
      | some e => exact ih h
    | err e =>
      rw [hline] at h
      cases h
    | panicked =>
      rw [hline] at h
      cases h

/-- The parser finds a map in just the texts that have an entry and no broken character. -/
theorem exists_map_iff {text : List Char} :
    (∃ map, parseOuiFile text = .ok (some map)) ↔
      HasEntry text ∧ ∀ line ∈ strLines text, ¬ BreaksCharacter line := by
  constructor
  · rintro ⟨map, hmap⟩
    obtain ⟨hwhole, hlast⟩ := lastWins_of_parseOuiFile hmap
    refine ⟨?_, hwhole⟩
    -- A text without an entry has no map.
    by_contra hno
    refine Option.some_ne_none map (hlast.none_iff.mpr fun line hmem oui vendor hcontr => ?_)
    exact hno ⟨line, hmem, oui, vendor, hcontr⟩
  · rintro ⟨⟨line, hmem, oui, vendor, hcontr⟩, hwhole⟩
    obtain ⟨result, hresult, hlast⟩ := parseOuiFile_lastWins hwhole
    cases result with
    | none => exact absurd hcontr (hlast.none_iff.mp rfl line hmem oui vendor)
    | some map => exact ⟨map, hresult⟩

/-- `load` returns the map of the first file with an entry, or else the built-in one, exactly when
the first file that is a text has an entry and no line of it breaks a character. -/
theorem load_data_iff (around : Surroundings) (embedded : List Char) (db : OuiMap)
    (hdb : parseCompact embedded = .ok (some db)) :
    (∃ map, load around (some embedded) = .ok (some map) ∧ map ≠ ∅ ∧
        FirstData db around.texts map) ↔
      ∀ text, around.candidates.findSome? around.readToString = some text →
        HasEntry text ∧ ∀ line ∈ strLines text, ¬ BreaksCharacter line := by
  have htexts : around.texts.findSome? id =
      around.candidates.findSome? around.readToString := by
    rw [Surroundings.texts, List.findSome?_map, Function.id_comp]
  rw [load]
  cases hfirst : around.candidates.findSome? around.readToString with
  | none =>
    -- Without a text both sides hold: the condition is about the first text only.
    refine iff_of_true ⟨db, hdb, readEntries_ne_empty hdb, ?_⟩ fun text htext => by cases htext
    exact firstData_of_none (htexts.trans hfirst)
  | some text =>
    constructor
    · rintro ⟨map, hmap, -⟩ text' htext
      cases htext
      exact exists_map_iff.mp ⟨map, hmap⟩
    · intro h
      obtain ⟨map, hmap⟩ := exists_map_iff.mpr (h text rfl)
      exact ⟨map, hmap, readEntries_ne_empty hmap, firstData_of_some (htexts.trans hfirst)
        (h text rfl).1 (lastWins_of_parseOuiFile hmap).2⟩

/-- A compact database with one entry. -/
def intel : List Char := "847B57\tIntel Corporate".toList

/-- The map of that database. -/
def intelMap : OuiMap := (∅ : OuiMap).insert ⟨0x84, 0x7b, 0x57⟩ "Intel Corporate".toList

/-- A published file with two vendors, on a line of either ending. -/
def twoVendors : List Char :=
  "847B57     (base 16)\tIntel Corp\r\n001122     (base 16)\tCimsys\n".toList

/-- Surroundings in which the second candidate has that file, and there is no other file. -/
def vendorFile : Surroundings where
  xdgCacheHome := none
  home := some (utf8 "/root".toList)
  read path :=
    if path = utf8 "/var/lib/ieee-data/oui.txt".toList then some (utf8 twoVendors) else none

/-- The file is taken, and not the built-in data. -/
theorem load_data_intel :
    ∃ map, load vendorFile (some intel) = .ok (some map) ∧ map ≠ ∅ ∧
      FirstData intelMap vendorFile.texts map := by
  have hfile : vendorFile.candidates.findSome? vendorFile.readToString = some twoVendors := by
    decide +kernel
  have hmap : parseOuiFile twoVendors = .ok (some (((∅ : OuiMap).insert ⟨0x84, 0x7b, 0x57⟩
      "Intel Corp".toList).insert ⟨0x00, 0x11, 0x22⟩ "Cimsys".toList)) := by
    decide +kernel
  refine (load_data_iff vendorFile intel intelMap (by decide)).mpr fun text htext => ?_
  obtain rfl := Option.some.inj (hfile.symm.trans htext)
  exact exists_map_iff.mp ⟨_, hmap⟩

/-- Surroundings in which the first file is empty and there is no other. -/
def emptyFile : Surroundings :=
  ⟨none, none, fun path => if path = utf8 "/usr/share/misc/oui.txt".toList then some [] else none⟩

/-- An empty file hides the built-in data. -/
theorem not_load_data :
    ¬ ∀ (around : Surroundings) (embedded : List Char) (db : OuiMap),
      parseCompact embedded = .ok (some db) →
        ∃ map, load around (some embedded) = .ok (some map) ∧ map ≠ ∅ ∧
          FirstData db around.texts map := by
  intro h
  obtain ⟨map, hok, -⟩ := h emptyFile intel intelMap (by decide)
  have hread : emptyFile.readToString (utf8 "/usr/share/misc/oui.txt".toList) = some [] :=
    fromUtf8_utf8 []
  have hfirst : emptyFile.candidates.findSome? emptyFile.readToString = some [] := by
    rw [Surroundings.candidates, ouiPaths, List.cons_append, List.findSome?_cons, hread]
  rw [load, hfirst] at hok
  cases hok

/-! ## The two formats -/

/-- An entry to write into a database. -/
structure Entry where
  /-- The prefix. -/
  oui : Oui
  /-- The vendor. -/
  vendor : List Char
  /-- The vendor has a name, -/
  vendor_ne : vendor ≠ []
  /-- without white space around it, -/
  trimmed : trim vendor = vendor
  /-- on one line. -/
  notMem : '\n' ∉ vendor

/-- A line of the published file for an entry. -/
def OfficialLine (e : Entry) (line : List Char) : Prop :=
  ∃ digits spaces, HexOf digits e.oui ∧ (∀ c ∈ spaces, c = ' ') ∧
    line = digits ++ spaces ++ marker ++ '\t' :: e.vendor

/-- A line of the compact database for an entry. -/
def CompactLine (e : Entry) (line : List Char) : Prop :=
  ∃ digits, HexOf digits e.oui ∧ line = digits ++ '\t' :: e.vendor

/-- The value of an entry, as a line of either format gives it. -/
def Entry.pair (e : Entry) : Oui × List Char := (e.oui, e.vendor)

/-- A vendor does not end in white space. -/
theorem Entry.not_isWhitespace_getLast (e : Entry) (c : Char) (h : e.vendor.getLast? = some c) :
    isWhitespace c = false := by
  have hself : e.vendor.rdropWhile isWhitespace = e.vendor := by
    have htrim := e.trimmed
    rw [trim] at htrim
    rw [← htrim, List.rdropWhile_idempotent]
  have hlast := List.rdropWhile_eq_self_iff.mp hself e.vendor_ne
  rw [List.getLast?_eq_some_getLast e.vendor_ne, Option.some.injEq] at h
  rwa [h, Bool.not_eq_true] at hlast

/-- What a line is on which the vendor follows a tab: it is one line, whose end is its own. -/
theorem Entry.tab_line (e : Entry) {u : List Char} (hu : '\n' ∉ u) :
    '\n' ∉ u ++ '\t' :: e.vendor ∧ (u ++ '\t' :: e.vendor).getLast? ≠ some '\r' := by
  constructor
  · simpa using ⟨hu, e.notMem⟩
  · intro h
    rw [List.append_cons, List.getLast?_append_of_ne_nil _ e.vendor_ne] at h
    exact absurd (e.not_isWhitespace_getLast '\r' h) (by decide)

/-- A line of the published file gives its entry. -/
theorem OfficialLine.entry {e : Entry} {line : List Char} (h : OfficialLine e line) :
    officialEntry line = .ok (some e.pair) := by
  obtain ⟨digits, spaces, hdigits, hspaces, rfl⟩ := h
  have hgap : ∀ c ∈ spaces, isWhitespace c = true := by
    intro c hc
    rw [hspaces c hc]
    decide
  have htrim : trim ('\t' :: e.vendor) = e.vendor := by
    have htab : ∀ c ∈ ['\t'], isWhitespace c = true := List.all_eq_true.mp (by decide)
    have h := trim_append_left htab e.vendor
    rwa [e.trimmed] at h
  have hcontr : Contributes (digits ++ spaces ++ marker ++ '\t' :: e.vendor) e.oui e.vendor :=
    ⟨digits, spaces, '\t' :: e.vendor, rfl, hdigits, hgap, htrim.symm, e.vendor_ne⟩
  -- Byte 6 of the line is the end of the digits.
  rcases officialEntry_spec (digits ++ spaces ++ marker ++ '\t' :: e.vendor) with
    ⟨⟨-, hcut⟩, -⟩ | ⟨-, pair, hentry, hpair⟩
  · rw [List.append_assoc digits, List.append_assoc digits, ← hdigits.byteLen,
      splitAtByte_append] at hcut
    cases hcut
  · rw [hentry, (hpair e.oui e.vendor).mp hcontr]
    rfl

/-- A line of the compact database gives its entry. -/
theorem CompactLine.entry {e : Entry} {line : List Char} (h : CompactLine e line) :
    compactEntry line = .ok (some e.pair) := by
  obtain ⟨digits, hdigits, rfl⟩ := h
  have hsplit : splitOnce '\t' (digits ++ '\t' :: e.vendor) = some (digits, e.vendor) :=
    splitOnce_append (hdigits.notMem (by decide)) _
  have htest : ¬ (byteLen digits ≠ 6 ∨ (utf8 digits).all isHexByte = false) := by
    rw [hdigits.byteLen, hdigits.all]
    decide
  have houi := ouiAt_append hdigits []
  rw [List.append_nil] at houi
  rw [compactEntry, hsplit]
  simp only [if_neg htest, houi, Res.ok_bind, e.trimmed]
  rfl

/-- A line of the published file is one line. -/
theorem OfficialLine.one_line {e : Entry} {line : List Char} (h : OfficialLine e line) :
    '\n' ∉ line ∧ line.getLast? ≠ some '\r' := by
  obtain ⟨digits, spaces, hdigits, hspaces, rfl⟩ := h
  have hmarker : '\n' ∉ marker := by decide
  have hblank : '\n' ∉ spaces := fun hmem => absurd (hspaces '\n' hmem) (by decide)
  refine e.tab_line ?_
  simp only [List.mem_append, not_or]
  exact ⟨⟨hdigits.notMem (by decide), hblank⟩, hmarker⟩

/-- A line of the compact database is one line. -/
theorem CompactLine.one_line {e : Entry} {line : List Char} (h : CompactLine e line) :
    '\n' ∉ line ∧ line.getLast? ≠ some '\r' := by
  obtain ⟨digits, hdigits, rfl⟩ := h
  exact e.tab_line (hdigits.notMem (by decide))

/-- A parser puts the entries of written lines into the map, if it reads every such line. -/
theorem readEntries_written {entry : List Char → Res Unit (Option (Oui × List Char))}
    {IsLine : Entry → List Char → Prop} {entries : List Entry} {lines : List (List Char)}
    {text : List Char} (hlines : List.Forall₂ IsLine entries lines) (htext : TextOf lines text)
    (hentry : ∀ e line, IsLine e line → entry line = .ok (some e.pair))
    (hline : ∀ e line, IsLine e line → '\n' ∉ line ∧ line.getLast? ≠ some '\r') :
    readEntries entry (strLines text) ∅ =
      .ok (unlessEmpty (insertAll (entries.map Entry.pair) ∅)) := by
  -- The lines of the text are the written ones, and the loop takes an entry from each.
  have hone (es : List Entry) (ls : List (List Char)) (h : List.Forall₂ IsLine es ls) :
      ∀ line ∈ ls, '\n' ∉ line ∧ line.getLast? ≠ some '\r' := by
    induction h with
    | nil => exact fun _ hmem => absurd hmem List.not_mem_nil
    | cons h _ ih => exact List.forall_mem_cons.mpr ⟨hline _ _ h, ih⟩
  have hloop (es : List Entry) (ls : List (List Char)) (h : List.Forall₂ IsLine es ls)
      (map : OuiMap) : readEntries entry ls map =
        .ok (unlessEmpty (insertAll (es.map Entry.pair) map)) := by
    induction h generalizing map with
    | nil => rfl
    | cons h _ ih =>
      rw [readEntries, hentry _ _ h]
      exact ih _
  rw [strLines_textOf htext (hone entries lines hlines), hloop entries lines hlines]

/-- An entry gives its prefix its vendor. -/
def Entry.Gives (e : Entry) (oui : Oui) (vendor : List Char) : Prop :=
  e.oui = oui ∧ e.vendor = vendor

/-- Entries are read as the same map from both formats. The last entry of each prefix wins, and only
a list without entries gives no map. -/
theorem formats_agree (entries : List Entry) (official compact : List (List Char))
    (text text' : List Char) (hofficial : List.Forall₂ OfficialLine entries official)
    (hcompact : List.Forall₂ CompactLine entries compact) (htext : TextOf official text)
    (htext' : TextOf compact text') :
    ∃ result, parseOuiFile text = .ok result ∧ parseCompact text' = .ok result ∧
      LastWins Entry.Gives entries result ∧ (result = none ↔ entries = []) := by
  have hlast : LastWins Entry.Gives entries
      (unlessEmpty (insertAll (entries.map Entry.pair) ∅)) := by
    rw [← List.filterMap_eq_map']
    exact lastWins_insertAll fun e _ oui vendor => by simp [Entry.Gives, Entry.pair]
  refine ⟨_, readEntries_written hofficial htext (fun _ _ h => h.entry) (fun _ _ h => h.one_line),
    readEntries_written hcompact htext' (fun _ _ h => h.entry) (fun _ _ h => h.one_line), hlast, ?_⟩
  rw [hlast.none_iff, List.eq_nil_iff_forall_not_mem]
  exact forall₂_congr fun e _ => ⟨fun h => h e.oui e.vendor ⟨rfl, rfl⟩, fun h => h.elim⟩

/-- The entry of the compact database `intel`. -/
def intelEntry : Entry :=
  ⟨⟨0x84, 0x7b, 0x57⟩, "Intel Corporate".toList, by decide, by decide, by decide⟩

/-- The entry as a line of the published file. -/
def intelLine : List Char :=
  ['8', '4', '7', 'B', '5', '7'] ++ [' ', ' '] ++ marker ++ '\t' :: intelEntry.vendor

/-- Another vendor of the same prefix. -/
def otherEntry : Entry := ⟨⟨0x84, 0x7b, 0x57⟩, "Intel Corp".toList, by decide, by decide, by decide⟩

/-- That entry as a line of the published file, with small digits. -/
def otherLine : List Char :=
  ['8', '4', '7', 'b', '5', '7'] ++ [] ++ marker ++ '\t' :: otherEntry.vendor

/-- Two vendors of one prefix are read as the same map from both formats: that of the second. -/
theorem formats_agree_intel :
    ∃ result, parseOuiFile (intelLine ++ '\r' :: '\n' :: (otherLine ++ ['\n'])) = .ok result ∧
      parseCompact (intel ++ '\n' :: "847b57\tIntel Corp".toList) = .ok result ∧
      LastWins Entry.Gives [intelEntry, otherEntry] result ∧
      (result = none ↔ [intelEntry, otherEntry] = []) := by
  have hlarge : HexOf ['8', '4', '7', 'B', '5', '7'] intelEntry.oui :=
    ⟨⟨rfl, rfl⟩, ⟨rfl, rfl⟩, ⟨rfl, rfl⟩⟩
  have hsmall : HexOf ['8', '4', '7', 'b', '5', '7'] otherEntry.oui :=
    ⟨⟨rfl, rfl⟩, ⟨rfl, rfl⟩, ⟨rfl, rfl⟩⟩
  refine formats_agree [intelEntry, otherEntry] [intelLine, otherLine]
    [intel, "847b57\tIntel Corp".toList] _ _ (.cons ⟨_, [' ', ' '], hlarge, ?_, rfl⟩ ?_)
    (.cons ⟨_, hlarge, by decide⟩ (.cons ⟨_, hsmall, by decide⟩ .nil)) (.crlf (.lf .nil))
    (.lf (.last (by decide)))
  · exact List.forall_iff_forall_mem.mp (by decide)
  · exact .cons ⟨_, [], hsmall, fun c hc => absurd hc List.not_mem_nil, rfl⟩ .nil

end Uscan.Oui
