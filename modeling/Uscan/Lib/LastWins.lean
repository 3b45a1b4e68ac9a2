import Mathlib.Data.Finmap
import Mathlib.Tactic.Common

/-!
# Maps in which the last entry wins

A loop goes over items, some of which contribute an entry, and puts the entries into a map, so that
an entry replaces an earlier one with the same key. The map that comes out has for each key the
value of the last item that contributes one (`LastWins`), and is empty exactly when no item
contributes (`lastWins_insertAll`).
-/

namespace Uscan

variable {α β ι : Type} [DecidableEq α]

/-- A map after a list of entries has been put into it, in order. -/
def insertAll (entries : List (α × β)) (map : Finmap fun _ : α => β) : Finmap fun _ : α => β :=
  entries.foldl (fun map e => map.insert e.1 e.2) map

/-- Of the entries with a key, the map has the last one. -/
theorem lookup_insertAll (entries : List (α × β)) (map : Finmap fun _ : α => β) (a : α) :
    (insertAll entries map).lookup a = (entries.reverse.lookup a).or (map.lookup a) := by
  induction entries generalizing map with
  | nil => rfl
  | cons e entries ih =>
    -- The entries after the first one are looked up before it.
    have hstep : insertAll (e :: entries) map = insertAll entries (map.insert e.1 e.2) := rfl
    rw [hstep, ih, List.reverse_cons, List.lookup_append, Option.or_assoc]
    congr 1
    by_cases h : a = e.1
    · subst h
      rw [Finmap.lookup_insert, List.lookup_cons_self, Option.some_or]
    · rw [Finmap.lookup_insert_of_ne _ h, List.lookup_cons, beq_false_of_ne h, List.lookup_nil,
        Option.none_or]

/-- A map is empty exactly when it has no key. -/
theorem eq_empty_iff_lookup {map : Finmap fun _ : α => β} : map = ∅ ↔ ∀ a, map.lookup a = none := by
  constructor
  · rintro rfl a
    exact Finmap.lookup_empty a
  · intro h
    exact Finmap.ext_lookup fun a => by rw [h a, Finmap.lookup_empty]

/-- A map, or nothing if it is empty. -/
def unlessEmpty [DecidableEq β] (map : Finmap fun _ : α => β) : Option (Finmap fun _ : α => β) :=
  if map = ∅ then none else some map

/-- The result of a loop over items: a map that has for each key the value of the last item that
contributes one, or nothing if no item contributes. -/
structure LastWins (contributes : ι → α → β → Prop) (items : List ι)
    (result : Option (Finmap fun _ : α => β)) : Prop where
  /-- There is no map exactly when no item contributes. -/
  none_iff : result = none ↔ ∀ item ∈ items, ∀ a b, ¬ contributes item a b
  /-- The map has the last value of each key. -/
  lookup_iff : ∀ map, result = some map → ∀ a b, map.lookup a = some b ↔
    ∃ before item after, items = before ++ item :: after ∧ contributes item a b ∧
      ∀ item' ∈ after, ∀ b', ¬ contributes item' a b'

variable {contributes : ι → α → β → Prop} {items : List ι}

/-- A key is looked up in the result, also if there is no map. -/
theorem LastWins.bind_lookup_iff {result : Option (Finmap fun _ : α => β)}
    (h : LastWins contributes items result) (a : α) (b : β) :
    result.bind (·.lookup a) = some b ↔
      ∃ before item after, items = before ++ item :: after ∧ contributes item a b ∧
        ∀ item' ∈ after, ∀ b', ¬ contributes item' a b' := by
  cases result with
  | none =>
    refine iff_of_false (by simp) ?_
    rintro ⟨before, item, after, rfl, hitem, -⟩
    exact h.none_iff.mp rfl item (by simp) a b hitem
  | some map => exact h.lookup_iff map rfl a b

/-- The entry of a key is the last one exactly when no later item contributes one. -/
theorem lookup_reverse_filterMap {f : ι → Option (α × β)}
    (hf : ∀ item ∈ items, ∀ a b, contributes item a b ↔ f item = some (a, b)) (a : α) (b : β) :
    (items.filterMap f).reverse.lookup a = some b ↔
      ∃ before item after, items = before ++ item :: after ∧ contributes item a b ∧
        ∀ item' ∈ after, ∀ b', ¬ contributes item' a b' := by
  rw [List.lookup_eq_some_iff]
  constructor
  · rintro ⟨after, before, heq, hafter⟩
    rw [List.reverse_eq_iff, List.reverse_append, List.reverse_cons, List.append_assoc,
      List.singleton_append, List.filterMap_eq_append_iff] at heq
    obtain ⟨itemsBefore, rest, rfl, -, hrest⟩ := heq
    -- The items that contribute nothing before the last entry belong to the items before it.
    obtain ⟨silent, item, itemsAfter, rfl, -, hitem, hitems⟩ :=
      List.filterMap_eq_cons_iff.mp hrest
    refine ⟨itemsBefore ++ silent, item, itemsAfter, by rw [List.append_assoc],
      (hf item (by simp) a b).mpr hitem, fun item' hmem b' hcontr => ?_⟩
    have hentry : (a, b') ∈ itemsAfter.filterMap f :=
      List.mem_filterMap.mpr ⟨item', hmem, (hf item' (by simp [hmem]) a b').mp hcontr⟩
    rw [hitems, List.mem_reverse] at hentry
    simpa using hafter _ hentry
  · rintro ⟨before, item, after, rfl, hitem, hafter⟩
    refine ⟨(after.filterMap f).reverse, (before.filterMap f).reverse, ?_, fun e he => ?_⟩
    · rw [List.filterMap_append, List.filterMap_cons_some ((hf item (by simp) a b).mp hitem),
        List.reverse_append, List.reverse_cons, List.append_assoc, List.singleton_append]
    · obtain ⟨item', hmem, heq⟩ := List.mem_filterMap.mp (List.mem_reverse.mp he)
      rw [bne_iff_ne]
      rintro rfl
      exact hafter item' hmem e.2 ((hf item' (by simp [hmem]) e.1 e.2).mpr heq)

/-- The loop over items gives the map in which the last entry wins. -/
theorem lastWins_insertAll [DecidableEq β] {f : ι → Option (α × β)}
    (hf : ∀ item ∈ items, ∀ a b, contributes item a b ↔ f item = some (a, b)) :
    LastWins contributes items (unlessEmpty (insertAll (items.filterMap f) ∅)) := by
  have hlookup (a : α) : (insertAll (items.filterMap f) ∅).lookup a =
      (items.filterMap f).reverse.lookup a := by
    rw [lookup_insertAll, Finmap.lookup_empty, Option.or_none]
  refine ⟨?_, fun map hmap a b => ?_⟩
  · have hnone : unlessEmpty (insertAll (items.filterMap f) ∅) = none ↔
        ∀ a, (items.filterMap f).reverse.lookup a = none := by
      rw [unlessEmpty]
      split_ifs with hempty
      · simpa [← hlookup] using eq_empty_iff_lookup.mp hempty
      · rw [eq_empty_iff_lookup] at hempty
        simpa [← hlookup] using hempty
    rw [hnone]
    constructor
    · intro h item hitem a b hcontr
      have hmem : (a, b) ∈ (items.filterMap f).reverse :=
        List.mem_reverse.mpr (List.mem_filterMap.mpr ⟨item, hitem, (hf item hitem a b).mp hcontr⟩)
      simpa using List.lookup_eq_none_iff.mp (h a) _ hmem
    · intro h a
      rw [Option.eq_none_iff_forall_ne_some]
      intro b hb
      obtain ⟨before, item, after, rfl, hitem, -⟩ := (lookup_reverse_filterMap hf a b).mp hb
      exact h item (by simp) a b hitem
  · rw [unlessEmpty] at hmap
    split_ifs at hmap
    cases hmap
    rw [hlookup, lookup_reverse_filterMap hf]

/-! ## Looking up one key -/

/-- The value of an item for a key. -/
def valueFor (f : ι → Option (α × β)) (a : α) (item : ι) : Option β :=
  (f item).bind fun e => if e.1 = a then some e.2 else none

/-- The value of the last item that has one for a key. -/
def lastValue (f : ι → Option (α × β)) (items : List ι) (a : α) : Option β :=
  (items.filterMap f).reverse.lookup a

/-- The last value stands at an item after which no item has a value for the key. -/
theorem lastValue_eq_some_iff {f : ι → Option (α × β)} {a : α} {b : β} :
    lastValue f items a = some b ↔
      ∃ before item after, items = before ++ item :: after ∧ f item = some (a, b) ∧
        ∀ item' ∈ after, ∀ b', f item' ≠ some (a, b') :=
  @lookup_reverse_filterMap α β ι _ (fun item a b => f item = some (a, b)) items f
    (fun _ _ _ _ => Iff.rfl) a b

/-- Looking up a key finds the first entry with it. -/
theorem find?_eq_lookup (entries : List (α × β)) (a : α) :
    (entries.find? fun e => decide (e.1 = a)).map (·.2) = entries.lookup a := by
  induction entries with
  | nil => rfl
  | cons e entries ih =>
    by_cases h : e.1 = a
    · rw [List.find?_cons_of_pos (by simpa using h), ← h, List.lookup_cons_self]
      rfl
    · rw [List.find?_cons_of_neg (by simpa using h), ih, List.lookup_cons,
        beq_false_of_ne (Ne.symm h)]

/-- There is a last value exactly if some item has one. -/
theorem lastValue_ne_none_iff {f : ι → Option (α × β)} {a : α} :
    lastValue f items a ≠ none ↔ ∃ item ∈ items, ∃ b, f item = some (a, b) := by
  constructor
  · intro h
    obtain ⟨b, hb⟩ := Option.ne_none_iff_exists'.mp h
    obtain ⟨before, item, after, rfl, hitem, -⟩ := lastValue_eq_some_iff.mp hb
    exact ⟨item, by simp, b, hitem⟩
  · rintro ⟨item, hmem, b, hitem⟩ hnone
    have hentry : (a, b) ∈ (items.filterMap f).reverse :=
      List.mem_reverse.mpr (List.mem_filterMap.mpr ⟨item, hmem, hitem⟩)
    simpa using List.lookup_eq_none_iff.mp hnone _ hentry

/-- The value of the first item counts if no later item has one. -/
theorem lastValue_cons (f : ι → Option (α × β)) (item : ι) (items : List ι) (a : α) :
    lastValue f (item :: items) a = (lastValue f items a).or (valueFor f a item) := by
  unfold lastValue valueFor
  cases hitem : f item with
  | none => rw [List.filterMap_cons_none hitem, Option.bind_none, Option.or_none]
  | some e =>
    rw [List.filterMap_cons_some hitem, List.reverse_cons, List.lookup_append, Option.bind_some]
    congr 1
    by_cases h : e.1 = a
    · rw [if_pos h, ← h, List.lookup_cons_self]
    · rw [if_neg h, List.lookup_cons, beq_false_of_ne (Ne.symm h), List.lookup_nil]

/-- A loop that keeps the value of a key, replaced by that of each item that has one, ends with the
last value. -/
theorem foldl_eq_lastValue {σ : Type} {f : ι → Option (α × β)} {a : α} {step : σ → ι → σ}
    (get : σ → Option β) (hstep : ∀ v item, get (step v item) = (valueFor f a item).or (get v))
    (items : List ι) (v : σ) :
    get (items.foldl step v) = (lastValue f items a).or (get v) := by
  induction items generalizing v with
  | nil => rfl
  | cons item items ih => rw [List.foldl_cons, ih, hstep, lastValue_cons, Option.or_assoc]

/-- Among entries with different keys, the last one with a key is the first one. -/
theorem lookup_reverse_of_nodup {entries : List (α × β)} (h : (entries.map (·.1)).Nodup) (a : α) :
    entries.reverse.lookup a = entries.lookup a := by
  induction entries with
  | nil => rfl
  | cons e entries ih =>
    obtain ⟨hnew, hrest⟩ := List.nodup_cons.mp h
    rw [List.reverse_cons, List.lookup_append, ih hrest]
    by_cases ha : a = e.1
    · subst ha
      have hnone : entries.lookup e.1 = none := by
        rw [List.lookup_eq_none_iff]
        intro e' he'
        rw [bne_iff_ne]
        intro heq
        exact hnew (List.mem_map.mpr ⟨e', he', heq.symm⟩)
      rw [hnone, List.lookup_cons_self, List.lookup_cons_self, Option.none_or]
    · rw [List.lookup_cons, List.lookup_cons, beq_false_of_ne ha, List.lookup_nil, Option.or_none]

end Uscan
