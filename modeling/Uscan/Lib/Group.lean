import Mathlib.Data.List.Induction
import Mathlib.Data.List.Nodup
import Mathlib.Tactic.Common

/-!
# Grouping items by a key

A loop that puts each item into the first group with its key, or opens a new group at the end of the
list. The groups come out in the order in which their keys were seen first, and each has all items
with its key, in order (`Grouping.groups_eq`).
-/

namespace Uscan

/-- How items are grouped. -/
structure Grouping (α β κ : Type) where
  /-- The key of an item. -/
  keyOf : α → κ
  /-- The key of a group. -/
  key : β → κ
  /-- The group that an item opens. -/
  new : α → β
  /-- A group with one more item. -/
  add : β → α → β
  /-- A new group has the key of its item. -/
  key_new : ∀ a, key (new a) = keyOf a
  /-- A group keeps its key. -/
  key_add : ∀ b a, key (add b a) = key b

namespace Grouping

variable {α β κ : Type} (g : Grouping α β κ)

/-- The group of a list of items with one key, if it has items. -/
def collect : List α → Option β
  | [] => none
  | a :: items => some (items.foldl g.add (g.new a))

/-- The group of items with a key has the key. -/
theorem key_of_collect {items : List α} {b : β} {k : κ} (h : g.collect items = some b)
    (hk : ∀ a ∈ items, g.keyOf a = k) : g.key b = k := by
  have hfold : ∀ (items : List α) (b : β), g.key (items.foldl g.add b) = g.key b := by
    intro items
    induction items with
    | nil => exact fun b => rfl
    | cons a items ih => exact fun b => (ih (g.add b a)).trans (g.key_add b a)
  cases items with
  | nil => cases h
  | cons a items =>
    cases h
    rw [hfold, g.key_new]
    exact hk a List.mem_cons_self

/-- One more item is added to a group, or opens one. -/
theorem collect_concat (items : List α) (a : α) :
    g.collect (items ++ [a]) = some ((g.collect items).elim (g.new a) fun b => g.add b a) := by
  cases items with
  | nil => rfl
  | cons a' items => simp [collect, List.foldl_append]

variable [DecidableEq κ]

/-- The groups with one more item. -/
def put : List β → α → List β
  | [], a => [g.new a]
  | b :: bs, a => if g.key b = g.keyOf a then g.add b a :: bs else b :: put bs a

/-- The groups of a list of items. -/
def groups (items : List α) : List β := items.foldl g.put []

/-- The keys of a list of items, in the order of their first items. -/
def keys (items : List α) : List κ := (items.map g.keyOf).eraseDups

/-- The items with a key. -/
def members (items : List α) (k : κ) : List α := items.filter fun a => g.keyOf a = k

/-! ## One item -/

/-- An item with a new key opens a group at the end. -/
theorem put_of_forall_ne {bs : List β} {a : α} (h : ∀ b ∈ bs, g.key b ≠ g.keyOf a) :
    g.put bs a = bs ++ [g.new a] := by
  induction bs with
  | nil => rfl
  | cons b bs ih =>
    obtain ⟨hb, hbs⟩ := List.forall_mem_cons.mp h
    rw [put, if_neg hb, ih hbs]
    rfl

/-- An item with the key of a group goes there, if no two groups have the same key. -/
theorem put_of_mem {bs : List β} {a : α} (h : g.keyOf a ∈ bs.map g.key)
    (hnodup : (bs.map g.key).Nodup) :
    g.put bs a = bs.map fun b => if g.key b = g.keyOf a then g.add b a else b := by
  induction bs with
  | nil => exact absurd h List.not_mem_nil
  | cons b bs ih =>
    obtain ⟨hb, hnodup⟩ := List.nodup_cons.mp hnodup
    rw [put, List.map_cons]
    split_ifs with hkey
    · -- No later group has the key of the first one.
      have hsame : ∀ c ∈ bs, (if g.key c = g.keyOf a then g.add c a else c) = c := by
        intro c hc
        refine if_neg fun heq => hb ?_
        rw [hkey, ← heq]
        exact List.mem_map_of_mem hc
      rw [List.map_congr_left hsame, List.map_id']
    · rcases List.mem_cons.mp h with heq | h
      · exact absurd heq.symm hkey
      · rw [ih h hnodup]

/-! ## All items -/

/-- A key is seen first with one more item, if no item before has it. -/
theorem keys_concat (items : List α) (a : α) :
    g.keys (items ++ [a]) =
      if g.keyOf a ∈ g.keys items then g.keys items else g.keys items ++ [g.keyOf a] := by
  rw [keys, List.map_append, List.eraseDups_append, List.map_singleton, List.removeAll,
    List.filter_singleton, ← keys]
  have hmem : g.keyOf a ∈ items.map g.keyOf ↔ g.keyOf a ∈ g.keys items := by
    rw [keys, List.mem_eraseDups]
  by_cases h : g.keyOf a ∈ items.map g.keyOf
  · simp [h, if_pos (hmem.mp h)]
  · simp [h, if_neg (mt hmem.mpr h), List.eraseDups_cons]

/-- A key is one of an item. -/
theorem mem_keys {items : List α} {k : κ} : k ∈ g.keys items ↔ ∃ a ∈ items, g.keyOf a = k := by
  rw [keys, List.mem_eraseDups, List.mem_map]

/-- No key comes twice. -/
theorem nodup_keys (items : List α) : (g.keys items).Nodup := by
  induction items using List.reverseRecOn with
  | nil => exact List.nodup_nil
  | append_singleton items a ih =>
    rw [keys_concat]
    split_ifs with h
    · exact ih
    · exact List.nodup_append.mpr ⟨ih, List.nodup_singleton _, fun k hk l hl heq => h (by
        rwa [← List.mem_singleton.mp hl, ← heq])⟩

/-- A key of an item has a group, with that key. -/
theorem exists_collect {items : List α} {k : κ} (h : k ∈ g.keys items) :
    ∃ b, g.collect (g.members items k) = some b ∧ g.key b = k := by
  obtain ⟨a, ha, hk⟩ := g.mem_keys.mp h
  have hmem : a ∈ g.members items k := List.mem_filter.mpr ⟨ha, by simpa using hk⟩
  obtain ⟨b, hb⟩ : ∃ b, g.collect (g.members items k) = some b := by
    cases hmembers : g.members items k with
    | nil => rw [hmembers] at hmem; cases hmem
    | cons a' items' => exact ⟨_, rfl⟩
  exact ⟨b, hb, g.key_of_collect hb fun a ha => by simpa using (List.mem_filter.mp ha).2⟩

/-- The groups of the keys have these keys. -/
theorem map_key_filterMap (items : List α) :
    ((g.keys items).filterMap fun k => g.collect (g.members items k)).map g.key = g.keys items := by
  rw [List.map_filterMap]
  refine (List.filterMap_congr fun k hk => ?_).trans List.filterMap_some
  obtain ⟨b, hb, hkey⟩ := g.exists_collect hk
  rw [hb, Option.map_some, hkey]

/-- There is a group for each key, in the order of their first items, and it has all items with the
key, in order. The induction is on the items, the last one first. -/
theorem groups_eq (items : List α) :
    g.groups items = (g.keys items).filterMap fun k => g.collect (g.members items k) := by
  induction items using List.reverseRecOn with
  | nil => rfl
  | append_singleton items a ih =>
    have hgroups : g.groups (items ++ [a]) = g.put (g.groups items) a := by
      rw [groups, List.foldl_append]
      rfl
    have hmembers (k : κ) : g.members (items ++ [a]) k =
        g.members items k ++ if g.keyOf a = k then [a] else [] := by
      rw [members, List.filter_append, List.filter_singleton, ← members]
      simp
    have hkeys : (g.groups items).map g.key = g.keys items := by rw [ih, map_key_filterMap]
    rw [hgroups, keys_concat]
    split_ifs with h
    · -- The item goes to the group of its key, and all other groups stay.
      rw [g.put_of_mem (by rwa [hkeys]) (by rw [hkeys]; exact g.nodup_keys items), ih,
        List.map_filterMap]
      refine List.filterMap_congr fun k hk => ?_
      obtain ⟨b, hb, rfl⟩ := g.exists_collect hk
      rw [hmembers, hb, Option.map_some]
      by_cases hkey : g.key b = g.keyOf a
      · rw [if_pos hkey, if_pos hkey.symm, collect_concat, hb]
        rfl
      · rw [if_neg hkey, if_neg (Ne.symm hkey), List.append_nil, hb]
    · -- The item opens a group, and is the only one in it.
      have hnone : g.members items (g.keyOf a) = [] := by
        rw [members, List.filter_eq_nil_iff]
        intro a' ha' heq
        exact h (g.mem_keys.mpr ⟨a', ha', by simpa using heq⟩)
      have hold : ∀ k ∈ g.keys items,
          g.collect (g.members (items ++ [a]) k) = g.collect (g.members items k) := by
        intro k hk
        have hne : g.keyOf a ≠ k := fun heq => h (heq ▸ hk)
        rw [hmembers, if_neg hne, List.append_nil]
      have hnew : g.collect (g.members (items ++ [a]) (g.keyOf a)) = some (g.new a) := by
        rw [hmembers, hnone, if_pos rfl]
        rfl
      rw [g.put_of_forall_ne, List.filterMap_append, List.filterMap_congr hold, ← ih]
      · simp [hnew]
      · intro b hb heq
        exact h (hkeys ▸ heq ▸ List.mem_map_of_mem hb)

/-- The keys of the groups. -/
theorem map_key_groups (items : List α) : (g.groups items).map g.key = g.keys items := by
  rw [groups_eq, map_key_filterMap]

end Grouping

end Uscan
