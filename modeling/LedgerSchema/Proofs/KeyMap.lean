import Mathlib
import LedgerSchema.KeyMap

/-!
Maps from text keys as ascending lists: insertion keeps the order, and an ascending list is
determined by what is found in it under each key.
-/

set_option autoImplicit false

namespace LedgerSchema

universe u
variable {β : Type u}

def Ascending (m : List (String × β)) : Prop := m.Pairwise fun a b => a.1 < b.1

theorem Ascending.nil : Ascending ([] : List (String × β)) := List.Pairwise.nil

theorem Ascending.tail {e : String × β} {m : List (String × β)} (h : Ascending (e :: m)) :
    Ascending m := (List.pairwise_cons.1 h).2

theorem Ascending.nodup_keys {m : List (String × β)} (h : Ascending m) :
    (m.map Prod.fst).Nodup := by
  rw [List.nodup_iff_pairwise_ne, List.pairwise_map]
  exact h.imp fun hab => ne_of_lt hab

theorem Ascending.filter {m : List (String × β)} (h : Ascending m) (p : String × β → Bool) :
    Ascending (m.filter p) := List.Pairwise.filter p h

theorem key_mem_insertKey {key : String} {value : β} {m : List (String × β)} {e : String × β}
    (h : e ∈ insertKey key value m) : e.1 = key ∨ e ∈ m := by
  induction m with
  | nil => simp_all [insertKey]
  | cons d rest ih =>
    obtain ⟨k, v⟩ := d
    rw [insertKey] at h
    split at h
    · grind
    · split at h <;> grind

theorem Ascending.insertKey {m : List (String × β)} (h : Ascending m) (key : String) (value : β) :
    Ascending (insertKey key value m) := by
  induction m with
  | nil => exact List.pairwise_singleton _ _
  | cons d rest ih =>
    obtain ⟨k, v⟩ := d
    obtain ⟨hd, hrest⟩ := List.pairwise_cons.1 h
    rw [LedgerSchema.insertKey]
    split
    · rename_i heq
      subst heq
      exact List.pairwise_cons.2 ⟨hd, hrest⟩
    · rename_i hne
      split
      · rename_i hlt
        refine List.pairwise_cons.2 ⟨fun e he => ?_, h⟩
        rcases List.mem_cons.1 he with rfl | he
        · exact hlt
        · exact hlt.trans (hd e he)
      · rename_i hge
        refine List.pairwise_cons.2 ⟨fun e he => ?_, ih hrest⟩
        rcases key_mem_insertKey he with hkey | he
        · rw [hkey]
          exact lt_of_le_of_ne (not_lt.1 hge) (Ne.symm hne)
        · exact hd e he

theorem ascending_mapOfList (entries : List (String × β)) : Ascending (mapOfList entries) := by
  have run : ∀ m : List (String × β), Ascending m →
      Ascending (entries.foldl (fun m e => LedgerSchema.insertKey e.1 e.2 m) m) := by
    induction entries with
    | nil => exact fun m hm => hm
    | cons e rest ih => exact fun m hm => ih _ (hm.insertKey e.1 e.2)
  exact run [] .nil

theorem key_mem_iff_lookup {key : String} {m : List (String × β)} :
    key ∈ m.map Prod.fst ↔ m.lookup key ≠ none := by
  rw [ne_eq, List.lookup_eq_none_iff, List.mem_map]
  constructor
  · rintro ⟨e, he, rfl⟩ h
    simpa using h e he
  · intro h
    by_contra hnot
    exact h fun e he => by simpa using fun heq : key = e.1 => hnot ⟨e, he, heq.symm⟩

theorem mem_of_lookup {key : String} {value : β} {m : List (String × β)}
    (h : m.lookup key = some value) : (key, value) ∈ m := by
  induction m with
  | nil => simp at h
  | cons e rest ih =>
    obtain ⟨k, v⟩ := e
    rw [List.lookup_cons] at h
    split at h <;> simp_all

theorem lookup_of_mem {key : String} {value : β} {m : List (String × β)}
    (hm : (m.map Prod.fst).Nodup) (h : (key, value) ∈ m) : m.lookup key = some value := by
  induction m with
  | nil => simp at h
  | cons e rest ih =>
    obtain ⟨k, v⟩ := e
    rw [List.map_cons, List.nodup_cons] at hm
    rcases List.mem_cons.1 h with heq | hmem
    · simp_all
    · have hne : key ≠ k := by
        rintro rfl
        exact hm.1 (List.mem_map.2 ⟨_, hmem, rfl⟩)
      rw [List.lookup_cons, beq_eq_false_iff_ne.2 hne]
      exact ih hm.2 hmem

theorem Ascending.lookup_eq_some_iff {key : String} {value : β} {m : List (String × β)}
    (h : Ascending m) : m.lookup key = some value ↔ (key, value) ∈ m :=
  ⟨mem_of_lookup, lookup_of_mem h.nodup_keys⟩

/-- The last of several entries under one key is the one that is found. -/
theorem lookup_mapOfList (entries : List (String × β)) (key : String) :
    (mapOfList entries).lookup key = entries.reverse.lookup key := by
  have run : ∀ m : List (String × β),
      (entries.foldl (fun m e => LedgerSchema.insertKey e.1 e.2 m) m).lookup key =
        (entries.reverse.lookup key).or (m.lookup key) := by
    induction entries with
    | nil => simp
    | cons e rest ih =>
      intro m
      obtain ⟨k, v⟩ := e
      rw [List.foldl_cons, ih, List.reverse_cons, List.lookup_append, Option.or_assoc]
      congr 1
      by_cases h : key = k
      · subst h
        simp
      · rw [lookup_insertKey_ne h, List.lookup_cons, beq_eq_false_iff_ne.2 h]
        simp
  rw [mapOfList, run]
  simp

theorem lookup_mapOfList_of_nodup {entries : List (String × β)}
    (h : (entries.map Prod.fst).Nodup) (key : String) :
    (mapOfList entries).lookup key = entries.lookup key := by
  rw [lookup_mapOfList]
  have hr : (entries.reverse.map Prod.fst).Nodup := by
    rw [List.map_reverse]
    exact List.nodup_reverse.2 h
  refine Option.ext fun value => ⟨fun hv => ?_, fun hv => ?_⟩
  · exact lookup_of_mem h (List.mem_reverse.1 (mem_of_lookup hv))
  · exact lookup_of_mem hr (List.mem_reverse.2 (mem_of_lookup hv))

theorem Ascending.ext {m n : List (String × β)} (hm : Ascending m) (hn : Ascending n)
    (h : ∀ key, m.lookup key = n.lookup key) : m = n := by
  have mem_iff (e : String × β) : e ∈ m ↔ e ∈ n := by
    rw [← hm.lookup_eq_some_iff, ← hn.lookup_eq_some_iff, h]
  have perm : m.Perm n :=
    (List.perm_ext_iff_of_nodup (.of_map _ hm.nodup_keys) (.of_map _ hn.nodup_keys)).2 mem_iff
  exact perm.eq_of_pairwise (fun a b _ _ hab hba => absurd hab (lt_asymm hba)) hm hn

theorem Ascending.mapOfList {m : List (String × β)} (h : Ascending m) :
    LedgerSchema.mapOfList m = m :=
  (ascending_mapOfList m).ext h (lookup_mapOfList_of_nodup h.nodup_keys)

/-- In a list of distinct keys, another value for one of them is the value put under it. -/
theorem mapOfList_append_cons {front back : List (String × β)} {key : String} {a : β}
    (h : ((front ++ (key, a) :: back).map Prod.fst).Nodup) (b : β) :
    LedgerSchema.mapOfList (front ++ (key, b) :: back) =
      LedgerSchema.insertKey key b (LedgerSchema.mapOfList (front ++ (key, a) :: back)) := by
  have hkeys :
      (front ++ (key, b) :: back).map Prod.fst = (front ++ (key, a) :: back).map Prod.fst := by
    simp only [List.map_append, List.map_cons]
  refine (ascending_mapOfList _).ext ((ascending_mapOfList _).insertKey _ _) fun k => ?_
  rw [lookup_mapOfList_of_nodup (hkeys ▸ h)]
  by_cases hk : k = key
  · subst hk
    rw [lookup_insertKey_self]
    exact lookup_of_mem (hkeys ▸ h) (by simp)
  · rw [lookup_insertKey_ne hk, lookup_mapOfList_of_nodup h, List.lookup_append, List.lookup_append,
      List.lookup_cons, List.lookup_cons, beq_false_of_ne hk]

/-- What is put last under a key, hides what was put there before. -/
theorem Ascending.insertKey_insertKey_insertKey {m : List (String × β)} (h : Ascending m)
    (key : String) (value : β) (other : String) (b : β) :
    LedgerSchema.insertKey key value
        (LedgerSchema.insertKey other b (LedgerSchema.insertKey key value m)) =
      LedgerSchema.insertKey key value (LedgerSchema.insertKey other b m) := by
  refine (((h.insertKey _ _).insertKey _ _).insertKey _ _).ext
    ((h.insertKey _ _).insertKey _ _) fun k => ?_
  by_cases hk : k = key
  · rw [hk, lookup_insertKey_self, lookup_insertKey_self]
  · rw [lookup_insertKey_ne hk, lookup_insertKey_ne hk]
    by_cases hother : k = other
    · rw [hother, lookup_insertKey_self, lookup_insertKey_self]
    · rw [lookup_insertKey_ne hother, lookup_insertKey_ne hother, lookup_insertKey_ne hk]

end LedgerSchema
