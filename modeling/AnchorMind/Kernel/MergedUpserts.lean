import Mathlib.Data.List.Induction

/-!
# Upserting items one by one or merged by key

A table holds one row for each key.  Items are either upserted in order, or first
merged into one item for each key and upserted once.  The two agree on a key
exactly when the row does not tell the two merges of its items apart.
-/

namespace AnchorMind.Kernel.MergedUpserts

open List

abbrev Table (Key Row : Type*) := Key -> Option Row

structure Merging (Key Item : Type*) where
  key : Item -> Key
  merge : Item -> Item -> Item
  key_merge : ∀ was next, key (merge was next) = key was

section

variable {Key Item : Type*} [DecidableEq Key] (merging : Merging Key Item)

def absorb : List Item -> Item -> List Item
  | [], item => [item]
  | entry :: rest, item =>
    if merging.key entry = merging.key item then merging.merge entry item :: rest
    else entry :: absorb rest item

def mergeByKey (items : List Item) : List Item :=
  items.foldl (absorb merging) []

def ofKey (key : Key) (items : List Item) : List Item :=
  items.filter fun item => decide (merging.key item = key)

def merged : List Item -> List Item
  | [] => []
  | first :: rest => [rest.foldl merging.merge first]

variable {merging} {entries items : List Item} {item : Item} {key : Key}

omit [DecidableEq Key] in
theorem merged_concat (items : List Item) (item : Item) :
    merged merging (items ++ [item]) =
      match merged merging items with
      | [] => [item]
      | entry :: _ => [merging.merge entry item] := by
  cases items with
  | nil => rfl
  | cons first rest => simp [merged, foldl_append]

omit [DecidableEq Key] in
theorem merged_ne_nil : merged merging items ≠ [] <-> items ≠ [] := by cases items <;> simp [merged]

theorem ofKey_concat_self (hkey : merging.key item = key) :
    ofKey merging key (items ++ [item]) = ofKey merging key items ++ [item] := by
  simp [ofKey, hkey]

theorem ofKey_concat_of_ne (hkey : merging.key item ≠ key) :
    ofKey merging key (items ++ [item]) = ofKey merging key items := by
  simp [ofKey, hkey]

theorem ofKey_absorb_of_ne (hkey : merging.key item ≠ key) :
    ofKey merging key (absorb merging entries item) = ofKey merging key entries := by
  induction entries with
  | nil => simp [absorb, ofKey, hkey]
  | cons entry rest ih =>
    unfold absorb
    split
    · rename_i heq
      have hentry : merging.key entry ≠ key := heq ▸ hkey
      simp [ofKey, merging.key_merge, hentry]
    · unfold ofKey at ih ⊢
      rw [filter_cons, filter_cons, ih]

theorem ofKey_absorb_self (hkey : merging.key item = key) :
    ofKey merging key (absorb merging entries item) =
      match ofKey merging key entries with
      | [] => [item]
      | entry :: rest => merging.merge entry item :: rest := by
  induction entries with
  | nil => simp [absorb, ofKey, hkey]
  | cons entry rest ih =>
    unfold absorb
    split
    · rename_i heq
      have hentry : merging.key entry = key := heq.trans hkey
      simp [ofKey, merging.key_merge, hentry]
    · rename_i hne
      have hentry : merging.key entry ≠ key := fun heq => hne (heq.trans hkey.symm)
      unfold ofKey at ih ⊢
      rw [filter_cons_of_neg (by simpa using hentry),
        filter_cons_of_neg (by simpa using hentry), ih]

theorem ofKey_mergeByKey (key : Key) (items : List Item) :
    ofKey merging key (mergeByKey merging items) = merged merging (ofKey merging key items) := by
  induction items using reverseRecOn with
  | nil => rfl
  | append_singleton items item ih =>
    have hfold : mergeByKey merging (items ++ [item]) =
        absorb merging (mergeByKey merging items) item := by
      simp [mergeByKey, foldl_append]
    by_cases hkey : merging.key item = key
    · rw [hfold, ofKey_absorb_self hkey, ofKey_concat_self hkey, merged_concat, ih]
      cases ofKey merging key items with
      | nil => rfl
      | cons first rest => rfl
    · rw [hfold, ofKey_absorb_of_ne hkey, ofKey_concat_of_ne hkey, ih]

theorem ofKey_perm_merged {rows : List Item} (hperm : rows.Perm (mergeByKey merging items)) :
    ofKey merging key rows = merged merging (ofKey merging key items) := by
  have hof : (ofKey merging key rows).Perm (merged merging (ofKey merging key items)) := by
    rw [<- ofKey_mergeByKey]
    exact hperm.filter _
  cases hitems : ofKey merging key items with
  | nil =>
    rw [hitems] at hof
    exact hof.eq_nil
  | cons first rest =>
    rw [hitems] at hof
    exact hof.eq_singleton

theorem exists_key_iff {rows : List Item} (hperm : rows.Perm (mergeByKey merging items)) :
    (∃ row ∈ rows, merging.key row = key) <->
      ∃ item ∈ items, merging.key item = key := by
  have hmem : ∀ list : List Item,
      (∃ item ∈ list, merging.key item = key) <-> ofKey merging key list ≠ [] := by
    intro list
    rw [ne_eq, ofKey, filter_eq_nil_iff]
    simp
  rw [hmem, hmem, ofKey_perm_merged hperm]
  cases ofKey merging key items with
  | nil => simp [merged]
  | cons first rest => simp [merged]

end

section

variable {Key Item Row : Type*} [DecidableEq Key] (merging : Merging Key Item)
  (upsert : Option Row -> Item -> Row)

def put (table : Table Key Row) (item : Item) : Table Key Row :=
  Function.update table (merging.key item) (some (upsert (table (merging.key item)) item))

def putAll (table : Table Key Row) (items : List Item) : Table Key Row :=
  items.foldl (put merging upsert) table

def settle (row : Option Row) (items : List Item) : Option Row :=
  items.foldl (fun row item => some (upsert row item)) row

variable {merging upsert} {table : Table Key Row} {items : List Item} {key : Key}

theorem putAll_apply :
    putAll merging upsert table items key =
      settle upsert (table key) (ofKey merging key items) := by
  induction items generalizing table with
  | nil => rfl
  | cons item rest ih =>
    have hcons : putAll merging upsert table (item :: rest) =
        putAll merging upsert (put merging upsert table item) rest := rfl
    rw [hcons, ih]
    by_cases hkey : merging.key item = key
    · subst hkey
      simp [ofKey, put, settle]
    · have hrow : put merging upsert table item key = table key :=
        Function.update_of_ne (Ne.symm hkey) _ _
      simp [ofKey, hkey, hrow]

theorem putAll_merged {rows : List Item} (hperm : rows.Perm (mergeByKey merging items)) :
    putAll merging upsert table rows key =
      settle upsert (table key) (merged merging (ofKey merging key items)) := by
  rw [putAll_apply, ofKey_perm_merged hperm]

omit [DecidableEq Key] in
theorem settle_cons {join : Item -> Item -> Item}
    (hjoin : ∀ row was next, upsert (some (upsert row was)) next = upsert row (join was next))
    (row : Option Row) (first : Item) (rest : List Item) :
    settle upsert row (first :: rest) = some (upsert row (rest.foldl join first)) := by
  induction rest using reverseRecOn with
  | nil => rfl
  | append_singleton rest item ih =>
    have hlast : settle upsert row (first :: (rest ++ [item])) =
        some (upsert (settle upsert row (first :: rest)) item) := by
      simp [settle, foldl_append]
    rw [hlast, ih, hjoin, foldl_append]
    rfl

end

section

variable {Item : Type*} (rank : Item -> Nat)

def keepEarlier (was next : Item) : Item :=
  if rank was < rank next then next else was

def keepLater (was next : Item) : Item :=
  if rank next < rank was then was else next

def highest (items : List Item) : List Item :=
  items.filter fun item => items.all fun other => decide (rank other ≤ rank item)

variable {rank} {first item : Item} {rest items : List Item}

theorem keepLater_assoc (a b c : Item) :
    keepLater rank (keepLater rank a b) c = keepLater rank a (keepLater rank b c) := by
  unfold keepLater
  grind

theorem rank_foldl_keepEarlier :
    rank (rest.foldl (keepEarlier rank) first) = rank (rest.foldl (keepLater rank) first) := by
  induction rest using reverseRecOn with
  | nil => rfl
  | append_singleton rest item ih =>
    simp only [foldl_append, foldl_cons, foldl_nil]
    generalize rest.foldl (keepEarlier rank) first = early at ih ⊢
    generalize rest.foldl (keepLater rank) first = late at ih ⊢
    unfold keepEarlier keepLater
    split <;> split <;> omega

theorem foldl_keepLater_mem : rest.foldl (keepLater rank) first ∈ first :: rest := by
  induction rest using reverseRecOn with
  | nil => simp
  | append_singleton rest last ih =>
    rw [foldl_append, foldl_cons, foldl_nil, keepLater, <- cons_append]
    split
    · exact mem_append_left _ ih
    · simp

theorem rank_le_foldl_keepLater (hitem : item ∈ first :: rest) :
    rank item ≤ rank (rest.foldl (keepLater rank) first) := by
  induction rest using reverseRecOn with
  | nil => simp_all
  | append_singleton rest last ih =>
    rw [foldl_append, foldl_cons, foldl_nil, keepLater]
    rw [<- cons_append] at hitem
    rcases mem_append.mp hitem with hbefore | hlast
    · have hle := ih hbefore
      split
      · exact hle
      · omega
    · rw [mem_singleton.mp hlast]
      split
      · omega
      · exact Nat.le_refl _

theorem highest_eq_filter :
    highest rank (first :: rest) =
      (first :: rest).filter fun item =>
        decide (rank item = rank (rest.foldl (keepLater rank) first)) := by
  unfold highest
  apply filter_congr
  intro item hitem
  rw [Bool.eq_iff_iff, all_eq_true, decide_eq_true_iff]
  constructor
  · intro hall
    have htop : rank (rest.foldl (keepLater rank) first) ≤ rank item := by
      simpa using hall _ foldl_keepLater_mem
    exact Nat.le_antisymm (rank_le_foldl_keepLater hitem) htop
  · intro hrank other hother
    rw [hrank]
    exact decide_eq_true (rank_le_foldl_keepLater hother)

theorem getLast?_highest :
    (highest rank (first :: rest)).getLast? = some (rest.foldl (keepLater rank) first) := by
  rw [highest_eq_filter]
  induction rest using reverseRecOn with
  | nil => simp
  | append_singleton rest last ih =>
    rw [foldl_append, foldl_cons, foldl_nil, <- cons_append,
      filter_append, keepLater]
    split
    · rename_i hlower
      have hlast : Not (rank last = rank (rest.foldl (keepLater rank) first)) :=
        Nat.ne_of_lt hlower
      simp [hlast, ih]
    · simp

theorem head?_highest :
    (highest rank (first :: rest)).head? = some (rest.foldl (keepEarlier rank) first) := by
  have hrank : ∀ rest : List Item,
      rank (rest.foldl (keepLater rank) first) = rank (rest.foldl (keepEarlier rank) first) :=
    fun rest => rank_foldl_keepEarlier.symm
  rw [highest_eq_filter, hrank]
  induction rest using reverseRecOn with
  | nil => simp
  | append_singleton rest last ih =>
    rw [foldl_append, foldl_cons, foldl_nil, <- cons_append,
      filter_append, keepEarlier]
    split
    · rename_i hhigher
      have hbelow : ∀ item ∈ first :: rest, Not (rank item = rank last) := by
        intro item hitem
        have hle : rank item ≤ rank (rest.foldl (keepLater rank) first) :=
          rank_le_foldl_keepLater hitem
        rw [hrank] at hle
        omega
      have hnone : ((first :: rest).filter fun item => decide (rank item = rank last)) = [] := by
        rw [filter_eq_nil_iff]
        intro item hitem
        simpa using hbelow item hitem
      rw [hnone]
      simp
    · rw [head?_append, ih]
      rfl

end

end AnchorMind.Kernel.MergedUpserts
