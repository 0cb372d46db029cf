import Mathlib.Data.List.Induction
import Mathlib.Data.List.Nodup

/-!
# Maps in insertion order

A finite map kept as a list of entries with distinct keys.  Setting a key that is there
keeps its place, a new key goes to the end.
-/

namespace AnchorMind.Kernel.InsertionMap

open List

structure Map (Key Value : Type*) where
  entries : List (Key × Value)
  keysNodup : (entries.map Prod.fst).Nodup

namespace Map

variable {Key Value : Type*} [DecidableEq Key]

def empty : Map Key Value where
  entries := []
  keysNodup := nodup_nil

def get (map : Map Key Value) (key : Key) : Option Value :=
  (map.entries.find? fun entry => entry.1 = key).map Prod.snd

def replaced (map : Map Key Value) (key : Key) (value : Value) : List (Key × Value) :=
  map.entries.map fun entry => if entry.1 = key then (key, value) else entry

theorem keys_replaced (map : Map Key Value) (key : Key) (value : Value) :
    (map.replaced key value).map Prod.fst = map.entries.map Prod.fst := by
  unfold replaced
  rw [map_map]
  refine map_congr_left fun entry _ => ?_
  by_cases hkey : entry.1 = key <;> simp [hkey]

def set (map : Map Key Value) (key : Key) (value : Value) : Map Key Value :=
  if hkey : key ∈ map.entries.map Prod.fst then
    { entries := map.replaced key value
      keysNodup := by rw [keys_replaced]; exact map.keysNodup }
  else
    { entries := map.entries ++ [(key, value)]
      keysNodup := by
        rw [map_append, nodup_append]
        refine ⟨map.keysNodup, by simp, ?_⟩
        rintro old hold new hnew rfl
        obtain rfl : old = key := by simpa using hnew
        exact hkey hold }

def delete (map : Map Key Value) (key : Key) : Map Key Value where
  entries := map.entries.filter fun entry => entry.1 ≠ key
  keysNodup := map.keysNodup.sublist (Sublist.map _ filter_sublist)

theorem find?_replaced (entries : List (Key × Value)) (key other : Key) (value : Value)
    (hkey : key ∈ entries.map Prod.fst) :
    ((entries.map fun entry => if entry.1 = key then (key, value) else entry).find?
      fun entry => entry.1 = other).map Prod.snd =
        if other = key then some value
        else (entries.find? fun entry => entry.1 = other).map Prod.snd := by
  induction entries with
  | nil => exact absurd hkey not_mem_nil
  | cons entry rest ih =>
    obtain ⟨name, old⟩ := entry
    by_cases hname : name = key
    · subst hname
      by_cases hother : other = name
      · subst hother
        simp
      · simp only [map_cons, if_true, find?_cons, Ne.symm hother, decide_false]
        by_cases hrest : name ∈ rest.map Prod.fst
        · rw [ih hrest, if_neg hother]
        · have hsame : (rest.map fun entry => if entry.1 = name then (name, value) else entry) =
              rest := by
            refine (map_congr_left fun entry hentry => ?_).trans (map_id rest)
            rw [if_neg]
            · rfl
            · rintro rfl
              exact hrest (mem_map_of_mem hentry)
          rw [hsame, if_neg hother]
    · have hrest : key ∈ rest.map Prod.fst := by
        rw [map_cons, mem_cons] at hkey
        exact hkey.resolve_left (Ne.symm hname)
      simp only [map_cons, if_neg hname, find?_cons]
      by_cases hother : name = other
      · have hne : other ≠ key := fun heq => hname (hother.trans heq)
        simp [hother, hne]
      · simp only [hother, decide_false]
        exact ih hrest

@[simp]
theorem get_set (map : Map Key Value) (key other : Key) (value : Value) :
    (map.set key value).get other = if other = key then some value else map.get other := by
  unfold set
  split
  · rename_i hkey
    exact find?_replaced map.entries key other value hkey
  · rename_i hkey
    unfold get
    rw [find?_append]
    by_cases hother : other = key
    · subst hother
      have hnone : map.entries.find? (fun entry => entry.1 = other) = none := by
        rw [find?_eq_none]
        intro entry hentry
        rw [decide_eq_true_eq]
        rintro rfl
        exact hkey (mem_map_of_mem hentry)
      simp [hnone]
    · have hlast : [(key, value)].find? (fun entry => entry.1 = other) = none := by
        simp [Ne.symm hother]
      rw [hlast, Option.or_none, if_neg hother]

@[simp]
theorem get_delete (map : Map Key Value) (key other : Key) :
    (map.delete key).get other = if other = key then none else map.get other := by
  unfold delete get
  rw [find?_filter]
  by_cases hother : other = key
  · subst hother
    simp
  · rw [if_neg hother]
    congr 2
    funext entry
    by_cases hentry : entry.1 = other
    · simp [hentry, hother]
    · simp [hentry]

variable {map : Map Key Value}

theorem get_eq_some_iff {key : Key} {value : Value} :
    map.get key = some value <-> (key, value) ∈ map.entries := by
  constructor
  · intro hget
    obtain ⟨entry, hfind, rfl⟩ := Option.map_eq_some_iff.mp hget
    obtain rfl : entry.1 = key := of_decide_eq_true (find?_some hfind :)
    exact mem_of_find?_eq_some hfind
  · intro hentry
    cases hfind : map.entries.find? fun entry => entry.1 = key with
    | none => exact absurd (decide_eq_true rfl) (find?_eq_none.mp hfind _ hentry)
    | some entry =>
      have hkey : entry.1 = key := of_decide_eq_true (find?_some hfind :)
      have hsame := inj_on_of_nodup_map map.keysNodup
        (mem_of_find?_eq_some hfind) hentry hkey
      rw [get, hfind, hsame]
      rfl

theorem mem_entries_set {key : Key} {value : Value} {entry : Key × Value}
    (hentry : entry ∈ (map.set key value).entries) :
    entry = (key, value) \/ entry ∈ map.entries := by
  unfold set at hentry
  split at hentry
  · obtain ⟨old, hold, rfl⟩ := mem_map.mp hentry
    by_cases hkey : old.1 = key
    · exact .inl (if_pos hkey)
    · exact .inr ((if_neg hkey).symm ▸ hold)
  · rcases mem_append.mp hentry with hold | hnew
    · exact .inr hold
    · exact .inl (mem_singleton.mp hnew)

theorem keys_subset_set (map : Map Key Value) (key : Key) (value : Value) :
    map.entries.map Prod.fst ⊆ (map.set key value).entries.map Prod.fst := by
  intro old hold
  unfold set
  split
  · exact (keys_replaced map key value).symm ▸ hold
  · exact map_append ▸ mem_append_left _ hold

theorem countP_replaced (p : Key × Value -> Bool) (key : Key) (value : Value)
    {entries : List (Key × Value)} (hkeys : (entries.map Prod.fst).Nodup) :
    (entries.map fun entry => if entry.1 = key then (key, value) else entry).countP p ≤
      entries.countP p + 1 := by
  induction entries with
  | nil => exact Nat.zero_le _
  | cons entry rest ih =>
    obtain ⟨hfresh, hrest⟩ := nodup_cons.mp hkeys
    by_cases hkey : entry.1 = key
    · -- No later entry has this key.
      have hsame : (rest.map fun entry => if entry.1 = key then (key, value) else entry) =
          rest := by
        refine (map_congr_left fun other hother => ?_).trans (map_id rest)
        refine if_neg fun hsame => hfresh ?_
        exact hkey.trans hsame.symm ▸ mem_map_of_mem hother
      rw [map_cons, if_pos hkey, hsame, countP_cons, countP_cons]
      split <;> omega
    · rw [map_cons, if_neg hkey, countP_cons, countP_cons]
      have hih := ih hrest
      omega

theorem countP_entries_set (p : Key × Value -> Bool) (map : Map Key Value) (key : Key)
    (value : Value) : (map.set key value).entries.countP p ≤ map.entries.countP p + 1 := by
  unfold set
  split
  · exact countP_replaced p key value map.keysNodup
  · rw [countP_append]
    exact Nat.add_le_add_left countP_le_length _

end Map

namespace Map

variable {Key Value Item : Type*} [DecidableEq Key]

def setAll (map : Map Key Value) (entryOf : Item -> Key × Value) (items : List Item) :
    Map Key Value :=
  items.foldl (fun written item => written.set (entryOf item).1 (entryOf item).2) map

variable {entryOf : Item -> Key × Value}

theorem mem_entries_setAll {map : Map Key Value} {items : List Item} {entry : Key × Value}
    (hentry : entry ∈ (map.setAll entryOf items).entries) :
    (∃ item ∈ items, entry = entryOf item) \/ entry ∈ map.entries := by
  induction items generalizing map with
  | nil => exact .inr hentry
  | cons item rest ih =>
    rcases ih hentry with ⟨later, hlater, rfl⟩ | hset
    · exact .inl ⟨later, mem_cons_of_mem _ hlater, rfl⟩
    · rcases mem_entries_set hset with rfl | hold
      · exact .inl ⟨item, mem_cons_self, rfl⟩
      · exact .inr hold

theorem keys_subset_setAll (map : Map Key Value) (entryOf : Item -> Key × Value)
    (items : List Item) :
    map.entries.map Prod.fst ⊆ (map.setAll entryOf items).entries.map Prod.fst := by
  induction items generalizing map with
  | nil => exact Subset.refl _
  | cons item rest ih => exact Subset.trans (keys_subset_set map _ _) (ih _)

theorem countP_entries_setAll (p : Key × Value -> Bool) (map : Map Key Value)
    (entryOf : Item -> Key × Value) (items : List Item) :
    (map.setAll entryOf items).entries.countP p ≤ map.entries.countP p + items.length := by
  induction items generalizing map with
  | nil => exact Nat.le_refl _
  | cons item rest ih =>
    have hone := countP_entries_set p map (entryOf item).1 (entryOf item).2
    have hrest := ih (map.set (entryOf item).1 (entryOf item).2)
    rw [length_cons]
    exact Nat.le_trans hrest (by omega)

theorem entries_setAll_of_fresh {map : Map Key Value} {items : List Item}
    (hfresh : (map.entries.map Prod.fst ++ items.map fun item => (entryOf item).1).Nodup) :
    (map.setAll entryOf items).entries = map.entries ++ items.map entryOf := by
  induction items generalizing map with
  | nil => exact (append_nil _).symm
  | cons item rest ih =>
    have hnew : (entryOf item).1 ∉ map.entries.map Prod.fst := by
      intro hold
      exact disjoint_of_nodup_append hfresh hold mem_cons_self
    have hentries : (map.set (entryOf item).1 (entryOf item).2).entries =
        map.entries ++ [entryOf item] := by
      unfold set
      rw [dif_neg hnew]
    have hrest := @ih (map.set (entryOf item).1 (entryOf item).2) (by
      rw [hentries, map_append, append_assoc]
      exact hfresh)
    rw [map_cons, append_cons, ← hentries]
    exact hrest

end Map

end AnchorMind.Kernel.InsertionMap

/-!
# Grouping into a map

Entries are taken in order, each into the group of its key; a group is started by the
first entry of its key.  The groups stand in the order in which they were started.
-/

namespace AnchorMind.Kernel.Grouping

open Kernel.InsertionMap List

variable {Entry Group Key : Type*} [DecidableEq Key]

def place (key : Entry -> Key) (start : Entry -> Group) (put : Group -> Entry -> Group)
    (groups : Map Key Group) (entry : Entry) : Map Key Group :=
  groups.set (key entry) (put ((groups.get (key entry)).getD (start entry)) entry)

def groupBy (key : Entry -> Key) (start : Entry -> Group) (put : Group -> Entry -> Group)
    (entries : List Entry) : Map Key Group :=
  entries.foldl (place key start put) Map.empty

/-- The group some entries make, `none` without entries. -/
def groupOf (start : Entry -> Group) (put : Group -> Entry -> Group) : List Entry -> Option Group
  | [] => none
  | first :: rest => some ((first :: rest).foldl put (start first))

theorem groupOf_append (start : Entry -> Group) (put : Group -> Entry -> Group)
    (entries : List Entry) (entry : Entry) :
    groupOf start put (entries ++ [entry]) =
      some (put ((groupOf start put entries).getD (start entry)) entry) := by
  cases entries with
  | nil => rfl
  | cons first rest => simp [groupOf]

theorem get_groupBy (key : Entry -> Key) (start : Entry -> Group) (put : Group -> Entry -> Group)
    (entries : List Entry) (name : Key) :
    (groupBy key start put entries).get name =
      groupOf start put (entries.filter fun entry => key entry = name) := by
  induction entries using reverseRecOn with
  | nil => rfl
  | append_singleton entries entry ih =>
    have hstep : groupBy key start put (entries ++ [entry]) =
        place key start put (groupBy key start put entries) entry := by
      rw [groupBy, foldl_concat]
      rfl
    rw [hstep, place, Map.get_set, filter_append]
    by_cases hname : name = key entry
    · subst hname
      simp [groupOf_append, ih]
    · simp [hname, Ne.symm hname, ih]

theorem mem_entries_iff (map : Map Key Group) (name : Key) (group : Group) :
    (name, group) ∈ map.entries <-> map.get name = some group := by
  unfold Map.get
  rw [Option.map_eq_some_iff]
  constructor
  · intro hmem
    cases hfound : map.entries.find? fun entry => entry.1 = name with
    | none =>
      have habsent := find?_eq_none.mp hfound (name, group) hmem
      simp at habsent
    | some found =>
      have hname : found.1 = name := by simpa using find?_some hfound
      have hsame : found = (name, group) :=
        inj_on_of_nodup_map map.keysNodup (mem_of_find?_eq_some hfound) hmem hname
      exact ⟨found, rfl, by rw [hsame]⟩
  · rintro ⟨found, hfound, rfl⟩
    have hname : found.1 = name := by simpa using find?_some hfound
    rw [← hname]
    exact mem_of_find?_eq_some hfound

variable {map : Map Key Group}

theorem exists_split_set {name : Key} {old : Group} (hget : map.get name = some old)
    (group : Group) :
    ∃ front back, map.entries = front ++ (name, old) :: back /\
      (map.set name group).entries = front ++ (name, group) :: back := by
  have hmem := (mem_entries_iff map name old).mpr hget
  obtain ⟨front, back, hsplit⟩ := append_of_mem hmem
  refine ⟨front, back, hsplit, ?_⟩
  have hkey : name ∈ map.entries.map Prod.fst := mem_map_of_mem hmem
  have hnodup := map.keysNodup
  rw [hsplit, map_append, map_cons, nodup_append, nodup_cons] at hnodup
  obtain ⟨-, ⟨hback, -⟩, hfront⟩ := hnodup
  have hothers : ∀ entries : List (Key × Group),
      (∀ entry ∈ entries, entry.1 ≠ name) ->
      (entries.map fun entry => if entry.1 = name then (name, group) else entry) = entries := by
    intro entries hentries
    refine (map_congr_left fun entry hentry => ?_).trans (map_id' entries)
    exact if_neg (hentries entry hentry)
  rw [Map.set, dif_pos hkey]
  change map.replaced name group = _
  rw [Map.replaced, hsplit, map_append, map_cons, if_pos rfl, hothers front, hothers back]
  · exact fun entry hentry hsame => hback (mem_map.mpr ⟨entry, hentry, hsame⟩)
  · exact fun entry hentry hsame =>
      hfront _ (mem_map_of_mem hentry) _ mem_cons_self hsame

theorem entries_set_of_get_none {name : Key} (hget : map.get name = none) (group : Group) :
    (map.set name group).entries = map.entries ++ [(name, group)] := by
  have hkey : name ∉ map.entries.map Prod.fst := by
    intro hin
    obtain ⟨⟨_, old⟩, hmem, rfl⟩ := mem_map.mp hin
    rw [(mem_entries_iff map _ old).mp hmem] at hget
    cases hget
  rw [Map.set, dif_neg hkey]

theorem perm_groupBy (key : Entry -> Key) (entries : List Entry) :
    ((groupBy key (fun _ => []) (fun group entry => group ++ [entry]) entries).entries.map
      Prod.snd).flatten.Perm entries := by
  induction entries using reverseRecOn with
  | nil => exact .refl _
  | append_singleton entries entry ih =>
    rw [groupBy, foldl_concat]
    change ((place key (fun _ => []) _ (groupBy key _ _ entries) entry).entries.map
      Prod.snd).flatten.Perm _
    rw [place]
    cases hget : (groupBy key (fun _ => []) (fun group entry => group ++ [entry])
        entries).get (key entry) with
    | none =>
      rw [entries_set_of_get_none hget, map_append, flatten_append]
      exact ih.append_right _
    | some old =>
      obtain ⟨front, back, hold, hnew⟩ := exists_split_set hget (old ++ [entry])
      rw [hold] at ih
      rw [Option.getD_some, hnew]
      simp only [map_append, map_cons, flatten_append,
        flatten_cons] at ih ⊢
      refine Perm.trans ?_ (ih.append_right [entry])
      rw [append_assoc, append_assoc, append_assoc]
      exact ((perm_append_comm).append_left old).append_left _

end AnchorMind.Kernel.Grouping

/-!
# Collapsing names into one

Several names of one thing are replaced by a single name.  A list of names stays free of
repetitions exactly when it was so among the other names and had at most one of the names
that are collapsed.
-/

namespace AnchorMind.Kernel.Collapse

open List

variable {Name : Type*} [DecidableEq Name]

/-- The name `kept` for each of the names, and any other name as it is. -/
def collapse (names : List Name) (kept name : Name) : Name :=
  if name ∈ names then kept else name

variable {names entries : List Name} {kept name : Name}

theorem collapse_of_mem (hname : name ∈ names) : collapse names kept name = kept := if_pos hname

theorem collapse_of_not_mem (hname : name ∉ names) : collapse names kept name = name :=
  if_neg hname

theorem collapse_collapse (names : List Name) (last kept name : Name) :
    collapse [last] kept (collapse names kept name) = collapse (names ++ [last]) kept name := by
  unfold collapse
  by_cases hname : name ∈ names
  · simp [hname]
  · by_cases hlast : name = last
    · subst hlast
      simp [hname]
    · simp [hname, hlast]

theorem map_collapse_nil (kept : Name) (entries : List Name) :
    entries.map (collapse [] kept) = entries := by
  have hid : collapse [] kept = id := funext fun name => if_neg not_mem_nil
  rw [hid, map_id]

theorem collapse_cons_self (names : List Name) (kept : Name) :
    collapse (kept :: names) kept = collapse names kept := by
  funext name
  unfold collapse
  by_cases hname : name ∈ names
  · simp [hname]
  · by_cases hkept : name = kept
    · simp [hkept]
    · simp [hname, hkept]

theorem mem_map_collapse (hkept : kept ∈ names) :
    name ∈ entries.map (collapse names kept) <->
      (name = kept /\ ∃ entry ∈ entries, entry ∈ names) \/
        (name ∉ names /\ name ∈ entries) := by
  rw [mem_map]
  constructor
  · rintro ⟨entry, hentry, rfl⟩
    by_cases hmem : entry ∈ names
    · exact Or.inl ⟨collapse_of_mem hmem, entry, hentry, hmem⟩
    · rw [collapse_of_not_mem hmem]
      exact Or.inr ⟨hmem, hentry⟩
  · rintro (⟨rfl, entry, hentry, hmem⟩ | ⟨hmem, hentry⟩)
    · exact ⟨entry, hentry, collapse_of_mem hmem⟩
    · exact ⟨name, hentry, collapse_of_not_mem hmem⟩

theorem nodup_map_collapse_iff (hkept : kept ∈ names) :
    (entries.map (collapse names kept)).Nodup <->
      (entries.filter fun entry => decide (entry ∉ names)).Nodup /\
        (entries.filter fun entry => decide (entry ∈ names)).length ≤ 1 := by
  induction entries with
  | nil => simp
  | cons entry rest ih =>
    rw [map_cons, nodup_cons, ih]
    by_cases hentry : entry ∈ names
    · rw [collapse_of_mem hentry, mem_map_collapse hkept]
      simp only [hentry, not_true, decide_false, decide_true, Bool.false_eq_true,
        not_false_eq_true, filter_cons_of_neg, filter_cons_of_pos, length_cons,
        true_and, hkept, false_and, or_false, not_exists, not_and]
      constructor
      · rintro ⟨hnone, hnodup, _⟩
        refine ⟨hnodup, ?_⟩
        rw [filter_eq_nil_iff.mpr fun other hother => by simpa using hnone other hother]
        simp
      · rintro ⟨hnodup, hlength⟩
        have hnil := length_eq_zero_iff.mp (Nat.le_zero.mp (Nat.le_of_succ_le_succ hlength))
        refine ⟨fun other hother hmem => ?_, hnodup, ?_⟩
        · exact filter_eq_nil_iff.mp hnil other hother (decide_eq_true hmem)
        · rw [hnil]
          simp
    · rw [collapse_of_not_mem hentry, mem_map_collapse hkept]
      have hne : entry ≠ kept := fun h => hentry (h ▸ hkept)
      simp [hentry, hne]
      tauto

end AnchorMind.Kernel.Collapse

/-!
# Pairs on both sides of a mark

A pair is written as its front, a mark and its back.  Where the mark may also occur in the
parts, another pair is written alike when its front goes on into the mark, or behind it.
-/

namespace AnchorMind.Kernel.MarkedPairs

open List

variable {Symbol : Type*} {mark front back other rest : List Symbol}

def written (mark front back : List Symbol) : List Symbol := front ++ (mark ++ back)

def GoesOn (mark front back other rest : List Symbol) : Prop :=
  ∃ more, other = front ++ more /\ mark ++ back = more ++ (mark ++ rest)

theorem written_eq_iff :
    written mark front back = written mark other rest <->
      GoesOn mark front back other rest \/ GoesOn mark other rest front back :=
  append_eq_append_iff

theorem GoesOn.refl : GoesOn mark front back front back :=
  ⟨[], (append_nil front).symm, rfl⟩

/-- Past a mark of two equal symbols, the other front ends with none of them, with one, or
holds them both. -/
theorem goesOn_double_iff {symbol : Symbol} :
    GoesOn [symbol, symbol] front back other rest <->
      (other = front /\ back = rest) \/
        (other = front ++ [symbol] /\ back = symbol :: rest) \/
          ∃ more, other = front ++ symbol :: symbol :: more /\
            back = more ++ symbol :: symbol :: rest := by
  constructor
  · rintro ⟨more, rfl, hmark⟩
    rcases more with _ | ⟨first, more⟩
    · exact .inl ⟨append_nil front, by simpa using hmark⟩
    · rcases more with _ | ⟨second, more⟩
      · simp only [cons_append, nil_append, cons.injEq] at hmark
        obtain ⟨rfl, -, hback⟩ := hmark
        exact .inr (.inl ⟨rfl, hback⟩)
      · simp only [cons_append, nil_append, cons.injEq] at hmark
        obtain ⟨rfl, rfl, hback⟩ := hmark
        exact .inr (.inr ⟨more, rfl, hback⟩)
  · rintro (⟨rfl, rfl⟩ | ⟨rfl, rfl⟩ | ⟨more, rfl, rfl⟩)
    · exact .refl
    · exact ⟨[symbol], rfl, rfl⟩
    · exact ⟨symbol :: symbol :: more, rfl, rfl⟩

end AnchorMind.Kernel.MarkedPairs
