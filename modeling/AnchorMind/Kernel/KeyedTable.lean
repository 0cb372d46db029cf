import Mathlib.Data.List.Sort

/-!
# Keyed tables with row checks

A table is a finite list of rows whose keys are distinct and whose rows all
satisfy a row check, as a relational table with a primary key and CHECK
constraints keeps them.  Updates, deletions, and insertions carry the proofs
that the constraints survive, so a table that violates them cannot be built.
-/

namespace AnchorMind.Kernel.KeyedTable

open List

/-- Rows with distinct keys, each satisfying `check`. -/
structure Table {Row Key : Type*} (key : Row -> Key) (check : Row -> Prop) where
  rows : List Row
  keysNodup : (rows.map key).Nodup
  checked : ∀ row ∈ rows, check row

namespace Table

variable {Row Key : Type*} {key : Row -> Key} {check : Row -> Prop}

instance : Membership Row (Table key check) where
  mem table row := row ∈ table.rows

variable {row : Row}

theorem mem_def {table : Table key check} : row ∈ table <-> row ∈ table.rows := Iff.rfl

def empty : Table key check where
  rows := []
  keysNodup := nodup_nil
  checked := nofun

@[simp]
theorem not_mem_empty (row : Row) : ¬ row ∈ (empty : Table key check) :=
  not_mem_nil

theorem eq_of_key_eq {table : Table key check} {left right : Row} (hleft : left ∈ table)
    (hright : right ∈ table) (hkey : key left = key right) : left = right :=
  inj_on_of_nodup_map table.keysNodup hleft hright hkey

structure Update {Row Key : Type*} (key : Row -> Key) (check : Row -> Prop) where
  select : Row -> Bool
  image : Row -> Row
  keepsKey : ∀ row, key (image row) = key row
  keepsCheck : ∀ row, select row = true -> check row -> check (image row)

def apply (table : Table key check) (update : Update key check) : Table key check where
  rows := table.rows.map fun row => if update.select row then update.image row else row
  keysNodup := by
    have hkeys :
        (table.rows.map fun row => if update.select row then update.image row else row).map key =
          table.rows.map key := by
      rw [map_map]
      refine map_congr_left fun row _ => ?_
      by_cases hselect : update.select row = true <;> simp [hselect, update.keepsKey]
    rw [hkeys]
    exact table.keysNodup
  checked := by
    intro row hrow
    obtain ⟨source, hsource, rfl⟩ := mem_map.mp hrow
    by_cases hselect : update.select source = true
    · simpa [hselect] using update.keepsCheck source hselect (table.checked source hsource)
    · simpa [hselect] using table.checked source hsource

def affected (table : Table key check) (update : Update key check) : List Key :=
  (table.rows.filter update.select).map key

def deleteWhere (table : Table key check) (select : Row -> Bool) : Table key check where
  rows := table.rows.filter fun row => !select row
  keysNodup := table.keysNodup.sublist (filter_sublist.map key)
  checked := fun row hrow => table.checked row (mem_of_mem_filter hrow)

def insert (table : Table key check) (row : Row)
    (hfresh : ∀ old ∈ table, key old ≠ key row) (hcheck : check row) :
    Table key check where
  rows := table.rows ++ [row]
  keysNodup := by
    rw [map_append, nodup_append]
    refine ⟨table.keysNodup, nodup_singleton _, ?_⟩
    intro left hleft right hright
    obtain ⟨old, hold, rfl⟩ := mem_map.mp hleft
    simp only [map_cons, map_nil, mem_singleton] at hright
    subst hright
    exact hfresh old hold
  checked := by
    intro candidate hcandidate
    rcases mem_append.mp hcandidate with hold | hnew
    · exact table.checked candidate hold
    · rw [mem_singleton.mp hnew]
      exact hcheck

def upsert [DecidableEq Key] (table : Table key check) (row : Row) (hcheck : check row)
    (update : Update key check) : Table key check :=
  if hfresh : ∀ old ∈ table.rows, key old ≠ key row then
    table.insert row hfresh hcheck
  else table.apply update

section Membership

variable {table : Table key check} {update : Update key check} {select : Row -> Bool}

theorem mem_apply :
    row ∈ table.apply update <->
      ∃ source ∈ table,
        ((update.select source = true /\ row = update.image source) \/
          (update.select source = false /\ row = source)) := by
  constructor
  · intro hrow
    obtain ⟨source, hsource, hvalue⟩ := mem_map.mp hrow
    refine ⟨source, hsource, ?_⟩
    by_cases hselect : update.select source = true
    · exact Or.inl ⟨hselect, by simpa [hselect] using hvalue.symm⟩
    · have hfalse : update.select source = false := by simpa using hselect
      exact Or.inr ⟨hfalse, by simpa [hfalse] using hvalue.symm⟩
  · rintro ⟨source, hsource, ⟨hselect, rfl⟩ | ⟨hselect, rfl⟩⟩
    · exact mem_map.mpr ⟨source, hsource, by simp [hselect]⟩
    · exact mem_map.mpr ⟨row, hsource, by simp [hselect]⟩

theorem mem_apply_of_unselected (hrow : row ∈ table) (hselect : update.select row = false) :
    row ∈ table.apply update :=
  mem_apply.mpr ⟨row, hrow, Or.inr ⟨hselect, rfl⟩⟩

theorem mem_apply_of_selected (hrow : row ∈ table) (hselect : update.select row = true) :
    update.image row ∈ table.apply update :=
  mem_apply.mpr ⟨row, hrow, Or.inl ⟨hselect, rfl⟩⟩

theorem key_mem_affected (hrow : row ∈ table) :
    key row ∈ table.affected update <-> update.select row = true := by
  constructor
  · intro haffected
    obtain ⟨selected, hselected, hkey⟩ := mem_map.mp haffected
    obtain ⟨hmem, hselect⟩ := mem_filter.mp hselected
    rw [eq_of_key_eq hrow hmem hkey.symm]
    exact hselect
  · intro hselect
    exact mem_map.mpr ⟨row, mem_filter.mpr ⟨hrow, hselect⟩, rfl⟩

theorem exists_of_mem_affected {name : Key} (haffected : name ∈ table.affected update) :
    ∃ row ∈ table, key row = name /\ update.select row = true := by
  obtain ⟨row, hrow, hkey⟩ := mem_map.mp haffected
  obtain ⟨hmem, hselect⟩ := mem_filter.mp hrow
  exact ⟨row, hmem, hkey, hselect⟩

theorem mem_deleteWhere : row ∈ table.deleteWhere select <-> row ∈ table /\ select row = false := by
  simp [deleteWhere, mem_def]

theorem mem_insert {row new : Row} {hfresh : ∀ old ∈ table, key old ≠ key new} {hnew : check new} :
    row ∈ table.insert new hfresh hnew <-> row ∈ table \/ row = new := by
  simp [insert, mem_def]

theorem exists_key_upsert [DecidableEq Key] {hcheck : check row} :
    ∃ stored ∈ table.upsert row hcheck update, key stored = key row := by
  unfold upsert
  split
  · exact ⟨row, mem_insert.mpr (.inr rfl), rfl⟩
  · rename_i htaken
    push Not at htaken
    obtain ⟨old, hold, hkey⟩ := htaken
    cases hselect : update.select old with
    | true => exact ⟨_, mem_apply_of_selected hold hselect, (update.keepsKey old).trans hkey⟩
    | false => exact ⟨old, mem_apply_of_unselected hold hselect, hkey⟩

theorem exists_key_upsert_of_mem [DecidableEq Key] {row old : Row} {hcheck : check row}
    (hold : old ∈ table) : ∃ stored ∈ table.upsert row hcheck update, key stored = key old := by
  unfold upsert
  split
  · exact ⟨old, mem_insert.mpr (.inl hold), rfl⟩
  · cases hselect : update.select old with
    | true => exact ⟨_, mem_apply_of_selected hold hselect, update.keepsKey old⟩
    | false => exact ⟨old, mem_apply_of_unselected hold hselect, rfl⟩

end Membership

/-- `ORDER BY before LIMIT limit` over the selected rows: insertion sort keeps
the order total and structural. -/
def selectOrdered (table : Table key check) (select : Row -> Bool)
    (before : Row -> Row -> Prop) [DecidableRel before] (limit : Nat) : List Row :=
  ((table.rows.filter select).insertionSort before).take limit

section Selection

variable {table : Table key check} {select : Row -> Bool}
  {before : Row -> Row -> Prop} [DecidableRel before] {limit : Nat}

theorem mem_of_mem_selectOrdered (hrow : row ∈ table.selectOrdered select before limit) :
    row ∈ table /\ select row = true := by
  have hsorted : row ∈ (table.rows.filter select).insertionSort before :=
    mem_of_mem_take hrow
  have hfiltered : row ∈ table.rows.filter select :=
    (perm_insertionSort before _).mem_iff.mp hsorted
  simpa [mem_def] using mem_filter.mp hfiltered

theorem selectOrdered_keys_nodup : ((table.selectOrdered select before limit).map key).Nodup := by
  have hfilter : ((table.rows.filter select).map key).Nodup :=
    table.keysNodup.sublist (filter_sublist.map key)
  have hsorted : (((table.rows.filter select).insertionSort before).map key).Nodup :=
    (((perm_insertionSort before _).map key).nodup_iff).mpr hfilter
  exact hsorted.sublist ((take_sublist limit _).map key)

end Selection

end Table

end AnchorMind.Kernel.KeyedTable

/-!
# Batches in key order

A batch is the first rows of a selection, in the order of their keys, up to a limit.
Whatever the limit, a batch leaves out no selected row at or below one of its own keys,
and a limit that is not below the number of selected rows leaves out none at all.
-/

namespace AnchorMind.Kernel.KeyedTable.Table

open List

section Ordered

variable {Row Key : Type*} {key : Row -> Key} {check : Row -> Prop} {table : Table key check}
  {select : Row -> Bool} {before : Row -> Row -> Prop} [DecidableRel before] {limit : Nat}
  {row : Row}

theorem pairwise_selectOrdered [Std.Total before] [IsTrans Row before] :
    (table.selectOrdered select before limit).Pairwise before :=
  (pairwise_insertionSort before _).sublist (take_sublist limit _)

theorem mem_selectOrdered_or_before [Std.Total before] [IsTrans Row before] (hrow : row ∈ table)
    (hselect : select row = true) :
    row ∈ table.selectOrdered select before limit \/
      ∀ other ∈ table.selectOrdered select before limit, before other row := by
  have hsorted : ((table.rows.filter select).insertionSort before).Pairwise before :=
    pairwise_insertionSort before _
  rw [<- take_append_drop limit ((table.rows.filter select).insertionSort before),
    pairwise_append] at hsorted
  have hmem : row ∈ (table.rows.filter select).insertionSort before := by
    rw [mem_insertionSort]
    exact mem_filter.mpr ⟨hrow, hselect⟩
  rw [<- take_append_drop limit ((table.rows.filter select).insertionSort before)] at hmem
  rcases mem_append.mp hmem with htake | hdrop
  · exact .inl htake
  · exact .inr fun other hother => hsorted.2.2 other hother row hdrop

end Ordered

variable {Row Key : Type*} [LinearOrder Key] {key : Row -> Key} {check : Row -> Prop}

/-- `WHERE select ORDER BY key LIMIT limit` -/
def firstRows (table : Table key check) (select : Row -> Bool) (limit : Nat) : List Row :=
  table.selectOrdered select (fun left right => key left ≤ key right) limit

section Batches

variable {table : Table key check} {select : Row -> Bool} {limit : Nat} {row : Row}

theorem mem_of_mem_firstRows (hrow : row ∈ table.firstRows select limit) :
    row ∈ table /\ select row = true :=
  mem_of_mem_selectOrdered hrow

theorem mem_firstRows_or_le (hrow : row ∈ table) (hselect : select row = true) :
    row ∈ table.firstRows select limit \/
      ∀ other ∈ table.firstRows select limit, key other ≤ key row := by
  let before : Row -> Row -> Prop := fun left right => key left ≤ key right
  have htotal : Std.Total before := ⟨fun left right => le_total (key left) (key right)⟩
  have htrans : IsTrans Row before := ⟨fun _ _ _ hleft hright => le_trans hleft hright⟩
  have hordered : row ∈ table.selectOrdered select before limit \/
      ∀ other ∈ table.selectOrdered select before limit, before other row :=
    mem_selectOrdered_or_before hrow hselect
  exact hordered

theorem mem_firstRows_of_le {other : Row} (hrow : row ∈ table) (hselect : select row = true)
    (hother : other ∈ table.firstRows select limit) (hle : key row ≤ key other) :
    row ∈ table.firstRows select limit := by
  obtain hmem | hall : row ∈ table.firstRows select limit \/
      ∀ other ∈ table.firstRows select limit, key other ≤ key row :=
    mem_firstRows_or_le hrow hselect
  · exact hmem
  · have hkey : key row = key other := le_antisymm hle (hall other hother)
    rw [eq_of_key_eq hrow (mem_of_mem_firstRows hother).1 hkey]
    exact hother

theorem mem_firstRows_of_length_le (hrow : row ∈ table) (hselect : select row = true)
    (hlength : (table.rows.filter select).length ≤ limit) : row ∈ table.firstRows select limit := by
  unfold firstRows selectOrdered
  rw [take_of_length_le (by rwa [length_insertionSort]), mem_insertionSort]
  exact mem_filter.mpr ⟨hrow, hselect⟩

theorem select_eq_false_of_firstRows_eq_nil (hlimit : 1 ≤ limit)
    (hnil : table.firstRows select limit = []) (hrow : row ∈ table) : select row = false := by
  by_contra hselect
  rw [Bool.not_eq_false] at hselect
  unfold firstRows selectOrdered at hnil
  rcases take_eq_nil_iff.mp hnil with hzero | hempty
  · omega
  · have hmem : row ∈ table.rows.filter select := mem_filter.mpr ⟨hrow, hselect⟩
    rw [<- mem_insertionSort (fun left right => key left ≤ key right), hempty] at hmem
    exact not_mem_nil hmem

omit [LinearOrder Key] in
theorem length_filter_le_of_named {names : List Key}
    (hnamed : ∀ row, select row = true -> key row ∈ names) :
    (table.rows.filter select).length ≤ names.length := by
  have hnodup : ((table.rows.filter select).map key).Nodup :=
    table.keysNodup.sublist (filter_sublist.map key)
  have hsub : (table.rows.filter select).map key ⊆ names := by
    intro name hname
    obtain ⟨row, hrow, rfl⟩ := mem_map.mp hname
    exact hnamed row (mem_filter.mp hrow).2
  have hlength := (subperm_of_subset hnodup hsub).length_le
  rwa [length_map] at hlength

end Batches

end AnchorMind.Kernel.KeyedTable.Table

/-!
# Update statements one after another

A maintenance run is a list of update statements.  The run changes each row by itself, so
what it does to a table is what it does to every row, and a run that no statement of which
selects a row leaves the table alone.
-/

namespace AnchorMind.Kernel.UpdateSequence

open Kernel.KeyedTable List

variable {Row Key : Type*} {key : Row -> Key} {check : Row -> Prop}

def applyAll (table : Table key check) (updates : List (Table.Update key check)) :
    Table key check :=
  updates.foldl Table.apply table

def affectedCounts (table : Table key check) : List (Table.Update key check) -> List Nat
  | [] => []
  | update :: rest => (table.affected update).length :: affectedCounts (table.apply update) rest

def rowStep (row : Row) (update : Table.Update key check) : Row :=
  if update.select row then update.image row else row

def rowAfter (updates : List (Table.Update key check)) (row : Row) : Row :=
  updates.foldl rowStep row

def Quiet (updates : List (Table.Update key check)) (row : Row) : Prop :=
  ∀ update ∈ updates, update.select row = false

variable {update : Table.Update key check}

theorem rowStep_of_unselected {row : Row} (hselect : update.select row = false) :
    rowStep row update = row := by
  rw [rowStep, hselect]
  rfl

theorem rowStep_of_selected {row : Row} (hselect : update.select row = true) :
    rowStep row update = update.image row := by
  rw [rowStep, hselect]
  rfl

@[simp]
theorem rowAfter_nil (row : Row) : rowAfter ([] : List (Table.Update key check)) row = row := rfl

@[simp]
theorem rowAfter_cons (update : Table.Update key check) (rest : List (Table.Update key check))
    (row : Row) : rowAfter (update :: rest) row = rowAfter rest (rowStep row update) := rfl

theorem rowAfter_append (before after : List (Table.Update key check)) (row : Row) :
    rowAfter (before ++ after) row = rowAfter after (rowAfter before row) :=
  foldl_append

theorem applyAll_rows (table : Table key check) (updates : List (Table.Update key check)) :
    (applyAll table updates).rows = table.rows.map (rowAfter updates) := by
  induction updates generalizing table with
  | nil => exact (map_id table.rows).symm
  | cons update rest ih =>
    have hrest : (applyAll (table.apply update) rest).rows =
        (table.rows.map fun row => rowStep row update).map (rowAfter rest) := ih _
    rw [map_map] at hrest
    exact hrest

variable {updates : List (Table.Update key check)} {table : Table key check}

theorem mem_applyAll {row : Row} :
    row ∈ applyAll table updates <->
      ∃ source ∈ table, rowAfter updates source = row := by
  rw [Table.mem_def, applyAll_rows]
  exact mem_map

theorem key_rowAfter (updates : List (Table.Update key check)) (row : Row) :
    key (rowAfter updates row) = key row := by
  induction updates generalizing row with
  | nil => rfl
  | cons update rest ih =>
    rw [rowAfter_cons, ih]
    cases hselect : update.select row with
    | true => rw [rowStep_of_selected hselect, update.keepsKey]
    | false => rw [rowStep_of_unselected hselect]

theorem rowAfter_of_quiet {row : Row} (hquiet : Quiet updates row) :
    rowAfter updates row = row := by
  induction updates with
  | nil => rfl
  | cons update rest ih =>
    rw [rowAfter_cons, rowStep_of_unselected (hquiet update mem_cons_self)]
    exact ih fun other hother => hquiet other (mem_cons_of_mem _ hother)

theorem apply_of_unselected (hselect : ∀ row ∈ table, update.select row = false) :
    table.apply update = table := by
  have hrows : (table.apply update).rows = table.rows := by
    refine (map_congr_left fun row hrow => ?_).trans (map_id _)
    exact rowStep_of_unselected (hselect row hrow)
  cases table
  simpa [Table.apply] using hrows

theorem affected_eq_nil_iff :
    (table.affected update).length = 0 <->
      ∀ row ∈ table, update.select row = false := by
  rw [length_eq_zero_iff, Table.affected, map_eq_nil_iff, filter_eq_nil_iff]
  constructor
  · intro hnone row hrow
    exact Bool.eq_false_of_not_eq_true (hnone row hrow)
  · intro hnone row hrow
    rw [hnone row hrow]
    exact Bool.false_ne_true

theorem affectedCounts_length (table : Table key check) (updates : List (Table.Update key check)) :
    (affectedCounts table updates).length = updates.length := by
  induction updates generalizing table with
  | nil => rfl
  | cons update rest ih => exact congrArg (· + 1) (ih _)

theorem affectedCounts_eq_zero_iff :
    (∀ count ∈ affectedCounts table updates, count = 0) <->
      ∀ row ∈ table, Quiet updates row := by
  induction updates generalizing table with
  | nil => simp [affectedCounts, Quiet]
  | cons update rest ih =>
    rw [affectedCounts, forall_mem_cons, affected_eq_nil_iff]
    constructor
    · rintro ⟨hfirst, hrest⟩ row hrow other hother
      rw [apply_of_unselected hfirst] at hrest
      rcases mem_cons.mp hother with rfl | hother
      · exact hfirst row hrow
      · exact ih.mp hrest row hrow other hother
    · intro hquiet
      have hfirst : ∀ row ∈ table, update.select row = false :=
        fun row hrow => hquiet row hrow update mem_cons_self
      refine ⟨hfirst, ?_⟩
      rw [apply_of_unselected hfirst, ih]
      exact fun row hrow other hother => hquiet row hrow other (mem_cons_of_mem _ hother)

end AnchorMind.Kernel.UpdateSequence
