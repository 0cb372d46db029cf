import AnchorMind.Kernel.KeyedTable
import Mathlib.Algebra.GroupWithZero.Nat
import Mathlib.Order.Nat

/-!
# Updates in the order of the ids

`updateInIdOrder` updates the rows a condition selects in batches: each batch locks the
first selected rows after the last locked id, updates them, and commits.  Other writers
change the table between the batches.
-/

namespace AnchorMind.Consolidate.IdOrderedUpdate

open Kernel.KeyedTable List

/-- `BatchParamError`: the number of the placeholder whose value is missing. -/
structure BatchParamError where
  position : Nat
  deriving DecidableEq

/-- The values from placeholder `$first` on. -/
def assertBatchParams {Param : Type} (first : Nat) :
    List (Option Param) -> Except BatchParamError (List Param)
  | [] => .ok []
  | none :: _ => .error ⟨first⟩
  | some value :: rest =>
    match assertBatchParams (first + 1) rest with
    | .ok values => .ok (value :: values)
    | .error err => .error err

/-- The `where`, `set` and `params` of an update; both texts see the values and the clock. -/
structure Spec (Id Row Param Clock : Type) where
  id : Row -> Id
  selects : List Param -> Clock -> Row -> Bool
  sets : List Param -> Clock -> Row -> Row
  keepsId : ∀ params clock row, id (sets params clock row) = id row
  params : List (Option Param)
  batchSize : Nat

section

variable {Id Row Param Clock : Type} [LinearOrder Id] [OrderBot Id]
  (spec : Spec Id Row Param Clock)

abbrev Spec.Rows := Table spec.id fun row => spec.id row ≠ ⊥

structure Batch where
  locked : List Id
  n : Nat
  lastId : Option Id
  rows : spec.Rows

/-- `(where) AND id > $1`, narrowed to one id when it is given. -/
def lockWhere (params : List Param) (clock : Clock) (afterId : Id) (onlyId : Option Id)
    (row : Row) : Bool :=
  spec.selects params clock row && decide (afterId < spec.id row) &&
    onlyId.all fun id => decide (spec.id row = id)

def lockRows (rows : spec.Rows) (params : List Param) (clock : Clock) (afterId : Id)
    (onlyId : Option Id) : List Row :=
  rows.firstRows (lockWhere spec params clock afterId onlyId) spec.batchSize

def updateRows (params : List Param) (clock : Clock) (ids : List Id) :
    Table.Update spec.id (fun row => spec.id row ≠ ⊥) where
  select row := decide (spec.id row ∈ ids)
  image row := spec.sets params clock row
  keepsKey := spec.keepsId params clock
  keepsCheck row _ hcheck := by rwa [spec.keepsId]

/-- The rows are locked and updated in one transaction; `onlyId` narrows it to one row. -/
def updateOneBatch (rows : spec.Rows) (afterId : Id) (clock : Clock) (onlyId : Option Id) :
    Except BatchParamError (Batch spec) :=
  match assertBatchParams 4 spec.params with
  | .error err => .error err
  | .ok params =>
    let locked := (lockRows spec rows params clock afterId onlyId).map spec.id
    let update := updateRows spec params clock locked
    .ok { locked := locked
          n := (rows.affected update).length
          lastId := locked.getLast?
          rows := rows.apply update }

/-- What a finished run returns, the table it leaves, and for each of its batches the table
it found and the ids it locked. -/
structure Run where
  total : Nat
  rows : spec.Rows
  batches : List (spec.Rows × List Id)

/-- The loop of `updateInIdOrder`, with what other writers make of the table before the
batch of each number. -/
def updateFrom (clock : Clock) (others : Nat -> spec.Rows -> spec.Rows) :
    Nat -> Nat -> spec.Rows -> Id -> Nat -> Except BatchParamError (Option (Run spec))
  | 0, _, _, _, _ => .ok none
  | fuel + 1, number, rows, lastId, total =>
    let found := others number rows
    match updateOneBatch spec found lastId clock none with
    | .error err => .error err
    | .ok batch =>
      match batch.lastId with
      | none => .ok (some ⟨total, batch.rows, [(found, batch.locked)]⟩)
      | some next =>
        match updateFrom clock others fuel (number + 1) batch.rows next (total + batch.n) with
        | .ok (some run) => .ok (some { run with batches := (found, batch.locked) :: run.batches })
        | unfinished => unfinished

def updateInIdOrder (clock : Clock) (others : Nat -> spec.Rows -> spec.Rows) (fuel : Nat)
    (rows : spec.Rows) : Except BatchParamError (Option (Run spec)) :=
  updateFrom spec clock others fuel 0 rows ⊥ 0

end

section

variable {Id Row Param Clock : Type} [LinearOrder Id] [OrderBot Id]
  {spec : Spec Id Row Param Clock} {rows : spec.Rows} {params : List Param} {clock : Clock}
  {afterId : Id}

def lockedIds (rows : spec.Rows) (params : List Param) (clock : Clock) (afterId : Id) : List Id :=
  (lockRows spec rows params clock afterId none).map spec.id

def Matches (rows : spec.Rows) (params : List Param) (clock : Clock) (id : Id) : Prop :=
  ∃ row ∈ rows, spec.id row = id /\ spec.selects params clock row = true

omit [OrderBot Id] in
theorem lockWhere_iff {row : Row} :
    lockWhere spec params clock afterId none row = true <->
      spec.selects params clock row = true /\ afterId < spec.id row := by
  simp [lockWhere]

variable {id : Id}

theorem mem_lockedIds (hid : id ∈ lockedIds rows params clock afterId) :
    Matches rows params clock id /\ afterId < id := by
  obtain ⟨row, hrow, rfl⟩ := mem_map.mp hid
  obtain ⟨hmem, hselect⟩ := Table.mem_of_mem_firstRows hrow
  obtain ⟨hwhere, hafter⟩ := lockWhere_iff.mp hselect
  exact ⟨⟨row, hmem, rfl, hwhere⟩, hafter⟩

theorem mem_lockedIds_or_le (hmatches : Matches rows params clock id) (hafter : afterId < id) :
    id ∈ lockedIds rows params clock afterId \/
      ∀ other ∈ lockedIds rows params clock afterId, other ≤ id := by
  obtain ⟨row, hrow, rfl, hselect⟩ := hmatches
  rcases Table.mem_firstRows_or_le hrow
    (lockWhere_iff.mpr ⟨hselect, hafter⟩) with hmem | hle
  · exact .inl (mem_map_of_mem hmem)
  · refine .inr fun other hother => ?_
    obtain ⟨found, hfound, rfl⟩ := mem_map.mp hother
    exact hle found hfound

theorem lockedIds_pairwise (rows : spec.Rows) (params : List Param) (clock : Clock) (afterId : Id) :
    (lockedIds rows params clock afterId).Pairwise (· < ·) := by
  have hnodup : (lockedIds rows params clock afterId).Nodup := Table.selectOrdered_keys_nodup
  have htotal : Std.Total fun left right : Row => spec.id left ≤ spec.id right :=
    ⟨fun left right => le_total (spec.id left) (spec.id right)⟩
  have htrans : IsTrans Row fun left right => spec.id left ≤ spec.id right :=
    ⟨fun _ _ _ hleft hright => le_trans hleft hright⟩
  have hsorted : (lockedIds rows params clock afterId).Pairwise (· ≤ ·) :=
    pairwise_map.mpr Table.pairwise_selectOrdered
  exact (hsorted.and hnodup).imp fun hboth => lt_of_le_of_ne hboth.1 hboth.2

theorem not_matches_of_nil (hbatch : 1 ≤ spec.batchSize)
    (hnil : lockedIds rows params clock afterId = []) (hafter : afterId < id) :
    ¬ Matches rows params clock id := by
  rintro ⟨row, hrow, rfl, hselect⟩
  have hnone := Table.select_eq_false_of_firstRows_eq_nil hbatch (map_eq_nil_iff.mp hnil) hrow
  rw [lockWhere_iff.mpr ⟨hselect, hafter⟩] at hnone
  cases hnone

theorem affected_length :
    (rows.affected (updateRows spec params clock (lockedIds rows params clock afterId))).length =
      (lockedIds rows params clock afterId).length := by
  refine Perm.length_eq ((perm_ext_iff_of_nodup ?_ ?_).mpr fun id => ?_)
  · exact rows.keysNodup.sublist (filter_sublist.map spec.id)
  · exact Table.selectOrdered_keys_nodup
  · constructor
    · intro haffected
      obtain ⟨row, -, rfl, hselect⟩ := Table.exists_of_mem_affected haffected
      exact of_decide_eq_true hselect
    · intro hlocked
      obtain ⟨⟨row, hrow, rfl, -⟩, -⟩ := mem_lockedIds hlocked
      exact (Table.key_mem_affected hrow).mpr (decide_eq_true hlocked)

end

section

variable {Id Row Param Clock : Type} [LinearOrder Id] [OrderBot Id]
  {spec : Spec Id Row Param Clock} {params : List Param} {clock : Clock}
  {others : Nat -> spec.Rows -> spec.Rows}

def afterBatch (rows : spec.Rows) (params : List Param) (clock : Clock) (afterId : Id) :
    spec.Rows :=
  rows.apply (updateRows spec params clock (lockedIds rows params clock afterId))

theorem updateOneBatch_eq (hparams : assertBatchParams 4 spec.params = .ok params)
    (rows : spec.Rows) (afterId : Id) (clock : Clock) :
    updateOneBatch spec rows afterId clock none = .ok
      { locked := lockedIds rows params clock afterId
        n := (lockedIds rows params clock afterId).length
        lastId := (lockedIds rows params clock afterId).getLast?
        rows := afterBatch rows params clock afterId } := by
  have hcount : (rows.affected (updateRows spec params clock
      (lockedIds rows params clock afterId))).length =
        (lockedIds rows params clock afterId).length := affected_length
  rw [updateOneBatch, hparams, ← hcount]
  rfl

inductive Ran (params : List Param) (clock : Clock) (others : Nat -> spec.Rows -> spec.Rows) :
    Nat -> spec.Rows -> Id -> Nat -> Run spec -> Prop where
  | stop (number : Nat) (rows : spec.Rows) (afterId : Id) (total : Nat)
      (hnil : lockedIds (others number rows) params clock afterId = []) :
      Ran params clock others number rows afterId total
        ⟨total, afterBatch (others number rows) params clock afterId, [(others number rows, [])]⟩
  | batch (number : Nat) (rows : spec.Rows) (afterId next : Id) (total : Nat) (run : Run spec)
      (hlast : (lockedIds (others number rows) params clock afterId).getLast? = some next)
      (hran : Ran params clock others (number + 1)
        (afterBatch (others number rows) params clock afterId) next
        (total + (lockedIds (others number rows) params clock afterId).length) run) :
      Ran params clock others number rows afterId total
        { run with batches := (others number rows,
            lockedIds (others number rows) params clock afterId) :: run.batches }

def Run.updated (run : Run spec) : List Id := run.batches.flatMap Prod.snd

def StaysMatching (run : Run spec) (params : List Param) (clock : Clock) (id : Id) : Prop :=
  ∀ front found locked back, run.batches = front ++ (found, locked) :: back ->
    id ∉ front.flatMap Prod.snd -> Matches found params clock id

variable {number : Nat} {rows : spec.Rows} {afterId : Id} {total : Nat} {run : Run spec}

omit [OrderBot Id] in
theorem le_of_getLast? {ids : List Id} {id next : Id} (hsorted : ids.Pairwise (· < ·))
    (hlast : ids.getLast? = some next) (hid : id ∈ ids) : id ≤ next := by
  obtain ⟨front, rfl⟩ := getLast?_eq_some_iff.mp hlast
  rcases mem_append.mp hid with hfront | hend
  · exact le_of_lt ((pairwise_append.mp hsorted).2.2 id hfront next mem_cons_self)
  · exact le_of_eq (mem_singleton.mp hend)

theorem lt_of_getLast? {next : Id}
    (hlast : (lockedIds rows params clock afterId).getLast? = some next) : afterId < next :=
  (mem_lockedIds (mem_of_getLast? hlast)).2

section

variable (hran : Ran params clock others number rows afterId total run)
include hran

theorem Ran.increasing : run.updated.Pairwise (· < ·) /\ ∀ id ∈ run.updated, afterId < id := by
  induction hran with
  | stop number rows afterId total hnil =>
    exact ⟨Pairwise.nil, nofun⟩
  | batch number rows afterId next total run hlast hran ih =>
    obtain ⟨hrest, hafter⟩ := ih
    have hsorted := lockedIds_pairwise (others number rows) params clock afterId
    simp only [Run.updated, flatMap_cons] at hrest hafter ⊢
    constructor
    · refine pairwise_append.mpr ⟨hsorted, hrest, fun id hid later hlater => ?_⟩
      exact lt_of_le_of_lt (le_of_getLast? hsorted hlast hid) (hafter later hlater)
    · intro id hid
      rcases mem_append.mp hid with hlocked | hlater
      · exact (mem_lockedIds hlocked).2
      · exact lt_trans (lt_of_getLast? hlast) (hafter id hlater)

theorem Ran.total_eq : run.total = total + run.updated.length := by
  induction hran with
  | stop number rows afterId total hnil => rfl
  | batch number rows afterId next total run hlast hran ih =>
    simp only [Run.updated, flatMap_cons, length_append] at ih ⊢
    omega

theorem Ran.exists_first : ∃ found locked back, run.batches = (found, locked) :: back := by
  cases hran with
  | stop hnil => exact ⟨_, _, _, rfl⟩
  | batch next run hlast hran => exact ⟨_, _, _, rfl⟩

end

theorem Ran.mem_updated (hbatch : 1 ≤ spec.batchSize)
    (hran : Ran params clock others number rows afterId total run) {id : Id} (hafter : afterId < id)
    (hstays : StaysMatching run params clock id) : id ∈ run.updated := by
  induction hran with
  | stop number rows afterId total hnil =>
    exact absurd (hstays [] _ [] [] rfl not_mem_nil) (not_matches_of_nil hbatch hnil hafter)
  | batch number rows afterId next total run hlast hran ih =>
    have hmatches : Matches (others number rows) params clock id :=
      hstays [] _ _ run.batches rfl not_mem_nil
    simp only [Run.updated, flatMap_cons]
    by_cases hlocked : id ∈ lockedIds (others number rows) params clock afterId
    · exact mem_append_left _ hlocked
    · refine mem_append_right _ (ih ?_ ?_)
      · -- What was not locked is above everything that was.
        rcases mem_lockedIds_or_le hmatches hafter with hmem | hle
        · exact absurd hmem hlocked
        · have hnext := mem_of_getLast? hlast
          exact lt_of_le_of_ne (hle next hnext) fun heq => hlocked (heq ▸ hnext)
      · intro front found locked back hsplit hfront
        refine hstays ((others number rows, _) :: front) found locked back
          (congrArg (_ :: ·) hsplit) ?_
        rw [flatMap_cons, mem_append]
        exact fun hmem => hmem.elim hlocked hfront

structure OtherWriters (spec : Spec Id Row Param Clock) (names : List Id) where
  change : Nat -> spec.Rows -> spec.Rows
  within : ∀ number rows, (∀ row ∈ rows, spec.id row ∈ names) ->
    ∀ row ∈ change number rows, spec.id row ∈ names

variable {names : List Id}

omit [OrderBot Id] in
theorem names_shrink {next : Id} (hnext : next ∈ names) (hafter : afterId < next) :
    (names.filter fun id => decide (next < id)).length <
      (names.filter fun id => decide (afterId < id)).length := by
  have hsub : (names.filter fun id => decide (next < id)).Sublist
      ((names.filter fun id => decide (afterId < id)).filter fun id => decide (next < id)) := by
    rw [filter_filter]
    refine monotone_filter_right names fun id hid => ?_
    rw [Bool.and_eq_true]
    exact ⟨hid, decide_eq_true (lt_trans hafter (of_decide_eq_true hid))⟩
  refine lt_of_le_of_lt hsub.length_le (length_filter_lt_length_iff_exists.mpr ⟨next, ?_, ?_⟩)
  · exact mem_filter.mpr ⟨hnext, decide_eq_true hafter⟩
  · simp

section

variable (hparams : assertBatchParams 4 spec.params = .ok params)
include hparams

theorem updateFrom_stop (fuel : Nat) (total : Nat)
    (hnil : lockedIds (others number rows) params clock afterId = []) :
    updateFrom spec clock others (fuel + 1) number rows afterId total =
      .ok (some ⟨total, afterBatch (others number rows) params clock afterId,
        [(others number rows, [])]⟩) := by
  rw [updateFrom]
  simp only [updateOneBatch_eq hparams, hnil, getLast?_nil]

theorem updateFrom_batch {fuel : Nat} {next : Id}
    (hlast : (lockedIds (others number rows) params clock afterId).getLast? = some next)
    (hrest : updateFrom spec clock others fuel (number + 1)
      (afterBatch (others number rows) params clock afterId) next
      (total + (lockedIds (others number rows) params clock afterId).length) = .ok (some run)) :
    updateFrom spec clock others (fuel + 1) number rows afterId total = .ok (some
      { run with batches := (others number rows,
          lockedIds (others number rows) params clock afterId) :: run.batches }) := by
  rw [updateFrom]
  simp only [updateOneBatch_eq hparams, hlast, hrest]

omit hparams in
theorem afterBatch_within (hrows : ∀ row ∈ rows, spec.id row ∈ names) (row : Row)
    (hrow : row ∈ afterBatch rows params clock afterId) : spec.id row ∈ names := by
  obtain ⟨source, hsource, ⟨-, rfl⟩ | ⟨-, rfl⟩⟩ := Table.mem_apply.mp hrow
  · exact (spec.keepsId params clock source).symm ▸ hrows source hsource
  · exact hrows row hsource

/-- As many batches are enough as there are ids after the cursor, and one that finds none. -/
theorem exists_ran (writers : OtherWriters spec names) (count number : Nat) (rows : spec.Rows)
    (afterId : Id) (total : Nat)
    (hcount : (names.filter fun id => decide (afterId < id)).length ≤ count)
    (hrows : ∀ row ∈ rows, spec.id row ∈ names) :
    ∃ run, Ran params clock writers.change number rows afterId total run /\
      ∀ fuel, count < fuel ->
        updateFrom spec clock writers.change fuel number rows afterId total = .ok (some run) := by
  have hfound := writers.within number rows hrows
  induction count generalizing number rows afterId total with
  | zero =>
    have hnil : lockedIds (writers.change number rows) params clock afterId = [] := by
      refine eq_nil_iff_forall_not_mem.mpr fun id hid => ?_
      obtain ⟨⟨row, hrow, rfl, -⟩, hafter⟩ := mem_lockedIds hid
      have hshrink := names_shrink (hfound row hrow) hafter
      omega
    refine ⟨_, .stop number rows afterId total hnil, fun fuel hfuel => ?_⟩
    obtain ⟨fuel, rfl⟩ := Nat.exists_eq_add_of_lt hfuel
    rw [Nat.zero_add]
    exact updateFrom_stop hparams fuel total hnil
  | succ count ih =>
    cases hlast : (lockedIds (writers.change number rows) params clock afterId).getLast? with
    | none =>
      have hnil := getLast?_eq_none_iff.mp hlast
      refine ⟨_, .stop number rows afterId total hnil, fun fuel hfuel => ?_⟩
      obtain ⟨fuel, rfl⟩ := Nat.exists_eq_succ_of_ne_zero (Nat.ne_zero_of_lt hfuel)
      exact updateFrom_stop hparams fuel total hnil
    | some next =>
      obtain ⟨⟨row, hrow, rfl, -⟩, hafter⟩ := mem_lockedIds (mem_of_getLast? hlast)
      have hshrink := names_shrink (hfound row hrow) hafter
      have hbatch : ∀ row ∈ afterBatch (writers.change number rows) params clock afterId,
            spec.id row ∈ names := afterBatch_within hfound
      obtain ⟨run, hran, hruns⟩ := ih (number + 1) _ (spec.id row)
        (total + (lockedIds (writers.change number rows) params clock afterId).length)
        (by omega) hbatch (writers.within _ _ hbatch)
      refine ⟨_, .batch number rows afterId _ total run hlast hran, fun fuel hfuel => ?_⟩
      obtain ⟨fuel, rfl⟩ := Nat.exists_eq_succ_of_ne_zero (Nat.ne_zero_of_lt hfuel)
      exact updateFrom_batch hparams hlast (hruns fuel (by omega))

/-- Whatever other writers do to rows of finitely many ids, the update ends, its ids rise
strictly, it returns how many they are, and every id that matches until it is updated is
updated exactly once. -/
theorem updateInIdOrder_spec (hbatch : 1 ≤ spec.batchSize) (clock : Clock)
    (writers : OtherWriters spec names) (rows : spec.Rows)
    (hrows : ∀ row ∈ rows, spec.id row ∈ names) :
    ∃ run, (∀ fuel, names.length < fuel ->
        updateInIdOrder spec clock writers.change fuel rows = .ok (some run)) /\
      run.updated.Pairwise (· < ·) /\ run.total = run.updated.length /\
      ∀ id, StaysMatching run params clock id -> run.updated.count id = 1 := by
  obtain ⟨run, hran, hruns⟩ := exists_ran hparams writers names.length 0 rows ⊥ 0
    (length_filter_le _ _) hrows
  refine ⟨run, hruns, hran.increasing.1, by rw [hran.total_eq, Nat.zero_add], fun id hstays => ?_⟩
  have hstart : ⊥ < id := by
    obtain ⟨found, locked, back, hfirst⟩ := hran.exists_first
    obtain ⟨row, hrow, rfl, -⟩ := hstays [] found locked back hfirst not_mem_nil
    exact bot_lt_iff_ne_bot.mpr (found.checked row hrow)
  exact count_eq_one_of_mem (hran.increasing.1.imp fun hlt => ne_of_lt hlt)
    (hran.mem_updated hbatch hstart hstays)

omit hparams in
theorem Ran.rows_alone (hbatch : 1 ≤ spec.batchSize)
    (hran : Ran params clock (fun _ rows => rows) number rows afterId total run) :
    run.rows.rows = rows.rows.map fun row =>
      if spec.selects params clock row = true /\ afterId < spec.id row
        then spec.sets params clock row else row := by
  have hlocked : ∀ (rows : spec.Rows) (afterId : Id),
      (afterBatch rows params clock afterId).rows = rows.rows.map fun row =>
        if spec.id row ∈ lockedIds rows params clock afterId
          then spec.sets params clock row else row := by
    intro rows afterId
    simp [afterBatch, Table.apply, updateRows]
  induction hran with
  | stop number rows afterId total hnil =>
    rw [hlocked, hnil]
    refine map_congr_left fun row hrow => ?_
    rw [if_neg not_mem_nil, if_neg]
    rintro ⟨hselect, hafter⟩
    exact not_matches_of_nil hbatch hnil hafter ⟨row, hrow, rfl, hselect⟩
  | batch number rows afterId next total run hlast hran ih =>
    rw [ih, hlocked, map_map]
    refine map_congr_left fun row hrow => ?_
    have hsorted := lockedIds_pairwise rows params clock afterId
    by_cases hmem : spec.id row ∈ lockedIds rows params clock afterId
    · -- The locked row is updated once: its id is not after the next cursor.
      obtain ⟨⟨found, hfound, hid, hselect⟩, hafter⟩ := mem_lockedIds hmem
      obtain rfl := Table.eq_of_key_eq hfound hrow hid
      have hnot : ¬ next < spec.id found := not_lt_of_ge (le_of_getLast? hsorted hlast hmem)
      simp [hmem, hselect, hafter, spec.keepsId, hnot]
    · simp only [Function.comp_apply, if_neg hmem]
      refine if_congr ⟨fun hlater => ⟨hlater.1, lt_trans (lt_of_getLast? hlast) hlater.2⟩,
        fun hselected => ⟨hselected.1, ?_⟩⟩ rfl rfl
      rcases mem_lockedIds_or_le ⟨row, hrow, rfl, hselected.1⟩ hselected.2 with hmem' | hle
      · exact absurd hmem' hmem
      · have hnext := mem_of_getLast? hlast
        exact lt_of_le_of_ne (hle next hnext) fun heq => hmem (heq ▸ hnext)

/-- Nobody else writes. -/
def noWriters (spec : Spec Id Row Param Clock) (names : List Id) : OtherWriters spec names where
  change _ rows := rows
  within _ _ hrows := hrows

theorem updateInIdOrder_alone (hbatch : 1 ≤ spec.batchSize) (clock : Clock) (rows : spec.Rows) :
    ∃ run, (∀ fuel, rows.rows.length < fuel ->
        updateInIdOrder spec clock (fun _ rows => rows) fuel rows = .ok (some run)) /\
      run.rows.rows = rows.rows.map fun row =>
        if spec.selects params clock row = true then spec.sets params clock row else row := by
  obtain ⟨run, hran, hruns⟩ := exists_ran hparams (noWriters spec (rows.rows.map spec.id))
    rows.rows.length 0 rows ⊥ 0
    ((length_filter_le _ _).trans_eq (length_map _))
    (fun row hrow => mem_map_of_mem hrow)
  refine ⟨run, hruns, (hran.rows_alone hbatch).trans (map_congr_left fun row hrow => ?_)⟩
  exact if_congr (and_iff_left (bot_lt_iff_ne_bot.mpr (rows.checked row hrow))) rfl rfl

end

end

def raiseScores : Spec Nat (Nat × Nat) Nat Unit where
  id := Prod.fst
  selects _ _ row := decide (row.2 < 10)
  sets params _ row := (row.1, row.2 + params.sum)
  keepsId _ _ _ := rfl
  params := [some 1]
  batchSize := 2

def threeRows : raiseScores.Rows where
  rows := [(3, 4), (1, 4), (2, 4)]
  keysNodup := by decide
  checked := by decide

def deletesSecond : OtherWriters raiseScores [1, 2, 3] where
  change _ rows := rows.deleteWhere fun row => decide (row.1 = 2)
  within _ _ hrows row hrow := hrows row (Table.mem_deleteWhere.mp hrow).1

theorem updateInIdOrder_spec_beside_delete :
    ∃ run, (∀ fuel, 3 < fuel ->
        updateInIdOrder raiseScores () deletesSecond.change fuel threeRows = .ok (some run)) /\
      run.updated.Pairwise (· < ·) /\ run.total = run.updated.length /\
      ∀ id, StaysMatching run [1] () id -> run.updated.count id = 1 :=
  updateInIdOrder_spec rfl (by decide) () deletesSecond threeRows (by decide)

end AnchorMind.Consolidate.IdOrderedUpdate
