import AnchorMind.Kernel.KeyedTable
import AnchorMind.Kernel.Transition

/-!
# Resumable backfills

A backfill updates the rows its condition selects, batch by batch in the order of their ids.
Each batch is a transaction of its own, and the watermark of the job is moved by a further
statement, if it is still where the run read it.  Rows that fail by themselves are recorded
and passed over.  A run can stop after any statement, runs and retries of one job can overlap,
and other writers change the rows meanwhile.
-/

namespace AnchorMind.Consolidate.ResumableBackfill

open Kernel.KeyedTable Kernel.Transition

inductive Status where
  | running
  | completed
  deriving DecidableEq

/-- The job's row of `backfill_watermarks`. -/
structure Watermark (Id : Type) where
  lastId : Id
  rowsDone : Nat
  status : Status
  deriving DecidableEq

structure DbError where
  code : Option String
  constraint : Option String

/-- A row of `backfill_failures`.  Neither messages nor values are stored. -/
structure Failure (Id : Type) where
  rowId : Id
  sqlstate : String
  errorClass : String
  constraintName : Option String
  attempts : Nat

abbrev Failures (Id : Type) := Table (Failure.rowId : Failure Id -> Id) fun _ => True

def isRowLevelError (err : DbError) : Bool :=
  (err.code.getD "").startsWith "22" || (err.code.getD "").startsWith "23"

def errorClassLabel (sqlstate : String) : String :=
  if sqlstate.startsWith "22" then "data_exception"
  else if sqlstate.startsWith "23" then "integrity_constraint_violation"
  else "other"

def recordFailure {Id : Type} [DecidableEq Id] (failures : Failures Id) (rowId : Id)
    (err : DbError) : Failures Id :=
  let sqlstate := err.code.getD "undefined"
  failures.upsert ⟨rowId, sqlstate, errorClassLabel sqlstate, err.constraint, 1⟩ trivial
    { select := fun failure => decide (failure.rowId = rowId)
      image := fun failure =>
        { failure with
          sqlstate := sqlstate
          errorClass := errorClassLabel sqlstate
          constraintName := err.constraint
          attempts := failure.attempts + 1 }
      keepsKey := fun _ => rfl
      keepsCheck := fun _ _ _ => trivial }

/-- The values of a batch are fixed, or `prepareBatch` reads candidates and makes them. -/
inductive Source (Row Params Clock : Type) where
  | fixed (params : Params)
  | prepared (candidate : Clock -> Row -> Bool)

/-- The `where` and `set` of a job.  The database compares ids by the order of their
type, JavaScript by `greater`. -/
structure Spec (Id Row Params Clock : Type) where
  id : Row -> Id
  selects : Params -> Clock -> Row -> Bool
  sets : Params -> Clock -> Row -> Row
  keepsId : ∀ params clock row, id (sets params clock row) = id row
  source : Source Row Params Clock
  greater : Id -> Id -> Bool

/-- The `lastId` of a prepared batch: `undefined`, `null`, or the last of the ids that
its params stand for. -/
inductive LastId (Id : Type) where
  | undefined
  | null
  | upTo (last : Id) (ids : List Id)

structure Prepared (Id Params : Type) where
  params : Params
  lastId : LastId Id

/-- `prepared.lastId ?? batch.lastId` -/
def LastId.orElse {Id : Type} (lastId : LastId Id) (locked : Option Id) : Option Id :=
  match lastId with
  | .upTo last _ => some last
  | _ => locked

structure Batch (Id : Type) where
  n : Nat
  failed : Nat
  lastId : Option Id

/-- The variables of the loop of `runResumableBackfill`. -/
structure Loop (Id Clock : Type) where
  batchSize : Nat
  clock : Clock
  resumedFrom : Id
  lastId : Id
  rowsUpdated : Nat
  failedRows : Nat

structure Retry (Clock : Type) where
  clock : Clock
  resolved : Nat
  stillFailing : Nat

inductive Outcome (Id : Type) where
  | completed (rowsUpdated failedRows : Nat) (lastId resumedFrom : Id)
  | alreadyCompleted (lastId : Id)
  | concurrentRun
  | failed
  | retried (resolved stillFailing : Nat)

/-- The statement a run or a retry is to execute next. -/
inductive Phase (Id Params Clock : Type) where
  | idle
  | ended (outcome : Outcome Id)
  | clearing (batchSize : Nat)
  | resetting (batchSize : Nat)
  | creating (batchSize : Nat)
  | loading (batchSize : Nat)
  | batching (loop : Loop Id Clock)
  | locking (loop : Loop Id Clock) (prepared : Prepared Id Params)
  | splitting (loop : Loop Id Clock) (prepared : Prepared Id Params)
  | rowwise (loop : Loop Id Clock) (prepared : Prepared Id Params) (ids : List Id)
      (batch : Batch Id)
  | recording (loop : Loop Id Clock) (prepared : Prepared Id Params) (id : Id) (err : DbError)
      (ids : List Id) (batch : Batch Id)
  | saving (loop : Loop Id Clock) (n failed : Nat) (nextId : Id)
  | completing (loop : Loop Id Clock)
  | listing
  | retrying (retry : Retry Clock) (ids : List Id)
  | retryLocking (retry : Retry Clock) (id : Id) (prepared : Prepared Id Params) (ids : List Id)
  | forgetting (retry : Retry Clock) (id : Id) (ids : List Id)
  | retryRecording (retry : Retry Clock) (id : Id) (err : DbError) (ids : List Id)

section

variable {Id Row Params Clock Runner : Type} [LinearOrder Id] [OrderBot Id]

abbrev Spec.Rows (spec : Spec Id Row Params Clock) := Table spec.id fun row => spec.id row ≠ ⊥

/-- The stored tables, the runs, and the ids that runs have updated since the watermark
was created. -/
structure State (spec : Spec Id Row Params Clock) (Runner : Type) where
  rows : spec.Rows
  watermark : Option (Watermark Id)
  failures : Failures Id
  phase : Runner -> Phase Id Params Clock
  updated : List Id

/-- A run starts or resumes, a retry starts, a statement is executed, with its error or
with what is read from outside, a run stops, or others write. -/
inductive Label (spec : Spec Id Row Params Clock) (Runner : Type) where
  | start (runner : Runner) (restart : Bool) (batchSize : Nat)
  | retry (runner : Runner)
  | advance (runner : Runner)
  | load (runner : Runner) (clock : Clock)
  | prepare (runner : Runner) (prepared : Prepared Id Params)
  | update (runner : Runner) (error : Option DbError)
  | crash (runner : Runner)
  | write (rows : spec.Rows)

variable (spec : Spec Id Row Params Clock)

def Spec.candidate (clock : Clock) (row : Row) : Bool :=
  match spec.source with
  | .fixed params => spec.selects params clock row
  | .prepared candidate => candidate clock row

def lockRows (rows : spec.Rows) (params : Params) (clock : Clock) (afterId : Id)
    (onlyId : Option Id) (batchSize : Nat) : List Row :=
  rows.firstRows (fun row => spec.selects params clock row && decide (afterId < spec.id row) &&
    onlyId.all fun id => decide (spec.id row = id)) batchSize

local instance lawfulBEq : LawfulBEq Id := inferInstance

def updateRows (params : Params) (clock : Clock) (ids : List Id) :
    Table.Update spec.id (fun row => spec.id row ≠ ⊥) where
  select row := decide (spec.id row ∈ ids)
  image row := spec.sets params clock row
  keepsKey := spec.keepsId params clock
  keepsCheck row _ hcheck := by rwa [spec.keepsId]

variable {spec}

def lockedIds (state : State spec Runner) (params : Params) (clock : Clock) (afterId : Id)
    (onlyId : Option Id) (batchSize : Nat) : List Id :=
  (lockRows spec state.rows params clock afterId onlyId batchSize).map spec.id

def updateIds (state : State spec Runner) (params : Params) (clock : Clock) (ids : List Id) :
    State spec Runner :=
  { state with
    rows := state.rows.apply (updateRows spec params clock ids)
    updated := state.updated ++ ids }

variable [DecidableEq Runner]

def State.enter (state : State spec Runner) (runner : Runner) (phase : Phase Id Params Clock) :
    State spec Runner :=
  { state with phase := Function.update state.phase runner phase }

def failAt (state : State spec Runner) (runner : Runner) : State spec Runner :=
  state.enter runner (.ended .failed)

def finishBatch (state : State spec Runner) (runner : Runner) (loop : Loop Id Clock)
    (lastId : LastId Id) (batch : Batch Id) : State spec Runner :=
  match lastId.orElse batch.lastId with
  | none => state.enter runner (.completing loop)
  | some nextId => state.enter runner (.saving loop batch.n batch.failed nextId)

/-- `updateOneBatch` on the rows after the watermark.  An error of a row sends the batch
to be split. -/
def lockBatch (state : State spec Runner) (runner : Runner) (loop : Loop Id Clock)
    (prepared : Prepared Id Params) (error : Option DbError) : State spec Runner :=
  match error with
  | none =>
    let ids := lockedIds state prepared.params loop.clock loop.lastId none loop.batchSize
    finishBatch (updateIds state prepared.params loop.clock ids) runner loop prepared.lastId
      ⟨ids.length, 0, ids.getLast?⟩
  | some err =>
    if isRowLevelError err then state.enter runner (.splitting loop prepared)
    else failAt state runner

/-- `selectBatchIds`, where the batch cannot be repeated without candidates. -/
def splitBatch (state : State spec Runner) (runner : Runner) (loop : Loop Id Clock)
    (prepared : Prepared Id Params) : State spec Runner :=
  let ids := lockedIds state prepared.params loop.clock loop.lastId none loop.batchSize
  match ids.getLast? with
  | none => failAt state runner
  | some last => state.enter runner (.rowwise loop prepared ids ⟨0, 0, some last⟩)

/-- `updateOneBatch` on one row of a split batch. -/
def updateRow (state : State spec Runner) (runner : Runner) (loop : Loop Id Clock)
    (prepared : Prepared Id Params) (id : Id) (ids : List Id) (batch : Batch Id)
    (error : Option DbError) : State spec Runner :=
  match error with
  | none =>
    let locked := lockedIds state prepared.params loop.clock ⊥ (some id) loop.batchSize
    (updateIds state prepared.params loop.clock locked).enter runner
      (.rowwise loop prepared ids { batch with n := batch.n + locked.length })
  | some err =>
    if isRowLevelError err then
      state.enter runner (.recording loop prepared id err ids batch)
    else failAt state runner

def saveWatermark (state : State spec Runner) (runner : Runner) (loop : Loop Id Clock)
    (n failed : Nat) (nextId : Id) : State spec Runner :=
  match state.watermark with
  | some mark =>
    if mark.lastId = loop.lastId ∧ mark.status = .running then
      { state with
        watermark := some { mark with lastId := nextId, rowsDone := mark.rowsDone + n } }.enter
          runner (.batching { loop with
            lastId := nextId
            rowsUpdated := loop.rowsUpdated + n
            failedRows := loop.failedRows + failed })
    else state.enter runner (.ended .concurrentRun)
  | none => state.enter runner (.ended .concurrentRun)

def markCompleted (state : State spec Runner) (runner : Runner) (loop : Loop Id Clock) :
    State spec Runner :=
  match state.watermark with
  | some mark =>
    if mark.lastId = loop.lastId ∧ mark.status = .running then
      { state with watermark := some { mark with status := .completed } }.enter runner
        (.ended (.completed loop.rowsUpdated loop.failedRows loop.lastId loop.resumedFrom))
    else state.enter runner (.ended .concurrentRun)
  | none => state.enter runner (.ended .concurrentRun)

/-- The last statement of `loadWatermark`.  Another restart may have deleted the row. -/
def readWatermark (state : State spec Runner) (runner : Runner) (batchSize : Nat)
    (clock : Clock) : State spec Runner :=
  match state.watermark with
  | none => failAt state runner
  | some mark =>
    match mark.status with
    | .completed => state.enter runner (.ended (.alreadyCompleted mark.lastId))
    | .running => state.enter runner (.batching ⟨batchSize, clock, mark.lastId, mark.lastId, 0, 0⟩)

/-- `batchParams` and the check of `nextBatch`, where `prepareBatch` answers. -/
def nextBatch (state : State spec Runner) (runner : Runner) (loop : Loop Id Clock)
    (prepared : Prepared Id Params) : State spec Runner :=
  match prepared.lastId with
  | .undefined => failAt state runner
  | .null => state.enter runner (.completing loop)
  | .upTo last _ =>
    if spec.greater last loop.lastId then state.enter runner (.locking loop prepared)
    else failAt state runner

def failRetry (state : State spec Runner) (runner : Runner) (retry : Retry Clock) (id : Id)
    (ids : List Id) (err : DbError) : State spec Runner :=
  if isRowLevelError err then state.enter runner (.retryRecording retry id err ids)
  else failAt state runner

def advance (state : State spec Runner) (runner : Runner) : Option (State spec Runner) :=
  match state.phase runner with
  | .clearing batchSize =>
    some ({ state with failures := Table.empty }.enter runner (.resetting batchSize))
  | .resetting batchSize =>
    some ({ state with watermark := none, updated := [] }.enter runner (.creating batchSize))
  | .creating batchSize =>
    some ({ state with watermark := some (state.watermark.getD ⟨⊥, 0, .running⟩) }.enter runner
      (.loading batchSize))
  | .batching loop =>
    match spec.source with
    | .fixed params => some (state.enter runner (.locking loop ⟨params, .undefined⟩))
    | .prepared _ => none
  | .splitting loop prepared => some (splitBatch state runner loop prepared)
  | .rowwise loop prepared [] batch => some (finishBatch state runner loop prepared.lastId batch)
  | .recording loop prepared id err ids batch =>
    some ({ state with failures := recordFailure state.failures id err }.enter runner
      (.rowwise loop prepared ids { batch with failed := batch.failed + 1 }))
  | .saving loop n failed nextId => some (saveWatermark state runner loop n failed nextId)
  | .completing loop => some (markCompleted state runner loop)
  | .retrying retry [] =>
    some (state.enter runner (.ended (.retried retry.resolved retry.stillFailing)))
  | .retrying retry (id :: ids) =>
    match spec.source with
    | .fixed params => some (state.enter runner (.retryLocking retry id ⟨params, .undefined⟩ ids))
    | .prepared _ => none
  | .forgetting retry id ids =>
    some ({ state with
      failures := state.failures.deleteWhere fun failure => decide (failure.rowId = id) }.enter
        runner (.retrying { retry with resolved := retry.resolved + 1 } ids))
  | .retryRecording retry id err ids =>
    some ({ state with failures := recordFailure state.failures id err }.enter runner
      (.retrying { retry with stillFailing := retry.stillFailing + 1 } ids))
  | _ => none

def isActive : Phase Id Params Clock -> Bool
  | .idle => false
  | .ended _ => false
  | _ => true

def step (state : State spec Runner) (label : Label spec Runner) : Option (State spec Runner) :=
  match label with
  | .start runner restart batchSize =>
    if isActive (state.phase runner) || decide (batchSize < 1) then none
    else some (state.enter runner (if restart then .clearing batchSize else .creating batchSize))
  | .retry runner =>
    if isActive (state.phase runner) then none else some (state.enter runner .listing)
  | .advance runner => advance state runner
  | .load runner clock =>
    match state.phase runner with
    | .loading batchSize => some (readWatermark state runner batchSize clock)
    | .listing =>
      some (state.enter runner (.retrying ⟨clock, 0, 0⟩
        ((state.failures.rows.map Failure.rowId).insertionSort (· ≤ ·))))
    | _ => none
  | .prepare runner prepared =>
    match spec.source, state.phase runner with
    | .prepared _, .batching loop => some (nextBatch state runner loop prepared)
    | .prepared _, .retrying retry (id :: ids) =>
      some (state.enter runner (.retryLocking retry id prepared ids))
    | _, _ => none
  | .update runner error =>
    match state.phase runner, error with
    | .locking loop prepared, error => some (lockBatch state runner loop prepared error)
    | .rowwise loop prepared (id :: ids) batch, error =>
      some (updateRow state runner loop prepared id ids batch error)
    | .retryLocking retry id prepared ids, none =>
      some ((updateIds state prepared.params retry.clock
        (lockedIds state prepared.params retry.clock ⊥ (some id) 1)).enter runner
          (.forgetting retry id ids))
    | .retrying retry (id :: ids), some err =>
      match spec.source with
      | .fixed _ => none
      | .prepared _ => some (failRetry state runner retry id ids err)
    | .retryLocking retry id _ ids, some err => some (failRetry state runner retry id ids err)
    | .forgetting retry id ids, some err => some (failRetry state runner retry id ids err)
    | _, _ => none
  | .crash runner => some (failAt state runner)
  | .write rows => some { state with rows := rows }

/-- The row is among those a batch was prepared with. -/
def LastId.Has (lastId : LastId Id) (id : Id) : Prop :=
  match lastId with
  | .undefined => True
  | .null => False
  | .upTo _ ids => id ∈ ids

/-- The watermark of the batch would not stay below the row. -/
def LastId.Reaches (lastId : LastId Id) (id : Id) : Prop :=
  match lastId with
  | .upTo last _ => id ≤ last
  | _ => True

def Fits (spec : Spec Id Row Params Clock) (loop : Loop Id Clock) (prepared : Prepared Id Params) :
    Prop :=
  match prepared.lastId with
  | .upTo last ids => loop.lastId < last ∧ ids.length ≤ loop.batchSize ∧
      ∀ row, spec.selects prepared.params loop.clock row = true -> spec.id row ∈ ids
  | _ => True

/-- What `prepareBatch` promises: it takes every candidate up to the last id it gives. -/
def Prepares (state : State spec Runner) (label : Label spec Runner) : Prop :=
  match label with
  | .prepare runner prepared =>
    match state.phase runner with
    | .batching loop => Fits spec loop prepared ∧
        ∀ row ∈ state.rows, spec.candidate loop.clock row = true ->
          loop.lastId < spec.id row -> prepared.lastId.Reaches (spec.id row) ->
            prepared.lastId.Has (spec.id row)
    | .retrying retry (id :: _) => ∀ row ∈ state.rows, spec.id row = id ->
        spec.candidate retry.clock row = true -> prepared.lastId.Has id
    | _ => True
  | _ => True

/-- No watermark is stored, and no run has read one: the job never ran, or a restart has
just deleted what there was. -/
def Fresh (state : State spec Runner) : Prop :=
  state.watermark = none ∧ state.updated = [] ∧ ∀ runner,
    match state.phase runner with
    | .idle => True
    | .ended _ => True
    | .creating batchSize => 1 ≤ batchSize
    | _ => False

/-- All runs and retries of one job, with `prepareBatch` as promised. -/
def system (Runner : Type) [DecidableEq Runner] (spec : Spec Id Row Params Clock) :
    System (State spec Runner) (Label spec Runner) where
  start := Fresh
  step before label after := step before label = some after ∧ Prepares before label

end

end AnchorMind.Consolidate.ResumableBackfill
