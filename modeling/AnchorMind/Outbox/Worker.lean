import AnchorMind.Kernel.SingleUse
import AnchorMind.Kernel.Transition
import AnchorMind.Outbox.Store
import AnchorMind.Text.Characters
import Mathlib.Data.Rat.Floor

/-!
# Outbox workers

Each worker polls on its own: it claims a batch, delivers the events one by one, records
each outcome, and hands back what it did not start.  Every database statement of any number
of workers over one table is one atomic step; a process may die between any two steps, a
reply may be lost after its statement took effect, and the database clock advances at any
time.  Histories of claims and handler starts are kept where no statement reads them.
-/

namespace AnchorMind.Outbox.Worker

open Kernel.KeyedTable Kernel.FencedSlot Kernel.Transition Outbox.Store Text.Utf16 Function

structure Settings where
  batchSize : Nat
  leaseMs : Int
  handlerTimeoutMs : Int
  settleMarginMs : Int
  backoffBaseMs : Nat
  backoffMaxMs : Nat

/-- `OUTBOX_WORKER_DEFAULTS`. -/
def outboxWorkerDefaults : Settings where
  batchSize := 50
  leaseMs := 60000
  handlerTimeoutMs := 15000
  settleMarginMs := 5000
  backoffBaseMs := 1000
  backoffMaxMs := 1800000

/-- The settings of the workers with the attempt limits their environment and
their handler registrations fix.  Both limits are range-checked at the source. -/
structure Config where
  settings : Settings
  outboxMaxAttempts : Nat
  outboxMaxAttempts_range : 1 ≤ outboxMaxAttempts /\ outboxMaxAttempts ≤ 100
  handlerMaxAttempts : String -> Option Nat
  handlerMaxAttempts_range : ∀ topic limit,
    handlerMaxAttempts topic = some limit -> 1 ≤ limit /\ limit ≤ 100

/-- `entry.maxAttempts ?? outboxMaxAttempts()`. -/
def Config.maxAttempts (config : Config) (topic : String) : Nat :=
  (config.handlerMaxAttempts topic).getD config.outboxMaxAttempts

theorem Config.maxAttempts_pos (config : Config) (topic : String) :
    0 < config.maxAttempts topic := by
  unfold Config.maxAttempts
  cases hlimit : config.handlerMaxAttempts topic with
  | none => exact config.outboxMaxAttempts_range.1
  | some limit => exact (config.handlerMaxAttempts_range topic limit hlimit).1

def computeBackoffMs (attempts baseMs maxMs : Nat) (random : Rat) : Int :=
  let n := if 0 < attempts then attempts else 1
  let ceiling := min maxMs (baseMs * 2 ^ min (n - 1) 52)
  Int.floor ((ceiling : Rat) / 2 + random * ((ceiling : Rat) / 2))

inductive Verdict where
  | retry
  | dead
deriving DecidableEq

def decideFailure (attempts maxAttempts : Nat) (permanent : Bool) : Verdict :=
  if permanent || decide (maxAttempts ≤ attempts) then .dead else .retry

def canStartNext (now leaseDeadline handlerTimeoutMs marginMs : Int) : Bool :=
  decide (handlerTimeoutMs + marginMs ≤ leaseDeadline - now)

/-- What a handler can throw. -/
inductive Thrown where
  | error (name message : String)
  | permanentError (message : String)
  | value (text : String)

def Thrown.permanent : Thrown -> Bool
  | .permanentError _ => true
  | _ => false

def errorSummaryMax : Nat := 500

/-- The one line kept in `last_error`. -/
def errorSummary (thrown : Thrown) : String :=
  let line := match thrown with
    | .error name message => name ++ ": " ++ message
    | .permanentError message => "OutboxPermanentError: " ++ message
    | .value text => "Error: " ++ text
  String.ofList (sliceUtf16 errorSummaryMax line.toList)

/-- The outcome `_recordFailure` sends to the table. -/
def failureOutcome (config : Config) (event : OutboxEvent) (thrown : Thrown) (random : Rat) :
    FailOutcome :=
  let dead := decide
    (decideFailure event.attempts (config.maxAttempts event.topic) thrown.permanent = .dead)
  { retryDelayMs :=
      if dead then 0
      else computeBackoffMs event.attempts config.settings.backoffBaseMs
        config.settings.backoffMaxMs random
    error := errorSummary thrown
    dead := dead }

theorem failureOutcome_dead_of_limit {config : Config} {event : OutboxEvent} {thrown : Thrown}
    {random : Rat} (hlimit : config.maxAttempts event.topic ≤ event.attempts) :
    (failureOutcome config event thrown random).dead = true := by
  simp [failureOutcome, decideFailure, hlimit]

/-- What a claim left to one worker: its token, the lease end on the worker's
own clock, and the events it has not started. -/
structure Batch where
  token : Token
  leaseDeadline : Int
  rest : List OutboxEvent

/-- Where a worker stands between two database statements. -/
inductive Phase where
  | idle
  | delivering (batch : Batch)
  | releasingOne (event : OutboxEvent) (batch : Batch)
  | handling (event : OutboxEvent) (batch : Batch)
  | completing (event : OutboxEvent) (batch : Batch)
  | failing (event : OutboxEvent) (outcome : FailOutcome) (batch : Batch)
  | releasingRest (batch : Batch)

namespace Phase

def batch? : Phase -> Option Batch
  | .idle => none
  | .delivering batch => some batch
  | .releasingOne _ batch => some batch
  | .handling _ batch => some batch
  | .completing _ batch => some batch
  | .failing _ _ batch => some batch
  | .releasingRest batch => some batch

/-- The claimed events whose handler was not started under this claim. -/
def unstarted : Phase -> List OutboxEvent
  | .idle => []
  | .delivering batch => batch.rest
  | .releasingOne event batch => event :: batch.rest
  | .handling _ batch => batch.rest
  | .completing _ batch => batch.rest
  | .failing _ _ batch => batch.rest
  | .releasingRest batch => batch.rest

/-- The event whose handler runs or whose outcome is being recorded. -/
def inHand : Phase -> Option OutboxEvent
  | .handling event _ => some event
  | .completing event _ => some event
  | .failing event _ _ => some event
  | _ => none

end Phase

/-- After a recording statement: the next event, or, when its reply was lost,
the hand-back of the rest. -/
def afterReply (reply : Bool) (batch : Batch) : Phase :=
  if reply then .delivering batch else .releasingRest batch

abbrev Claimant (Worker : Type) := Worker × Token

structure State (Worker : Type) where
  now : Int
  table : OutboxTable
  phase : Worker -> Phase
  /-- The topic of every id the sequence handed out. -/
  issued : Nat -> Option String
  /-- The worker that drew each UUID. -/
  minted : Token -> Option Worker
  /-- What happened to each row, newest first. -/
  history : Nat -> List (Act (Claimant Worker))
  /-- The claims under which each event's handler was started. -/
  starts : Nat -> List (Claimant Worker)

inductive Label (Worker : Type) where
  | tick (elapsed : Nat)
  | enqueue (id : Nat) (event : NewEvent)
  | claim (worker : Worker) (token : Token) (leaseDeadline : Int) (topics : List String)
      (locked : Nat -> Bool) (reply : Bool)
  | start (worker : Worker) (clock : Int)
  | noHandler (worker : Worker) (clock : Int)
  | stop (worker : Worker) (clock : Int) (running : Bool)
  | releaseOne (worker : Worker) (reply : Bool)
  | handled (worker : Worker)
  | threw (worker : Worker) (thrown : Thrown) (random : Rat)
  | complete (worker : Worker) (reply : Bool)
  | fail (worker : Worker) (reply : Bool)
  | recordError (worker : Worker)
  | releaseRest (worker : Worker)
  | crash (worker : Worker)
  | cleanup (retentionDays limit : Nat) (locked : Nat -> Bool)
  | deadLetterUnhandled (topics : List String) (olderThanDays limit : Nat)
      (locked : Nat -> Bool)

def Label.recorder {Worker : Type} : Label Worker -> Option Worker
  | .releaseOne worker _ => some worker
  | .complete worker _ => some worker
  | .fail worker _ => some worker
  | .releaseRest worker => some worker
  | _ => none

def Label.isCleanup {Worker : Type} : Label Worker -> Bool
  | .cleanup _ _ _ => true
  | _ => false

variable {Worker : Type}

def record (ids : List Nat) (act : Act (Claimant Worker))
    (history : Nat -> List (Act (Claimant Worker))) : Nat -> List (Act (Claimant Worker)) :=
  fun id => if id ∈ ids then act :: history id else history id

def State.exec (state : State Worker) (update : OutboxUpdate) (act : Act (Claimant Worker)) :
    State Worker :=
  { state with
    table := state.table.apply update
    history := record (state.table.affected update) act state.history }

def State.afterEnqueue (state : State Worker) (id : Nat) (event : NewEvent)
    (hfresh : ∀ row ∈ state.table, row.id ≠ id) : State Worker :=
  { state with
    table := enqueue state.table id event state.now hfresh
    issued := update state.issued id (some event.topic) }

def State.afterCleanup (state : State Worker) (retentionDays limit : Nat)
    (locked : Nat -> Bool) : State Worker :=
  let ids := cleanupIds state.table state.now retentionDays locked limit
  { state with
    table := cleanup state.table ids
    history := record ids .retire state.history }

section

variable [DecidableEq Worker]

def State.setPhase (state : State Worker) (worker : Worker) (phase : Phase) : State Worker :=
  { state with phase := update state.phase worker phase }

def State.dueRows (state : State Worker) (config : Config) (topics : List String)
    (locked : Nat -> Bool) : List OutboxRow :=
  due state.table state.now topics locked config.settings.batchSize

def State.afterClaim (state : State Worker) (config : Config) (worker : Worker) (token : Token)
    (leaseDeadline : Int) (topics : List String) (locked : Nat -> Bool) (reply : Bool) :
    State Worker :=
  let rows := state.dueRows config topics locked
  let claimed := state.exec
    (claimUpdate (rows.map OutboxRow.id) state.now config.settings.leaseMs token)
    (.take (worker, token))
  { claimed with
    minted := update state.minted token (some worker)
    phase := update state.phase worker
      (if reply then
        .delivering
          { token := token
            leaseDeadline := leaseDeadline
            rest := claimedEvents rows state.now config.settings.leaseMs token }
      else .idle) }

/-- A handler start, noted under the claim it runs for. -/
def State.afterStart (state : State Worker) (worker : Worker) (event : OutboxEvent)
    (batch : Batch) : State Worker :=
  { state.setPhase worker (.handling event batch) with
    starts := fun id =>
      if id = event.id then (worker, batch.token) :: state.starts id else state.starts id }

def failAct (claimant : Claimant Worker) (outcome : FailOutcome) : Act (Claimant Worker) :=
  if outcome.dead then .settle claimant else .retry claimant

inductive Step (config : Config) : State Worker -> Label Worker -> State Worker -> Prop where
  | tick (state : State Worker) (elapsed : Nat) :
      Step config state (.tick elapsed) { state with now := state.now + elapsed }
  | enqueue (state : State Worker) (id : Nat) (event : NewEvent)
      (hissued : state.issued id = none)
      (hfresh : ∀ row ∈ state.table, row.id ≠ id) :
      Step config state (.enqueue id event) (state.afterEnqueue id event hfresh)
  | claim (state : State Worker) (worker : Worker) (token : Token) (leaseDeadline : Int)
      (topics : List String) (locked : Nat -> Bool) (reply : Bool)
      (hphase : state.phase worker = .idle) (htopics : topics ≠ [])
      (hfresh : state.minted token = none) :
      Step config state (.claim worker token leaseDeadline topics locked reply)
        (state.afterClaim config worker token leaseDeadline topics locked reply)
  | start (state : State Worker) (worker : Worker) (clock : Int) (event : OutboxEvent)
      (batch : Batch) (rest : List OutboxEvent)
      (hphase : state.phase worker = .delivering batch) (hrest : batch.rest = event :: rest)
      (hfits : canStartNext clock batch.leaseDeadline config.settings.handlerTimeoutMs
        config.settings.settleMarginMs = true) :
      Step config state (.start worker clock)
        (state.afterStart worker event { batch with rest := rest })
  | noHandler (state : State Worker) (worker : Worker) (clock : Int) (event : OutboxEvent)
      (batch : Batch) (rest : List OutboxEvent)
      (hphase : state.phase worker = .delivering batch) (hrest : batch.rest = event :: rest)
      (hfits : canStartNext clock batch.leaseDeadline config.settings.handlerTimeoutMs
        config.settings.settleMarginMs = true) :
      Step config state (.noHandler worker clock)
        (state.setPhase worker (.releasingOne event { batch with rest := rest }))
  | stop (state : State Worker) (worker : Worker) (clock : Int) (running : Bool) (batch : Batch)
      (hphase : state.phase worker = .delivering batch)
      (hstop : batch.rest = [] \/ running = false \/
        canStartNext clock batch.leaseDeadline config.settings.handlerTimeoutMs
          config.settings.settleMarginMs = false) :
      Step config state (.stop worker clock running)
        (state.setPhase worker (.releasingRest batch))
  | releaseOne (state : State Worker) (worker : Worker) (reply : Bool) (event : OutboxEvent)
      (batch : Batch) (hphase : state.phase worker = .releasingOne event batch) :
      Step config state (.releaseOne worker reply)
        ((state.exec (release [event.id] batch.token state.now)
            (.undo (worker, batch.token))).setPhase worker (afterReply reply batch))
  | handled (state : State Worker) (worker : Worker) (event : OutboxEvent) (batch : Batch)
      (hphase : state.phase worker = .handling event batch) :
      Step config state (.handled worker) (state.setPhase worker (.completing event batch))
  | threw (state : State Worker) (worker : Worker) (thrown : Thrown) (random : Rat)
      (event : OutboxEvent) (batch : Batch)
      (hphase : state.phase worker = .handling event batch) :
      Step config state (.threw worker thrown random)
        (state.setPhase worker
          (.failing event (failureOutcome config event thrown random) batch))
  | complete (state : State Worker) (worker : Worker) (reply : Bool) (event : OutboxEvent)
      (batch : Batch) (hphase : state.phase worker = .completing event batch) :
      Step config state (.complete worker reply)
        ((state.exec (complete event.id batch.token state.now)
            (.settle (worker, batch.token))).setPhase worker (afterReply reply batch))
  | fail (state : State Worker) (worker : Worker) (reply : Bool) (event : OutboxEvent)
      (outcome : FailOutcome) (batch : Batch)
      (hphase : state.phase worker = .failing event outcome batch) :
      Step config state (.fail worker reply)
        ((state.exec (fail event.id batch.token outcome state.now)
            (failAct (worker, batch.token) outcome)).setPhase worker (afterReply reply batch))
  | recordError (state : State Worker) (worker : Worker) (batch : Batch)
      (hphase : (∃ event, state.phase worker = .releasingOne event batch) \/
        (∃ event, state.phase worker = .completing event batch) \/
        (∃ event outcome, state.phase worker = .failing event outcome batch)) :
      Step config state (.recordError worker) (state.setPhase worker (.releasingRest batch))
  | releaseRest (state : State Worker) (worker : Worker) (batch : Batch)
      (hphase : state.phase worker = .releasingRest batch) :
      Step config state (.releaseRest worker)
        ((state.exec (release (batch.rest.map OutboxEvent.id) batch.token state.now)
            (.undo (worker, batch.token))).setPhase worker .idle)
  | crash (state : State Worker) (worker : Worker) :
      Step config state (.crash worker) (state.setPhase worker .idle)
  | cleanup (state : State Worker) (retentionDays limit : Nat) (locked : Nat -> Bool) :
      Step config state (.cleanup retentionDays limit locked)
        (state.afterCleanup retentionDays limit locked)
  | deadLetterUnhandled (state : State Worker) (topics : List String)
      (olderThanDays limit : Nat) (locked : Nat -> Bool) (htopics : topics ≠ []) :
      Step config state (.deadLetterUnhandled topics olderThanDays limit locked)
        (state.exec
          (deadLetterUnhandled
            (unhandledIds state.table state.now topics olderThanDays locked limit) state.now)
          .close)

def Start (state : State Worker) : Prop :=
  state.table = Table.empty /\ (∀ worker, state.phase worker = .idle) /\
    (∀ id, state.issued id = none) /\ (∀ token, state.minted token = none) /\
    (∀ id, state.history id = []) /\ ∀ id, state.starts id = []

def outboxSystem (config : Config) : System (State Worker) (Label Worker) where
  start := Start
  step := Step config

end

section

variable [DecidableEq Worker] {state : State Worker} {worker other : Worker} {phase : Phase}

@[simp]
theorem setPhase_table : (state.setPhase worker phase).table = state.table := rfl

@[simp]
theorem setPhase_history : (state.setPhase worker phase).history = state.history := rfl

@[simp]
theorem setPhase_issued : (state.setPhase worker phase).issued = state.issued := rfl

@[simp]
theorem setPhase_minted : (state.setPhase worker phase).minted = state.minted := rfl

@[simp]
theorem setPhase_starts : (state.setPhase worker phase).starts = state.starts := rfl

@[simp]
theorem setPhase_phase_self : (state.setPhase worker phase).phase worker = phase :=
  update_self ..

theorem setPhase_phase_of_ne (hne : other ≠ worker) :
    (state.setPhase worker phase).phase other = state.phase other :=
  update_of_ne hne ..

end

variable {ids : List Nat} {act entry : Act (Claimant Worker)} {id : Nat}
  {history : Nat -> List (Act (Claimant Worker))}

theorem record_of_mem (hid : id ∈ ids) : record ids act history id = act :: history id :=
  if_pos hid

theorem record_of_not_mem (hid : id ∉ ids) : record ids act history id = history id :=
  if_neg hid

theorem mem_record (hentry : entry ∈ record ids act history id) :
    entry = act \/ entry ∈ history id := by
  by_cases hid : id ∈ ids
  · rw [record_of_mem hid] at hentry
    exact List.mem_cons.mp hentry
  · rw [record_of_not_mem hid] at hentry
    exact .inr hentry

/-! ## A first delivery

Two workers, one event, and the smallest limit the source accepts: the first
worker claims the event and starts its handler. -/

def singleAttempt : Config where
  settings := outboxWorkerDefaults
  outboxMaxAttempts := 1
  outboxMaxAttempts_range := by decide
  handlerMaxAttempts := fun _ => none
  handlerMaxAttempts_range := nofun

def emptyState : State Bool where
  now := 0
  table := Table.empty
  phase := fun _ => .idle
  issued := fun _ => none
  minted := fun _ => none
  history := fun _ => []
  starts := fun _ => []

def reflectEvent : NewEvent where
  topic := "hook.reflect"
  aggregateId := none
  payload := "\x7b\x7d"
  delayMs := 0

def reflectClaimed (attempts : Nat) (dueAt : Int) : OutboxEvent where
  id := 0
  topic := "hook.reflect"
  aggregateId := none
  payload := "\x7b\x7d"
  attempts := attempts
  createdAt := 0
  dueAt := dueAt

theorem emptyState_fresh : ∀ row ∈ emptyState.table, row.id ≠ 0 :=
  fun row hrow => absurd hrow (Table.not_mem_empty row)

theorem emptyState_start : Start emptyState :=
  ⟨rfl, fun _ => rfl, fun _ => rfl, fun _ => rfl, fun _ => rfl, fun _ => rfl⟩

def queuedState : State Bool := emptyState.afterEnqueue 0 reflectEvent emptyState_fresh

/-- The first worker runs the handler. -/
def startedState : State Bool :=
  (queuedState.afterClaim singleAttempt false 0 60000 ["hook.reflect"] (fun _ => false)
    true).afterStart false (reflectClaimed 1 0) { token := 0, leaseDeadline := 60000, rest := [] }

def startLabels : List (Label Bool) :=
  [.enqueue 0 reflectEvent,
    .claim false 0 60000 ["hook.reflect"] (fun _ => false) true,
    .start false 0]

theorem startedState_run :
    (outboxSystem singleAttempt).Run emptyState startLabels startedState := by
  refine .cons (.enqueue emptyState 0 reflectEvent rfl emptyState_fresh) ?_
  refine .cons (.claim _ false 0 60000 _ _ true rfl (by decide) rfl) ?_
  exact .single (.start _ false 0 (reflectClaimed 1 0)
    { token := 0, leaseDeadline := 60000, rest := [reflectClaimed 1 0] } [] rfl rfl (by decide))

end AnchorMind.Outbox.Worker
