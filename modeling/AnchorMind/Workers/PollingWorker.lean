import AnchorMind.Kernel.Transition
import Mathlib.Data.List.Basic

/-!
# The lifecycle of a polling worker

`PollingWorker` runs one batch after another, with a pause between them, from a `start` to the
next `stop`.  Its fields are shared by the end of the start hook, the end of a batch, and the
timer of the pause.  Each stretch of code between two awaits is one step.  Start hooks,
batches, timers, and the promises of `stop` are numbered, and a log is kept beside the fields.
-/

namespace AnchorMind.Workers.PollingWorker

open Kernel.Transition List Function

structure Options where
  name : String
  intervalMs : Int
  backoffMs : Int
  backoffMaxMs : Int
  idleOnlyDelay : Bool

/-- What `_processBatch` settles to. -/
inductive BatchResult where
  | count (handled : Int)
  | worked (truthy : Bool)
  | thrown

/-- A batch under way; `handled` is there once its promise has settled and its
`finally` is still to come. -/
structure Flight where
  id : Nat
  handled : Option Int
deriving DecidableEq

/-- A pending `setTimeout` for the next round. -/
structure Pause where
  id : Nat
  delay : Int
deriving DecidableEq

/-- A promise `stop` returned, with the batches under way at that moment. -/
structure StopPromise where
  awaits : List Nat
  resolved : Bool
deriving DecidableEq

inductive Event where
  | started
  | stopped
  | batchBegan (id : Nat)
deriving DecidableEq

structure State where
  running : Bool
  timer : Option Nat
  backoff : Int
  processing : Bool
  drainResolve : Option Nat
  registered : Bool
  /-- The start hooks that have not ended. -/
  hooks : List Nat
  flights : List Flight
  armed : List Pause
  promise : Nat -> Option StopPromise
  hooksBegun : Nat
  flightsBegun : Nat
  pausesBegun : Nat
  stopsCalled : Nat
  log : List Event

namespace State

/-- A constructed worker. -/
def create (options : Options) : State where
  running := false
  timer := none
  backoff := options.backoffMs
  processing := false
  drainResolve := none
  registered := false
  hooks := []
  flights := []
  armed := []
  promise := fun _ => none
  hooksBegun := 0
  flightsBegun := 0
  pausesBegun := 0
  stopsCalled := 0
  log := []

/-- `_poll` up to the start of its batch. -/
def poll (state : State) : State :=
  if state.running then
    { state with
      processing := true
      flights := state.flights ++ [{ id := state.flightsBegun, handled := none }]
      flightsBegun := state.flightsBegun + 1
      log := .batchBegan state.flightsBegun :: state.log }
  else state

/-- `start` up to its start hook. -/
def start (state : State) (shouldStart : Bool) : State :=
  if state.running then state
  else if shouldStart then
    { state with
      running := true
      hooks := state.hooks ++ [state.hooksBegun]
      hooksBegun := state.hooksBegun + 1
      log := .started :: state.log }
  else state

/-- The rest of `start`, which a failed hook reaches as well. -/
def hookEnds (state : State) (hook : Nat) : State :=
  { state with hooks := state.hooks.erase hook, registered := true }.poll

/-- Record the promise a `stop` returns. -/
def promised (state : State) (resolved : Bool) : State :=
  { state with
    promise := update state.promise state.stopsCalled
      (some { awaits := state.flights.map Flight.id, resolved := resolved })
    stopsCalled := state.stopsCalled + 1 }

def clearPause (state : State) : State :=
  { state with
    timer := none
    armed := match state.timer with
      | none => state.armed
      | some timer => state.armed.filter fun pause => pause.id ≠ timer }

def stop (state : State) : State :=
  let unregistered := { state with registered := false, log := .stopped :: state.log }
  if !state.running && !state.processing then unregistered.promised true
  else
    let halted := { unregistered with running := false }.clearPause
    if halted.processing then
      { halted.promised false with drainResolve := some state.stopsCalled }
    else halted.promised true

/-- The `then` and `catch` of a batch. -/
def settle (options : Options) (state : State) (id : Nat) (result : BatchResult) : State :=
  let handled : Int :=
    match result with
    | .count handled => handled
    | .worked truthy => if truthy then 1 else 0
    | .thrown => 0
  let backoff : Int :=
    match result with
    | .thrown => min (state.backoff * 2) options.backoffMaxMs
    | _ => options.backoffMs
  { state with
    backoff := backoff
    flights := state.flights.map fun flight =>
      if flight.id = id then { flight with handled := some handled } else flight }

def nextDelay (options : Options) (state : State) (handled : Int) : Int :=
  if options.backoffMs < state.backoff then state.backoff
  else if options.idleOnlyDelay && decide (0 < handled) then 0
  else options.intervalMs

/-- Mark a promise of `stop` as resolved. -/
def resolve (state : State) (stop : Nat) : State :=
  { state with
    promise := update state.promise stop
      ((state.promise stop).map fun promise => { promise with resolved := true }) }

/-- The `finally` of a batch. -/
def finish (options : Options) (state : State) (id : Nat) (handled : Int) : State :=
  let ended := { state with
    processing := false
    flights := state.flights.filter fun flight => flight.id ≠ id }
  match state.drainResolve with
  | some stop => { ended.resolve stop with drainResolve := none }
  | none =>
    if state.running then
      { ended with
        timer := some state.pausesBegun
        armed := state.armed ++
          [{ id := state.pausesBegun, delay := nextDelay options state handled }]
        pausesBegun := state.pausesBegun + 1 }
    else ended

def fire (state : State) (id : Nat) : State :=
  { state with armed := state.armed.filter fun pause => pause.id ≠ id }.poll

end State

inductive Label where
  | start (shouldStart : Bool)
  | hookEnds (hook : Nat)
  | stop
  | settle (flight : Nat) (result : BatchResult)
  | finish (flight : Nat)
  | fire (pause : Nat)

/-- One stretch of code, where what it continues is there to be continued. -/
def workerStep (options : Options) (state : State) : Label -> Option State
  | .start shouldStart => some (state.start shouldStart)
  | .hookEnds hook => if hook ∈ state.hooks then some (state.hookEnds hook) else none
  | .stop => some state.stop
  | .settle flight result =>
    if { id := flight, handled := none } ∈ state.flights then
      some (state.settle options flight result)
    else none
  | .finish flight =>
    (state.flights.find? fun found => found.id = flight).bind fun found =>
      found.handled.map fun handled => state.finish options flight handled
  | .fire pause =>
    if ∃ found ∈ state.armed, found.id = pause then some (state.fire pause)
    else none

def workerSystem (options : Options) : System State Label where
  start := fun state => state = State.create options
  step := fun before label after => workerStep options before label = some after

def startedLast : List Event -> Bool
  | [] => false
  | .started :: _ => true
  | .stopped :: _ => false
  | .batchBegan _ :: past => startedLast past

/-- Every batch of a log, newest first, began after a start and before the stop
that follows it. -/
def BatchesInTurn : List Event -> Prop
  | [] => True
  | .batchBegan _ :: past => startedLast past = true /\ BatchesInTurn past
  | .started :: past => BatchesInTurn past
  | .stopped :: past => BatchesInTurn past

/-- At most one batch, at most one loop, no batch out of turn, and no promise of a
`stop` left open after the batches it waits for. -/
structure Orderly (state : State) : Prop where
  oneBatch : state.flights.length ≤ 1
  oneLoop : state.flights.length + state.armed.length ≤ 1
  inTurn : BatchesInTurn state.log
  drained : ∀ stop promise, state.promise stop = some promise ->
    promise.resolved = true \/ ∃ flight ∈ state.flights, flight.id ∈ promise.awaits

/-- The steps that keep the lifecycle in order: no start hook ends while the
worker runs and a batch or a pause is already there, and no stop is called while
an earlier one still waits for the batch under way. -/
def Careful (state : State) : Label -> Prop
  | .hookEnds _ => state.running = true -> state.processing = false /\ state.armed = []
  | .stop => state.processing = true -> state.drainResolve = none
  | _ => True

instance (state : State) (label : Label) : Decidable (Careful state label) := by
  cases label <;> simp only [Careful] <;> infer_instance

structure Steady (state : State) : Prop where
  oneLoop : state.flights.length + state.armed.length ≤ 1
  processing : state.processing = true <-> state.flights ≠ []
  armedRuns : ∀ pause ∈ state.armed,
    state.running = true /\ state.timer = some pause.id
  drained : ∀ stop promise, state.promise stop = some promise ->
    promise.resolved = true \/
      (state.drainResolve = some stop /\
        ∃ flight ∈ state.flights, flight.id ∈ promise.awaits)
  started : state.running = startedLast state.log
  inTurn : BatchesInTurn state.log

variable {options : Options} {state after : State} {label : Label}

section

variable (hsteady : Steady state)
include hsteady

theorem Steady.orderly : Orderly state := by
  refine ⟨?_, hsteady.oneLoop, hsteady.inTurn, ?_⟩
  · exact Nat.le_trans (Nat.le_add_right _ _) hsteady.oneLoop
  · intro stop promise hpromise
    exact (hsteady.drained stop promise hpromise).imp id And.right

omit hsteady in
theorem Steady.create (options : Options) : Steady (State.create options) := by
  refine ⟨Nat.zero_le 1, ?_, nofun, nofun, rfl, trivial⟩
  exact iff_of_false Bool.false_ne_true fun hflights => hflights rfl

/-- A round begins in order when neither a batch nor a pause is there. -/
theorem Steady.poll (hfree : state.running = true -> state.flights = [] /\ state.armed = []) :
    Steady state.poll := by
  unfold State.poll
  split
  · rename_i hrunning
    obtain ⟨hflights, harmed⟩ := hfree hrunning
    refine ⟨?_, ?_, ?_, ?_, ?_, ?_, hsteady.inTurn⟩
    · simp [hflights, harmed]
    · simp
    · intro pause hpause
      exact hsteady.armedRuns pause hpause
    · intro stop promise hpromise
      rcases hsteady.drained stop promise hpromise with hresolved | ⟨_, flight, hflight, _⟩
      · exact .inl hresolved
      · rw [hflights] at hflight
        cases hflight
    · exact hsteady.started
    · exact hsteady.started.symm.trans hrunning
  · exact hsteady

theorem Steady.start (shouldStart : Bool) : Steady (state.start shouldStart) := by
  unfold State.start
  split
  · exact hsteady
  · rename_i hrunning
    split
    · refine ⟨hsteady.oneLoop, hsteady.processing, ?_, hsteady.drained, rfl, hsteady.inTurn⟩
      intro pause hpause
      exact absurd (hsteady.armedRuns pause hpause).1 hrunning
    · exact hsteady

theorem Steady.hookEnds (hook : Nat)
    (hcareful : state.running = true -> state.processing = false /\ state.armed = []) :
    Steady (state.hookEnds hook) := by
  have hregistered : Steady { state with hooks := state.hooks.erase hook, registered := true } :=
    ⟨hsteady.oneLoop, hsteady.processing, hsteady.armedRuns, hsteady.drained, hsteady.started,
      hsteady.inTurn⟩
  refine hregistered.poll fun hrunning => ?_
  obtain ⟨hprocessing, harmed⟩ := hcareful hrunning
  refine ⟨?_, harmed⟩
  by_contra hflights
  rw [hsteady.processing.mpr hflights] at hprocessing
  cases hprocessing

theorem Steady.promised : Steady (state.promised true) := by
  refine ⟨hsteady.oneLoop, hsteady.processing, hsteady.armedRuns, ?_, hsteady.started,
    hsteady.inTurn⟩
  intro stop promise hpromise
  change update state.promise _ _ stop = _ at hpromise
  by_cases hstop : stop = state.stopsCalled
  · subst hstop
    rw [update_self] at hpromise
    cases hpromise
    exact .inl rfl
  · rw [update_of_ne hstop] at hpromise
    exact hsteady.drained stop promise hpromise

/-- A promise that waits for the batch under way takes the place nobody held. -/
theorem Steady.promisedDraining (hprocessing : state.processing = true)
    (hfree : state.drainResolve = none) :
    Steady { state.promised false with drainResolve := some state.stopsCalled } := by
  refine ⟨hsteady.oneLoop, hsteady.processing, hsteady.armedRuns, ?_, hsteady.started,
    hsteady.inTurn⟩
  intro stop promise hpromise
  change update state.promise _ _ stop = _ at hpromise
  by_cases hstop : stop = state.stopsCalled
  · subst hstop
    rw [update_self] at hpromise
    cases hpromise
    obtain ⟨flight, hflight⟩ := exists_mem_of_ne_nil _ (hsteady.processing.mp hprocessing)
    exact Or.inr ⟨rfl, flight, hflight, mem_map_of_mem hflight⟩
  · rw [update_of_ne hstop] at hpromise
    rcases hsteady.drained stop promise hpromise with hresolved | ⟨hdrain, _⟩
    · exact .inl hresolved
    · rw [hfree] at hdrain
      cases hdrain

/-- The only pause is the one the `timer` field names. -/
theorem Steady.clearPause_armed : state.clearPause.armed = [] := by
  refine eq_nil_iff_forall_not_mem.mpr fun pause hpause => ?_
  change pause ∈ (match state.timer with
    | none => state.armed
    | some timer => state.armed.filter fun pause => pause.id ≠ timer) at hpause
  cases htimer : state.timer with
  | none =>
    rw [htimer] at hpause
    have hnamed := (hsteady.armedRuns pause hpause).2
    rw [htimer] at hnamed
    cases hnamed
  | some timer =>
    rw [htimer] at hpause
    obtain ⟨harmed, hother⟩ := mem_filter.mp hpause
    have hnamed := (hsteady.armedRuns pause harmed).2
    rw [htimer] at hnamed
    exact absurd (Option.some.inj hnamed).symm (of_decide_eq_true hother)

/-- The worker once `stop` has ended its loop. -/
theorem Steady.halt :
    Steady { state with
      registered := false
      running := false
      log := .stopped :: state.log }.clearPause := by
  have harmed : ({ state with
      registered := false
      running := false
      log := .stopped :: state.log }.clearPause).armed = [] := hsteady.clearPause_armed
  refine ⟨?_, hsteady.processing, ?_, hsteady.drained, rfl, hsteady.inTurn⟩
  · rw [harmed]
    exact Nat.le_trans (Nat.le_add_right _ _) hsteady.oneLoop
  · intro pause hpause
    rw [harmed] at hpause
    cases hpause

theorem Steady.stop (hcareful : state.processing = true -> state.drainResolve = none) :
    Steady state.stop := by
  simp only [State.stop]
  split
  · rename_i hquiet
    have hhalted : state.running = false := by simpa using (Bool.and_eq_true_iff.mp hquiet).1
    have hunregistered : Steady { state with registered := false, log := .stopped :: state.log } :=
      ⟨hsteady.oneLoop, hsteady.processing, hsteady.armedRuns, hsteady.drained, hhalted,
        hsteady.inTurn⟩
    exact hunregistered.promised
  · split
    · rename_i hprocessing
      exact hsteady.halt.promisedDraining hprocessing (hcareful hprocessing)
    · exact hsteady.halt.promised

theorem Steady.settle (id : Nat) (result : BatchResult) :
    Steady (state.settle options id result) := by
  refine ⟨?_, ?_, hsteady.armedRuns, ?_, hsteady.started, hsteady.inTurn⟩
  · change (state.flights.map _).length + state.armed.length ≤ 1
    rw [length_map]
    exact hsteady.oneLoop
  · change state.processing = true <-> state.flights.map _ ≠ []
    rw [hsteady.processing, ne_eq, ne_eq, map_eq_nil_iff]
  · intro stop promise hpromise
    refine (hsteady.drained stop promise hpromise).imp (fun hresolved => hresolved) ?_
    rintro ⟨hdrain, flight, hflight, hawaited⟩
    refine ⟨hdrain, _, mem_map_of_mem hflight, ?_⟩
    split <;> exact hawaited

theorem Steady.sole {flight : Flight} (hflight : flight ∈ state.flights) :
    state.flights = [flight] /\ state.armed = [] := by
  have hpositive := length_pos_of_mem hflight
  have hone := hsteady.oneLoop
  obtain ⟨only, honly⟩ := length_eq_one_iff.mp
    (show state.flights.length = 1 by omega)
  rw [honly] at hflight
  rw [mem_singleton.mp hflight]
  exact ⟨honly, length_eq_zero_iff.mp (by omega)⟩

theorem Steady.finish {flight : Flight} (hflight : flight ∈ state.flights) (handled : Int) :
    Steady (state.finish options flight.id handled) := by
  obtain ⟨hflights, harmed⟩ := hsteady.sole hflight
  have hlanded : (state.flights.filter fun found => found.id ≠ flight.id) = [] := by simp [hflights]
  have hquiet : (false = true) <->
      (state.flights.filter fun found => found.id ≠ flight.id) ≠ [] :=
    iff_of_false Bool.false_ne_true fun hflown => hflown hlanded
  simp only [State.finish]
  split
  · rename_i waiting hdrain
    refine ⟨?_, hquiet, ?_, ?_, hsteady.started, hsteady.inTurn⟩
    · change (state.flights.filter _).length + state.armed.length ≤ 1
      rw [hlanded, harmed]
      exact Nat.zero_le 1
    · exact hsteady.armedRuns
    · intro stop promise hpromise
      change update state.promise waiting _ stop = _ at hpromise
      by_cases hstop : stop = waiting
      · subst hstop
        rw [update_self] at hpromise
        obtain ⟨old, _, rfl⟩ := Option.map_eq_some_iff.mp hpromise
        exact .inl rfl
      · rw [update_of_ne hstop] at hpromise
        rcases hsteady.drained stop promise hpromise with hresolved | ⟨hother, _⟩
        · exact .inl hresolved
        · rw [hdrain] at hother
          exact absurd (Option.some.inj hother).symm hstop
  · rename_i hdrain
    have hresolved : ∀ stop promise, state.promise stop = some promise ->
        promise.resolved = true := by
      intro stop promise hpromise
      rcases hsteady.drained stop promise hpromise with hdone | ⟨hother, _⟩
      · exact hdone
      · rw [hdrain] at hother
        cases hother
    split
    · rename_i hrunning
      refine ⟨?_, hquiet, ?_, ?_, hsteady.started, hsteady.inTurn⟩
      · change (state.flights.filter _).length + (state.armed ++ [_]).length ≤ 1
        rw [hlanded, harmed]
        exact Nat.le_refl 1
      · intro pause hpause
        change pause ∈ state.armed ++ _ at hpause
        rw [harmed] at hpause
        rw [mem_singleton.mp hpause]
        exact ⟨hrunning, rfl⟩
      · exact fun stop promise hpromise => .inl (hresolved stop promise hpromise)
    · refine ⟨?_, hquiet, hsteady.armedRuns, ?_, hsteady.started, hsteady.inTurn⟩
      · change (state.flights.filter _).length + state.armed.length ≤ 1
        rw [hlanded, harmed]
        exact Nat.zero_le 1
      · exact fun stop promise hpromise => .inl (hresolved stop promise hpromise)

theorem Steady.fire {pause : Pause} (hpause : pause ∈ state.armed) :
    Steady (state.fire pause.id) := by
  have hpositive := length_pos_of_mem hpause
  have hone := hsteady.oneLoop
  have hflights : state.flights = [] := length_eq_zero_iff.mp (by omega)
  obtain ⟨only, honly⟩ := length_eq_one_iff.mp (show state.armed.length = 1 by omega)
  have hfired : (state.armed.filter fun found => found.id ≠ pause.id) = [] := by
    rw [honly] at hpause
    simp [honly, mem_singleton.mp hpause]
  have hcleared : Steady { state with
      armed := state.armed.filter fun found => found.id ≠ pause.id } := by
    refine ⟨?_, hsteady.processing, ?_, hsteady.drained, hsteady.started, hsteady.inTurn⟩
    · change state.flights.length + (state.armed.filter _).length ≤ 1
      rw [hflights, hfired]
      exact Nat.zero_le 1
    · intro found hfound
      exact hsteady.armedRuns found (mem_of_mem_filter hfound)
  exact hcleared.poll fun _ => ⟨hflights, hfired⟩

theorem Steady.step (hstep : workerStep options state label = some after)
    (hcareful : Careful state label) : Steady after := by
  cases label with
  | start shouldStart =>
    cases hstep
    exact hsteady.start shouldStart
  | hookEnds hook =>
    obtain ⟨_, rfl⟩ : hook ∈ state.hooks /\ state.hookEnds hook = after := by
      simpa [workerStep] using hstep
    exact hsteady.hookEnds hook hcareful
  | stop =>
    cases hstep
    exact hsteady.stop hcareful
  | settle flight result =>
    obtain ⟨_, rfl⟩ : { id := flight, handled := none } ∈ state.flights /\
        state.settle options flight result = after := by
      simpa [workerStep] using hstep
    exact hsteady.settle flight result
  | finish flight =>
    obtain ⟨found, hfound, hhandled⟩ := Option.bind_eq_some_iff.mp hstep
    obtain ⟨handled, _, rfl⟩ := Option.map_eq_some_iff.mp hhandled
    have hid : found.id = flight := by simpa using find?_some hfound
    rw [← hid]
    exact hsteady.finish (mem_of_find?_eq_some hfound) handled
  | fire pause =>
    obtain ⟨⟨found, hfound, rfl⟩, rfl⟩ :
        (∃ found ∈ state.armed, found.id = pause) /\ state.fire pause = after := by
      simpa [workerStep] using hstep
    exact hsteady.fire hfound

end

/-- In every run whose steps are careful, the worker is orderly throughout. -/
theorem orderly_of_careful (hreach : ((workerSystem options).restrict Careful).Reachable state) :
    Orderly state := by
  have hsteady : Steady state :=
    hreach.invariant (fun _ hstart => hstart ▸ Steady.create options)
      (fun _ _ _ _ hsteady hstep => hsteady.step hstep.1 hstep.2)
  exact hsteady.orderly

/-! ## Restarts

A restart after the drain is orderly.  A restart during the drain, whose hook
ends before the batch does, is not. -/

def outboxOptions : Options where
  name := "OutboxWorker"
  intervalMs := 1000
  backoffMs := 1000
  backoffMaxMs := 60000
  idleOnlyDelay := true

/-- Two rounds, a drain of the second, and a new start. -/
def patientLabels : List Label :=
  [.start true, .hookEnds 0, .settle 0 (.count 3), .finish 0, .fire 0, .stop,
    .settle 1 .thrown, .finish 1, .start true, .hookEnds 1]

theorem orderly_patient_restart :
    ∃ state, ((workerSystem outboxOptions).restrict Careful).Reachable state /\
      state.flights = [{ id := 2, handled := none }] /\ Orderly state := by
  have hshape : (System.follow (fun before label => if Careful before label then
      workerStep outboxOptions before label else none) (State.create outboxOptions)
      patientLabels).map State.flights = some [{ id := 2, handled := none }] := by
    decide +kernel
  obtain ⟨state, hfollow, hflights⟩ := Option.map_eq_some_iff.mp hshape
  have hrun : ((workerSystem outboxOptions).restrict Careful).Run
      (State.create outboxOptions) patientLabels state :=
    .of_follow_restrict (fun _ _ _ hstep => hstep) hfollow
  have hreach : ((workerSystem outboxOptions).restrict Careful).Reachable state :=
    (System.Reachable.ofStart rfl).run hrun
  exact ⟨state, hreach, hflights, orderly_of_careful hreach⟩

def hastyLabels : List Label :=
  [.start true, .hookEnds 0, .stop, .start true, .hookEnds 1]

def doubleStopLabels : List Label :=
  [.start true, .hookEnds 0, .stop, .stop, .settle 0 (.count 1), .finish 0]

/-- Neither run is orderly: the first has two batches under way, the second leaves
the first stop waiting for a batch that has ended. -/
theorem restarts_not_orderly :
    (∃ state, (workerSystem outboxOptions).Reachable state /\ state.flights.length = 2 /\
      ¬ Orderly state) /\
    ∃ state, (workerSystem outboxOptions).Reachable state /\ state.flights = [] /\
      state.promise 0 = some { awaits := [0], resolved := false } /\ ¬ Orderly state := by
  constructor
  · have hshape : (System.follow (workerStep outboxOptions) (State.create outboxOptions)
        hastyLabels).map (fun state => state.flights.length) = some 2 := by
      decide +kernel
    obtain ⟨state, hfollow, hlength⟩ := Option.map_eq_some_iff.mp hshape
    refine ⟨state, (System.Reachable.ofStart rfl).run
      (.of_follow (fun _ _ _ hstep => hstep) hfollow), hlength, fun horderly => ?_⟩
    have hone := horderly.oneBatch
    omega
  · have hshape : (System.follow (workerStep outboxOptions) (State.create outboxOptions)
        doubleStopLabels).map (fun state => (state.flights, state.promise 0)) =
          some ([], some { awaits := [0], resolved := false }) := by
      decide +kernel
    obtain ⟨state, hfollow, hfields⟩ := Option.map_eq_some_iff.mp hshape
    obtain ⟨hflights, hpromise⟩ := Prod.mk.inj hfields
    refine ⟨state, (System.Reachable.ofStart rfl).run
      (.of_follow (fun _ _ _ hstep => hstep) hfollow), hflights, hpromise, fun horderly => ?_⟩
    rcases horderly.drained 0 _ hpromise with hresolved | ⟨flight, hflight, _⟩
    · cases hresolved
    · rw [hflights] at hflight
      cases hflight

end AnchorMind.Workers.PollingWorker
