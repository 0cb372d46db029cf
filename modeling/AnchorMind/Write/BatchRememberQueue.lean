import AnchorMind.Kernel.Chains
import AnchorMind.Kernel.Transition
import Mathlib.Algebra.GroupWithZero.Nat
import Mathlib.Algebra.Order.Monoid.Unbundled.WithTop

/-!
# The queue of batch-remember jobs

A job is pushed to the main list, moved to the processing list by a worker, and there
acknowledged when it is done, queued again or dead-lettered.  Every Redis call may fail
before or after Redis executed it, and a command whose reply was lost may still be executed
later.  The state remembers which jobs were accepted, started and completed.
-/

namespace AnchorMind.Write.BatchRememberQueue

open Kernel.Transition List

variable {Params : Type}

structure Job (Params : Type) where
  jobId : String
  params : Params
  deriving DecidableEq

/-- An element of the main and the processing list; equal elements have the same text. -/
structure Envelope (Params : Type) where
  jobId : String
  params : Params
  retryCount : Nat
  queuedAt : Nat
  deriving DecidableEq

structure DeadEnvelope (Params : Type) where
  jobId : String
  params : Params
  retryCount : Nat
  lastError : String
  deadAt : Nat

def Envelope.job (envelope : Envelope Params) : Job Params := ⟨envelope.jobId, envelope.params⟩

def DeadEnvelope.job (letter : DeadEnvelope Params) : Job Params :=
  ⟨letter.jobId, letter.params⟩

structure Lists (Params : Type) where
  queue : List (Envelope Params)
  processing : List (Envelope Params)
  dead : List (DeadEnvelope Params)

inductive Command (Params : Type) where
  | pushToQueue (envelope : Envelope Params)
  | pushToQueueDead (letter : DeadEnvelope Params)
  | popFromQueueReliable
  | ackQueueItem (raw : Envelope Params)
  | requeueProcessing

/-- `RPOPLPUSH` -/
def rpoplpush {Item : Type} (source target : List Item) : List Item × List Item :=
  match source.getLast? with
  | none => (source, target)
  | some item => (source.dropLast, item :: target)

def Lists.exec [DecidableEq Params] (lists : Lists Params) : Command Params -> Lists Params
  | .pushToQueue envelope => { lists with queue := envelope :: lists.queue }
  | .pushToQueueDead letter => { lists with dead := letter :: lists.dead }
  | .popFromQueueReliable =>
    let moved := rpoplpush lists.queue lists.processing
    { lists with queue := moved.1, processing := moved.2 }
  | .ackQueueItem raw => { lists with processing := lists.processing.erase raw }
  | .requeueProcessing =>
    let moved := rpoplpush lists.processing lists.queue
    { lists with processing := moved.1, queue := moved.2 }

inductive Reply where
  | ok
  | failed (executed : Bool)
  deriving DecidableEq

inductive Worker (Params : Type) where
  | off
  /-- In the loop of `requeueProcessing`. -/
  | recovering
  | idle
  | holding (raw : Envelope Params)
  | running (raw : Envelope Params)
  | failed (raw : Envelope Params) (message : String)
  | acking (raw : Envelope Params)

structure State (Params : Type) where
  lists : Lists Params
  workers : Nat -> Worker Params
  /-- The commands whose reply was lost. -/
  sent : List (Command Params)
  accepted : List (Job Params)
  started : List (Job Params)
  completed : List (Job Params)

inductive Label (Params : Type) where
  | accept (job : Job Params) (now : Nat) (reply : Reply)
  | start (worker : Nat)
  | recover (worker : Nat) (reply : Reply)
  | pop (worker : Nat) (reply : Reply)
  | begin (worker : Nat)
  | complete (worker : Nat)
  | throws (worker : Nat) (message : String)
  | dispose (worker : Nat) (now : Nat) (reply : Reply)
  | ack (worker : Nat) (reply : Reply)
  | stop (worker : Nat)
  | crash (worker : Nat)
  /-- Redis executes a command whose caller has given up. -/
  | stray (place : Nat)

def State.setWorker (state : State Params) (worker : Nat) (now : Worker Params) : State Params :=
  { state with workers := Function.update state.workers worker now }

@[simp] theorem workers_setWorker (state : State Params) (worker : Nat) (now : Worker Params) :
    (state.setWorker worker now).workers worker = now := by
  simp only [State.setWorker, Function.update_self]

def State.call [DecidableEq Params] (state : State Params) (command : Command Params) :
    Reply -> State Params
  | .ok => { state with lists := state.lists.exec command }
  | .failed true => { state with lists := state.lists.exec command, sent := command :: state.sent }
  | .failed false => { state with sent := command :: state.sent }

/-- What `_processJobEnvelope` does with a job whose run has thrown. -/
def disposition (retryLimit : Nat) (raw : Envelope Params) (message : String) (now : Nat) :
    Command Params :=
  if raw.retryCount < retryLimit then
    .pushToQueue
      { jobId := raw.jobId, params := raw.params, retryCount := raw.retryCount + 1,
        queuedAt := now }
  else
    .pushToQueueDead
      { jobId := raw.jobId, params := raw.params, retryCount := raw.retryCount,
        lastError := message, deadAt := now }

def step [DecidableEq Params] (retryLimit : Nat) (state : State Params) :
    Label Params -> Option (State Params)
  | .accept job now reply =>
    let envelope : Envelope Params :=
      { jobId := job.jobId, params := job.params, retryCount := 0, queuedAt := now }
    let pushed := state.call (.pushToQueue envelope) reply
    some { pushed with
      accepted := if reply = .ok then job :: state.accepted else state.accepted }
  | .start worker =>
    match state.workers worker with
    | .off => some (state.setWorker worker .recovering)
    | _ => none
  | .recover worker reply =>
    match state.workers worker with
    | .recovering =>
      some ((state.call .requeueProcessing reply).setWorker worker
        (if reply = .ok ∧ state.lists.processing ≠ [] then .recovering else .idle))
    | _ => none
  | .pop worker reply =>
    match state.workers worker with
    | .idle =>
      some ((state.call .popFromQueueReliable reply).setWorker worker
        (match reply, state.lists.queue.getLast? with
        | .ok, some raw => .holding raw
        | _, _ => .idle))
    | _ => none
  | .begin worker =>
    match state.workers worker with
    | .holding raw =>
      some { state.setWorker worker (.running raw) with started := raw.job :: state.started }
    | _ => none
  | .complete worker =>
    match state.workers worker with
    | .running raw =>
      some { state.setWorker worker (.acking raw) with completed := raw.job :: state.completed }
    | _ => none
  | .throws worker message =>
    match state.workers worker with
    | .running raw => some (state.setWorker worker (.failed raw message))
    | _ => none
  | .dispose worker now reply =>
    match state.workers worker with
    | .failed raw message =>
      some ((state.call (disposition retryLimit raw message now) reply).setWorker worker
        (if reply = .ok then .acking raw else .idle))
    | _ => none
  | .ack worker reply =>
    match state.workers worker with
    | .acking raw => some ((state.call (.ackQueueItem raw) reply).setWorker worker .idle)
    | _ => none
  | .stop worker =>
    match state.workers worker with
    | .idle => some (state.setWorker worker .off)
    | _ => none
  | .crash worker => some (state.setWorker worker .off)
  | .stray place =>
    (state.sent[place]?).map fun command => { state with lists := state.lists.exec command }

def initial : State Params where
  lists := { queue := [], processing := [], dead := [] }
  workers := fun _ => .off
  sent := []
  accepted := []
  started := []
  completed := []

def workers (Params : Type) [DecidableEq Params] (retryLimit : Nat) :
    System (State Params) (Label Params) where
  start state := state = initial
  step before label after := step retryLimit before label = some after

def Lists.Holds (lists : Lists Params) (job : Job Params) : Prop :=
  (∃ envelope ∈ lists.queue ++ lists.processing, envelope.job = job) \/
    ∃ letter ∈ lists.dead, letter.job = job

def Worker.runs [DecidableEq Params] (job : Job Params) : Worker Params -> Bool
  | .running raw => raw.job = job
  | _ => false

/-- One instance that does not crash, calls that do not fail, and runs of the job that
throw. -/
def Calm [DecidableEq Params] (job : Job Params) (state : State Params) : Label Params -> Prop
  | .accept _ _ reply => reply = .ok
  | .start worker => worker = 0
  | .recover worker reply => worker = 0 /\ reply = .ok
  | .pop worker reply => worker = 0 /\ reply = .ok
  | .begin worker => worker = 0
  | .complete worker => worker = 0 /\ (state.workers worker).runs job = false
  | .throws worker _ => worker = 0
  | .dispose worker _ reply => worker = 0 /\ reply = .ok
  | .ack worker reply => worker = 0 /\ reply = .ok
  | .stop worker => worker = 0
  | .crash _ => False
  | .stray _ => False

instance [DecidableEq Params] (job : Job Params) (state : State Params) (label : Label Params) :
    Decidable (Calm job state label) := by
  cases label <;> simp only [Calm] <;> infer_instance

end AnchorMind.Write.BatchRememberQueue

/-!
# Accepted jobs are not lost

An acknowledgement is sent only after the run of the job has completed, or after an envelope
of the job with a higher retry count, or a dead letter, has been stored.  So a removed
envelope is always superseded, whichever commands fail and whichever worker holds what.
-/

namespace AnchorMind.Write.BatchRememberQueue

open Kernel.Supersession Kernel.Transition List

variable {Params : Type}

inductive Held (Params : Type) where
  | waiting (envelope : Envelope Params)
  | dead (letter : DeadEnvelope Params)

def Held.job : Held Params -> Job Params
  | .waiting envelope => envelope.job
  | .dead letter => letter.job

def Held.level : Held Params -> WithTop Nat
  | .waiting envelope => envelope.retryCount
  | .dead _ => ⊤

def Lists.held (lists : Lists Params) : List (Held Params) :=
  (lists.queue ++ lists.processing).map .waiting ++ lists.dead.map .dead

variable {lists : Lists Params}

theorem waiting_mem_held {envelope : Envelope Params} :
    Held.waiting envelope ∈ lists.held <->
      envelope ∈ lists.queue \/ envelope ∈ lists.processing := by
  simp [Lists.held]

theorem dead_mem_held {letter : DeadEnvelope Params} :
    Held.dead letter ∈ lists.held <-> letter ∈ lists.dead := by
  simp [Lists.held]

theorem present_iff_holds {job : Job Params} :
    Present Held.job lists.held job <-> lists.Holds job := by
  constructor
  · rintro ⟨item, hmem, hjob⟩
    cases item with
    | waiting envelope =>
      exact .inl ⟨envelope, mem_append.mpr (waiting_mem_held.mp hmem), hjob⟩
    | dead letter => exact .inr ⟨letter, dead_mem_held.mp hmem, hjob⟩
  · rintro (⟨envelope, hmem, hjob⟩ | ⟨letter, hmem, hjob⟩)
    · exact ⟨.waiting envelope, waiting_mem_held.mpr (mem_append.mp hmem), hjob⟩
    · exact ⟨.dead letter, dead_mem_held.mpr hmem, hjob⟩

theorem mem_rpoplpush {Item : Type} {source target : List Item} {item : Item} :
    item ∈ (rpoplpush source target).1 \/ item ∈ (rpoplpush source target).2 <->
      item ∈ source \/ item ∈ target := by
  unfold rpoplpush
  split
  · exact Iff.rfl
  · rename_i last hlast
    obtain ⟨before, rfl⟩ := getLast?_eq_some_iff.mp hlast
    simp only [dropLast_concat, mem_cons, mem_append, not_mem_nil, or_false]
    exact or_assoc.symm

def Safe (completed : List (Job Params)) (lists : Lists Params) (job : Job Params) : Prop :=
  job ∈ completed \/ Present Held.job lists.held job

def Superseded (completed : List (Job Params)) (lists : Lists Params) (raw : Envelope Params) :
    Prop :=
  raw.job ∈ completed \/ Above Held.job Held.level lists.held raw.job raw.retryCount

def Harmless (completed : List (Job Params)) (lists : Lists Params) (command : Command Params) :
    Prop :=
  ∀ raw, command = .ackQueueItem raw -> Superseded completed lists raw

variable {completed : List (Job Params)} {lists : Lists Params} {command : Command Params}

theorem harmless_of_ne (hother : ∀ raw, command ≠ .ackQueueItem raw) :
    Harmless completed lists command :=
  fun raw heq => absurd heq (hother raw)

theorem harmless_disposition (retryLimit : Nat) (raw : Envelope Params) (message : String)
    (now : Nat) : Harmless completed lists (disposition retryLimit raw message now) := by
  intro acked heq
  unfold disposition at heq
  split at heq <;> cases heq

structure Inv (state : State Params) : Prop where
  safe : ∀ job ∈ state.accepted, Safe state.completed state.lists job
  acking : ∀ {worker : Nat} {raw : Envelope Params}, state.workers worker = .acking raw ->
    Superseded state.completed state.lists raw
  sent : ∀ command ∈ state.sent, Harmless state.completed state.lists command

variable {state : State Params}

theorem Inv.send (hinv : Inv state) (hharmless : Harmless state.completed state.lists command) :
    Inv { state with sent := command :: state.sent } := by
  constructor
  · exact hinv.safe
  · exact hinv.acking
  · intro lost hlost
    rcases mem_cons.mp hlost with rfl | hbefore
    · exact hharmless
    · exact hinv.sent lost hbefore

theorem Inv.setWorker (hinv : Inv state) (worker : Nat) {now : Worker Params}
    (hacking : ∀ raw, now = .acking raw -> Superseded state.completed state.lists raw) :
    Inv (state.setWorker worker now) := by
  constructor
  · exact hinv.safe
  · intro other raw hother
    change Function.update state.workers worker now other = .acking raw at hother
    rw [Function.update_apply] at hother
    split at hother
    · exact hacking raw hother
    · exact hinv.acking hother
  · exact hinv.sent

theorem Inv.complete (hinv : Inv state) (job : Job Params) :
    Inv { state with completed := job :: state.completed } := by
  have hsuperseded : ∀ {raw : Envelope Params},
      Superseded state.completed state.lists raw ->
        Superseded (job :: state.completed) state.lists raw :=
    fun hraw => hraw.imp_left (mem_cons_of_mem _)
  constructor
  · intro other hother
    exact (hinv.safe other hother).imp_left (mem_cons_of_mem _)
  · intro worker raw hacking
    exact hsuperseded (hinv.acking hacking)
  · intro command hcommand raw heq
    exact hsuperseded (hinv.sent command hcommand raw heq)

variable [DecidableEq Params]

theorem loses_ack (lists : Lists Params) (raw : Envelope Params) :
    Loses lists.held (lists.exec (.ackQueueItem raw)).held (.waiting raw) := by
  intro item hmem
  cases item with
  | waiting envelope =>
    rcases eq_or_ne envelope raw with rfl | hne
    · exact .inl rfl
    · refine .inr (waiting_mem_held.mpr ((waiting_mem_held.mp hmem).imp_right ?_))
      intro hthere
      exact (mem_erase_of_ne hne).mpr hthere
  | dead letter =>
    have hthere : letter ∈ lists.dead := dead_mem_held.mp hmem
    exact .inr (dead_mem_held.mpr hthere)

theorem exec_cases (lists : Lists Params) (command : Command Params) :
    (∀ item ∈ lists.held, item ∈ (lists.exec command).held) \/
      ∃ raw, command = .ackQueueItem raw /\
        Loses lists.held (lists.exec command).held (.waiting raw) := by
  cases command with
  | pushToQueue pushed =>
    refine .inl fun item hmem => ?_
    cases item with
    | waiting envelope =>
      exact waiting_mem_held.mpr
        ((waiting_mem_held.mp hmem).imp_left (mem_cons_of_mem _))
    | dead letter =>
      have hthere : letter ∈ lists.dead := dead_mem_held.mp hmem
      exact dead_mem_held.mpr hthere
  | pushToQueueDead pushed =>
    refine .inl fun item hmem => ?_
    cases item with
    | waiting envelope =>
      have hthere := waiting_mem_held.mp hmem
      exact waiting_mem_held.mpr hthere
    | dead letter => exact dead_mem_held.mpr (mem_cons_of_mem _ (dead_mem_held.mp hmem))
  | popFromQueueReliable =>
    refine .inl fun item hmem => ?_
    cases item with
    | waiting envelope => exact waiting_mem_held.mpr (mem_rpoplpush.mpr (waiting_mem_held.mp hmem))
    | dead letter =>
      have hthere : letter ∈ lists.dead := dead_mem_held.mp hmem
      exact dead_mem_held.mpr hthere
  | ackQueueItem raw => exact .inr ⟨raw, rfl, loses_ack lists raw⟩
  | requeueProcessing =>
    refine .inl fun item hmem => ?_
    cases item with
    | waiting envelope =>
      exact waiting_mem_held.mpr (mem_rpoplpush.mpr (waiting_mem_held.mp hmem).symm).symm
    | dead letter =>
      have hthere : letter ∈ lists.dead := dead_mem_held.mp hmem
      exact dead_mem_held.mpr hthere

theorem Safe.exec {job : Job Params} (hsafe : Safe completed lists job)
    (hharmless : Harmless completed lists command) : Safe completed (lists.exec command) job := by
  rcases hsafe with hcompleted | hpresent
  · exact .inl hcompleted
  · rcases exec_cases lists command with hkeep | ⟨raw, rfl, hloses⟩
    · exact .inr (hpresent.keep hkeep)
    · rcases hharmless raw rfl with hdone | habove
      · rcases eq_or_ne raw.job job with rfl | hne
        · exact .inl hdone
        · exact .inr (hloses.present_other hne hpresent)
      · exact .inr (hloses.present habove hpresent)

theorem Superseded.exec {raw : Envelope Params} (hsuperseded : Superseded completed lists raw)
    (hharmless : Harmless completed lists command) :
    Superseded completed (lists.exec command) raw := by
  rcases hsuperseded with hcompleted | habove
  · exact .inl hcompleted
  · rcases exec_cases lists command with hkeep | ⟨acked, rfl, hloses⟩
    · exact .inr (habove.keep hkeep)
    · rcases hharmless acked rfl with hdone | hhigher
      · rcases eq_or_ne acked.job raw.job with hsame | hne
        · exact .inl (hsame ▸ hdone)
        · exact .inr (hloses.above_other hne habove)
      · exact .inr (hloses.above hhigher habove)

theorem superseded_disposition (retryLimit : Nat) (raw : Envelope Params) (message : String)
    (now : Nat) :
    Superseded completed (lists.exec (disposition retryLimit raw message now)) raw := by
  unfold disposition
  split
  · refine .inr ⟨.waiting _, waiting_mem_held.mpr (.inl mem_cons_self), rfl, ?_⟩
    exact WithTop.coe_lt_coe.mpr (Nat.lt_succ_self raw.retryCount)
  · refine .inr ⟨.dead _, dead_mem_held.mpr mem_cons_self, rfl, ?_⟩
    exact WithTop.coe_lt_top raw.retryCount

theorem Inv.exec (hinv : Inv state) (hharmless : Harmless state.completed state.lists command) :
    Inv { state with lists := state.lists.exec command } := by
  constructor
  · intro job hjob
    exact (hinv.safe job hjob).exec hharmless
  · intro worker raw hacking
    exact (hinv.acking hacking).exec hharmless
  · intro lost hlost raw heq
    exact (hinv.sent lost hlost raw heq).exec hharmless

theorem Inv.call (hinv : Inv state) (hharmless : Harmless state.completed state.lists command)
    (reply : Reply) : Inv (state.call command reply) := by
  cases reply with
  | ok => exact hinv.exec hharmless
  | failed executed =>
    cases executed with
    | false => exact hinv.send hharmless
    | true => exact (hinv.send hharmless).exec hharmless

variable {retryLimit : Nat}

theorem Inv.accept (hinv : Inv state) (job : Job Params) (now : Nat) (reply : Reply)
    {after : State Params} (hstep : step retryLimit state (.accept job now reply) = some after) :
    Inv after := by
  cases hstep
  have hpushed : Inv (state.call (.pushToQueue
      { jobId := job.jobId, params := job.params, retryCount := 0, queuedAt := now }) reply) :=
    hinv.call (harmless_of_ne fun _ heq => by cases heq) reply
  cases reply with
  | ok =>
    refine ⟨?_, hpushed.acking, hpushed.sent⟩
    intro other hother
    rcases mem_cons.mp hother with rfl | hbefore
    · exact .inr ⟨.waiting _, waiting_mem_held.mpr (.inl mem_cons_self), rfl⟩
    · exact hpushed.safe other hbefore
  | failed executed =>
    refine ⟨?_, hpushed.acking, hpushed.sent⟩
    cases executed with
    | false => exact hpushed.safe
    | true => exact hpushed.safe

theorem Inv.step {before after : State Params} {label : Label Params} (hinv : Inv before)
    (hstep : step retryLimit before label = some after) : Inv after := by
  cases label with
  | accept job now reply => exact hinv.accept job now reply hstep
  | start worker =>
    simp only [BatchRememberQueue.step] at hstep
    split at hstep
    · cases hstep
      exact hinv.setWorker worker fun raw heq => by cases heq
    · cases hstep
  | recover worker reply =>
    simp only [BatchRememberQueue.step] at hstep
    split at hstep
    · cases hstep
      refine (hinv.call (harmless_of_ne fun _ heq => by cases heq) reply).setWorker worker ?_
      intro raw heq
      split at heq <;> cases heq
    · cases hstep
  | pop worker reply =>
    simp only [BatchRememberQueue.step] at hstep
    split at hstep
    · cases hstep
      refine (hinv.call (harmless_of_ne fun _ heq => by cases heq) reply).setWorker worker ?_
      intro raw heq
      split at heq <;> cases heq
    · cases hstep
  | begin worker =>
    simp only [BatchRememberQueue.step] at hstep
    split at hstep
    · rename_i raw _
      cases hstep
      have hmoved : Inv (before.setWorker worker (.running raw)) :=
        hinv.setWorker worker fun _ heq => by cases heq
      exact ⟨hmoved.safe, hmoved.acking, hmoved.sent⟩
    · cases hstep
  | complete worker =>
    simp only [BatchRememberQueue.step] at hstep
    split at hstep
    · rename_i raw _
      cases hstep
      refine (hinv.complete raw.job).setWorker worker ?_
      intro acked heq
      obtain rfl := Worker.acking.inj heq
      exact .inl mem_cons_self
    · cases hstep
  | throws worker message =>
    simp only [BatchRememberQueue.step] at hstep
    split at hstep
    · cases hstep
      exact hinv.setWorker worker fun raw heq => by cases heq
    · cases hstep
  | dispose worker now reply =>
    simp only [BatchRememberQueue.step] at hstep
    split at hstep
    · rename_i raw message _
      cases hstep
      have hcalled := hinv.call (harmless_disposition retryLimit raw message now) reply
      refine hcalled.setWorker worker ?_
      intro acked heq
      split at heq
      · rename_i hok
        obtain rfl := Worker.acking.inj heq
        subst hok
        exact superseded_disposition retryLimit raw message now
      · cases heq
    · cases hstep
  | ack worker reply =>
    simp only [BatchRememberQueue.step] at hstep
    split at hstep
    · rename_i raw hacking
      cases hstep
      refine (hinv.call ?_ reply).setWorker worker fun raw heq => by cases heq
      intro acked heq
      obtain rfl := Command.ackQueueItem.inj heq
      exact hinv.acking hacking
    · cases hstep
  | stop worker =>
    simp only [BatchRememberQueue.step] at hstep
    split at hstep
    · cases hstep
      exact hinv.setWorker worker fun raw heq => by cases heq
    · cases hstep
  | crash worker =>
    cases hstep
    exact hinv.setWorker worker fun raw heq => by cases heq
  | stray place =>
    obtain ⟨command, hcommand, rfl⟩ := Option.map_eq_some_iff.mp hstep
    exact hinv.exec (hinv.sent command (mem_of_getElem? hcommand))

theorem inv_of_reachable (hreach : (workers Params retryLimit).Reachable state) : Inv state := by
  have hstart : ∀ origin : State Params, origin = initial -> Inv origin := by
    rintro origin rfl
    constructor
    · intro job hjob
      cases hjob
    · intro worker raw hacking
      cases hacking
    · intro command hcommand
      cases hcommand
  have hkeep : ∀ before label after, (workers Params retryLimit).Reachable before ->
      Inv before -> (workers Params retryLimit).step before label after -> Inv after := by
    intro before label after _ hinv hstep
    exact hinv.step hstep
  exact hreach.invariant hstart hkeep

end AnchorMind.Write.BatchRememberQueue
