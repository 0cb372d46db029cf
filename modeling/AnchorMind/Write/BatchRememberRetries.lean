import AnchorMind.Write.BatchRememberQueue

/-!
# Retries of a job that always throws

With one instance, no crash and no failed call, every envelope of a job brings with it the
starts it has left.  The starts so far and the starts left add up to one more than the retry
limit for each acceptance of the job.
-/

namespace AnchorMind.Write.BatchRememberQueue

open Kernel.Transition List

variable {Params : Type} [DecidableEq Params]

def startsLeft (retryLimit : Nat) (job : Job Params) (envelope : Envelope Params) : Nat :=
  if envelope.job = job then retryLimit + 1 - envelope.retryCount else 0

def own (job : Job Params) (envelope : Envelope Params) : Nat :=
  if envelope.job = job then 1 else 0

def Worker.taken : Worker Params -> List (Envelope Params)
  | .holding raw => [raw]
  | .running raw => [raw]
  | .failed raw _ => [raw]
  | .acking raw => [raw]
  | _ => []

def Worker.startsLeft (retryLimit : Nat) (job : Job Params) : Worker Params -> Nat
  | .holding raw => BatchRememberQueue.startsLeft retryLimit job raw
  | .running raw => BatchRememberQueue.startsLeft retryLimit job raw - own job raw
  | .failed raw _ => BatchRememberQueue.startsLeft retryLimit job raw - own job raw
  | _ => 0

def Worker.own (job : Job Params) : Worker Params -> Nat
  | .holding raw => BatchRememberQueue.own job raw
  | .running raw => BatchRememberQueue.own job raw
  | .failed raw _ => BatchRememberQueue.own job raw
  | _ => 0

def Worker.Within (retryLimit : Nat) (worker : Worker Params) : Prop :=
  ∀ raw ∈ worker.taken, raw.retryCount ≤ retryLimit

def deadOwn (job : Job Params) (letter : DeadEnvelope Params) : Nat :=
  if letter.job = job then 1 else 0

structure Balanced (retryLimit : Nat) (job : Job Params) (state : State Params) : Prop where
  processing : state.lists.processing = (state.workers 0).taken
  queued : ∀ envelope ∈ state.lists.queue, envelope.retryCount ≤ retryLimit
  taken : (state.workers 0).Within retryLimit
  starts : state.started.count job + (state.lists.queue.map (startsLeft retryLimit job)).sum +
    (state.workers 0).startsLeft retryLimit job = (retryLimit + 1) * state.accepted.count job
  copies : (state.lists.queue.map (own job)).sum + (state.workers 0).own job +
    (state.lists.dead.map (deadOwn job)).sum = state.accepted.count job

variable {retryLimit : Nat} {job : Job Params}

theorem startsLeft_of_own_zero (retryLimit : Nat) {envelope : Envelope Params}
    (hown : own job envelope = 0) : startsLeft retryLimit job envelope = 0 := by
  unfold own at hown
  unfold startsLeft
  split at hown
  · cases hown
  · rename_i hother
    exact if_neg hother

theorem sum_startsLeft_of_own_zero {queue : List (Envelope Params)}
    (hown : (queue.map (own job)).sum = 0) : (queue.map (startsLeft retryLimit job)).sum = 0 := by
  induction queue with
  | nil => rfl
  | cons envelope rest ih =>
    rw [map_cons, sum_cons] at hown
    have hzero : own job envelope = 0 := by omega
    have hrest : (rest.map (own job)).sum = 0 := by omega
    rw [map_cons, sum_cons, startsLeft_of_own_zero retryLimit hzero, ih hrest]

theorem Worker.startsLeft_of_own_zero (retryLimit : Nat) {worker : Worker Params}
    (hown : worker.own job = 0) : worker.startsLeft retryLimit job = 0 := by
  cases worker with
  | off => rfl
  | recovering => rfl
  | idle => rfl
  | holding raw => exact BatchRememberQueue.startsLeft_of_own_zero retryLimit hown
  | running raw =>
    have hzero := BatchRememberQueue.startsLeft_of_own_zero retryLimit hown
    rw [Worker.startsLeft, hzero, Nat.zero_sub]
  | failed raw message =>
    have hzero := BatchRememberQueue.startsLeft_of_own_zero retryLimit hown
    rw [Worker.startsLeft, hzero, Nat.zero_sub]
  | acking raw => rfl

variable {raw : Envelope Params}

theorem own_le_startsLeft (hwithin : raw.retryCount ≤ retryLimit) :
    own job raw ≤ startsLeft retryLimit job raw := by
  unfold own startsLeft
  split
  · omega
  · exact Nat.le_refl 0

theorem startsLeft_retry (retryLimit : Nat) (job : Job Params) (raw : Envelope Params) (now : Nat) :
    startsLeft retryLimit job { raw with retryCount := raw.retryCount + 1, queuedAt := now } =
      startsLeft retryLimit job raw - own job raw := by
  have hjob : Envelope.job { raw with retryCount := raw.retryCount + 1, queuedAt := now } =
      raw.job := rfl
  unfold startsLeft own
  rw [hjob]
  split
  · dsimp only
    omega
  · rfl

theorem startsLeft_exhausted (job : Job Params) (hlimit : ¬ raw.retryCount < retryLimit) :
    startsLeft retryLimit job raw - own job raw = 0 := by
  unfold startsLeft own
  split
  · omega
  · rfl

theorem count_cons_own (raw : Envelope Params) (jobs : List (Job Params)) :
    (raw.job :: jobs).count job = jobs.count job + own job raw := by
  rw [count_cons]
  unfold own
  simp only [beq_iff_eq]

variable {state : State Params}

section

variable (hbalanced : Balanced retryLimit job state)
include hbalanced

variable {now : Worker Params}

/-- A worker that takes nothing becomes another that takes nothing. -/
theorem Balanced.settle (hbefore : (state.workers 0).taken = [])
    (hbeforeOwn : (state.workers 0).own job = 0) (hnow : now.taken = [])
    (hnowOwn : now.own job = 0) : Balanced retryLimit job (state.setWorker 0 now) := by
  have hstartsBefore := Worker.startsLeft_of_own_zero retryLimit hbeforeOwn
  have hstartsNow := Worker.startsLeft_of_own_zero retryLimit hnowOwn
  have hstarts := hbalanced.starts
  have hcopies := hbalanced.copies
  constructor
  · rw [workers_setWorker, hnow, ← hbefore]
    exact hbalanced.processing
  · exact hbalanced.queued
  · rw [workers_setWorker]
    intro raw hraw
    rw [hnow] at hraw
    cases hraw
  · rw [workers_setWorker, hstartsNow]
    rw [hstartsBefore] at hstarts
    exact hstarts
  · rw [workers_setWorker, hnowOwn]
    rw [hbeforeOwn] at hcopies
    exact hcopies

theorem Balanced.accept (envelope : Envelope Params) (hfirst : envelope.retryCount = 0) :
    Balanced retryLimit job { state with
      lists := state.lists.exec (.pushToQueue envelope)
      accepted := envelope.job :: state.accepted } := by
  have hbrings : startsLeft retryLimit job envelope = (retryLimit + 1) * own job envelope := by
    unfold startsLeft own
    split
    · rw [hfirst, Nat.mul_one, Nat.sub_zero]
    · rfl
  have hstarts := hbalanced.starts
  have hcopies := hbalanced.copies
  constructor
  · exact hbalanced.processing
  · intro other hother
    rcases mem_cons.mp hother with rfl | hbefore
    · omega
    · exact hbalanced.queued other hbefore
  · exact hbalanced.taken
  · simp only [Lists.exec, map_cons, sum_cons]
    rw [count_cons_own, Nat.mul_add, hbrings]
    omega
  · simp only [Lists.exec, map_cons, sum_cons]
    rw [count_cons_own]
    omega

theorem Balanced.pop (hidle : state.workers 0 = .idle)
    (hlast : state.lists.queue.getLast? = some raw) :
    Balanced retryLimit job
      ((state.call .popFromQueueReliable .ok).setWorker 0 (.holding raw)) := by
  obtain ⟨before, hqueue⟩ := getLast?_eq_some_iff.mp hlast
  have hprocessing := hbalanced.processing
  have hstarts := hbalanced.starts
  have hcopies := hbalanced.copies
  rw [hidle] at hprocessing hstarts hcopies
  rw [hqueue, map_append, sum_append, map_singleton, sum_singleton]
    at hstarts hcopies
  have hlists : (state.call .popFromQueueReliable .ok).lists =
      { state.lists with queue := before, processing := [raw] } := by
    simp only [State.call, Lists.exec, rpoplpush, hlast, hprocessing, Worker.taken]
    rw [hqueue, dropLast_concat]
  constructor
  · rw [workers_setWorker]
    exact congrArg Lists.processing hlists
  · intro envelope hmem
    change envelope ∈ (state.call .popFromQueueReliable .ok).lists.queue at hmem
    rw [hlists] at hmem
    exact hbalanced.queued envelope (hqueue ▸ mem_append_left _ hmem)
  · rw [workers_setWorker]
    intro taken htaken
    obtain rfl := mem_singleton.mp htaken
    exact hbalanced.queued taken (hqueue ▸ mem_append_right _ mem_cons_self)
  · rw [workers_setWorker]
    change state.started.count job +
      ((state.call .popFromQueueReliable .ok).lists.queue.map (startsLeft retryLimit job)).sum +
        startsLeft retryLimit job raw = (retryLimit + 1) * state.accepted.count job
    rw [hlists]
    simp only [Worker.startsLeft] at hstarts
    dsimp only
    omega
  · rw [workers_setWorker]
    change ((state.call .popFromQueueReliable .ok).lists.queue.map (own job)).sum + own job raw +
      ((state.call .popFromQueueReliable .ok).lists.dead.map (deadOwn job)).sum =
        state.accepted.count job
    rw [hlists]
    simp only [Worker.own] at hcopies
    dsimp only
    omega

/-- The envelope of a worker stays while its share changes hands. -/
theorem Balanced.carry (htaken : now.taken = (state.workers 0).taken)
    (hown : now.own job = (state.workers 0).own job) {started : List (Job Params)}
    {completed : List (Job Params)}
    (hstarts : started.count job + now.startsLeft retryLimit job =
      state.started.count job + (state.workers 0).startsLeft retryLimit job) :
    Balanced retryLimit job
      { state.setWorker 0 now with started := started, completed := completed } := by
  have hbefore := hbalanced.starts
  have hcopies := hbalanced.copies
  have hworker : ({ state.setWorker 0 now with started := started, completed := completed } :
      State Params).workers 0 = now := workers_setWorker state 0 now
  constructor
  · rw [hworker, htaken]
    exact hbalanced.processing
  · exact hbalanced.queued
  · rw [hworker]
    intro raw hraw
    exact hbalanced.taken raw (htaken ▸ hraw)
  · rw [hworker]
    change started.count job + (state.lists.queue.map (startsLeft retryLimit job)).sum + _ =
      (retryLimit + 1) * state.accepted.count job
    omega
  · rw [hworker, hown]
    exact hcopies

theorem Balanced.dispose {message : String} (hfailed : state.workers 0 = .failed raw message)
    (now : Nat) :
    Balanced retryLimit job
      ((state.call (disposition retryLimit raw message now) .ok).setWorker 0 (.acking raw)) := by
  have hprocessing := hbalanced.processing
  have htaken := hbalanced.taken
  have hstarts := hbalanced.starts
  have hcopies := hbalanced.copies
  rw [hfailed] at hprocessing htaken hstarts hcopies
  simp only [Worker.startsLeft] at hstarts
  simp only [Worker.own] at hcopies
  have hown : ∀ envelope : Envelope Params, envelope.job = raw.job ->
      own job envelope = own job raw := by
    intro envelope hjob
    unfold own
    rw [hjob]
  constructor
  · rw [workers_setWorker]
    change (state.lists.exec (disposition retryLimit raw message now)).processing = [raw]
    unfold disposition
    split <;> exact hprocessing
  · intro envelope hmem
    change envelope ∈ (state.lists.exec (disposition retryLimit raw message now)).queue at hmem
    unfold disposition at hmem
    split at hmem
    · rename_i hlimit
      rcases mem_cons.mp hmem with rfl | hbefore
      · exact hlimit
      · exact hbalanced.queued envelope hbefore
    · exact hbalanced.queued envelope hmem
  · rw [workers_setWorker]
    exact htaken
  · rw [workers_setWorker]
    change state.started.count job +
      ((state.lists.exec (disposition retryLimit raw message now)).queue.map
        (startsLeft retryLimit job)).sum + 0 = (retryLimit + 1) * state.accepted.count job
    unfold disposition
    split
    · simp only [Lists.exec, map_cons, sum_cons]
      have hretry := startsLeft_retry retryLimit job raw now
      omega
    · rename_i hlimit
      have hnone := startsLeft_exhausted job hlimit
      simp only [Lists.exec]
      omega
  · rw [workers_setWorker]
    change
      ((state.lists.exec (disposition retryLimit raw message now)).queue.map (own job)).sum + 0 +
      ((state.lists.exec (disposition retryLimit raw message now)).dead.map (deadOwn job)).sum =
        state.accepted.count job
    unfold disposition
    split
    · simp only [Lists.exec, map_cons, sum_cons]
      have hretry := hown { raw with retryCount := raw.retryCount + 1, queuedAt := now } rfl
      omega
    · simp only [Lists.exec, map_cons, sum_cons]
      have hdead : deadOwn job ⟨raw.jobId, raw.params, raw.retryCount, message, now⟩ =
          own job raw := rfl
      omega

theorem Balanced.ack (hacking : state.workers 0 = .acking raw) :
    Balanced retryLimit job ((state.call (.ackQueueItem raw) .ok).setWorker 0 .idle) := by
  have hprocessing := hbalanced.processing
  have hstarts := hbalanced.starts
  have hcopies := hbalanced.copies
  rw [hacking] at hprocessing hstarts hcopies
  constructor
  · rw [workers_setWorker]
    change state.lists.processing.erase raw = []
    rw [hprocessing]
    exact erase_cons_head raw []
  · exact hbalanced.queued
  · rw [workers_setWorker]
    intro other hother
    cases hother
  · rw [workers_setWorker]
    exact hstarts
  · rw [workers_setWorker]
    exact hcopies

omit hbalanced in
theorem Balanced.step {before after : State Params} {label : Label Params}
    (hbalanced : Balanced retryLimit job before) (hstep : step retryLimit before label = some after)
    (hcalm : Calm job before label) : Balanced retryLimit job after := by
  cases label with
  | accept pushed now reply =>
    cases hstep
    obtain rfl : reply = .ok := hcalm
    exact hbalanced.accept
      { jobId := pushed.jobId, params := pushed.params, retryCount := 0, queuedAt := now } rfl
  | start worker =>
    obtain rfl : worker = 0 := hcalm
    simp only [BatchRememberQueue.step] at hstep
    split at hstep
    · rename_i hoff
      cases hstep
      exact hbalanced.settle (by rw [hoff]; rfl) (by rw [hoff]; rfl) rfl rfl
    · cases hstep
  | recover worker reply =>
    obtain ⟨rfl, rfl⟩ := hcalm
    simp only [BatchRememberQueue.step] at hstep
    split at hstep
    · rename_i hrecovering
      cases hstep
      have hprocessing : before.lists.processing = [] := by
        rw [hbalanced.processing, hrecovering]
        rfl
      -- nothing is left to move
      have hlists : before.lists.exec .requeueProcessing = before.lists := by
        simp only [Lists.exec, hprocessing, rpoplpush, getLast?_nil]
        rw [← hprocessing]
      have hcall : before.call .requeueProcessing .ok = before := by rw [State.call, hlists]
      rw [hcall, if_neg (fun hboth => hboth.2 hprocessing)]
      exact hbalanced.settle (by rw [hrecovering]; rfl) (by rw [hrecovering]; rfl) rfl rfl
    · cases hstep
  | pop worker reply =>
    obtain ⟨rfl, rfl⟩ := hcalm
    simp only [BatchRememberQueue.step] at hstep
    split at hstep
    · rename_i hidle
      cases hstep
      rcases hlast : before.lists.queue.getLast? with _ | raw
      · have hcall : before.call .popFromQueueReliable .ok = before := by
          simp only [State.call, Lists.exec, rpoplpush, hlast]
        rw [hcall]
        exact hbalanced.settle (by rw [hidle]; rfl) (by rw [hidle]; rfl) rfl rfl
      · exact hbalanced.pop hidle hlast
    · cases hstep
  | begin worker =>
    obtain rfl : worker = 0 := hcalm
    simp only [BatchRememberQueue.step] at hstep
    split at hstep
    · rename_i raw hholding
      cases hstep
      have hwithin := hbalanced.taken
      rw [hholding] at hwithin
      have hshare : own job raw ≤ startsLeft retryLimit job raw :=
        own_le_startsLeft (hwithin raw mem_cons_self)
      refine hbalanced.carry (by rw [hholding]; rfl) (by rw [hholding]; rfl) ?_
      rw [hholding, count_cons_own]
      simp only [Worker.startsLeft]
      omega
    · cases hstep
  | complete worker =>
    obtain ⟨rfl, hother⟩ := hcalm
    simp only [BatchRememberQueue.step] at hstep
    split at hstep
    · rename_i raw hrunning
      cases hstep
      rw [hrunning] at hother
      have hown : own job raw = 0 := if_neg (of_decide_eq_false hother)
      refine hbalanced.carry (by rw [hrunning]; rfl) ?_ ?_
      · rw [hrunning]
        exact hown.symm
      · have hzero := startsLeft_of_own_zero retryLimit hown
        have hrunningLeft : (Worker.running raw).startsLeft retryLimit job = 0 := by
          rw [Worker.startsLeft, hzero, Nat.zero_sub]
        rw [hrunning, hrunningLeft]
        rfl
    · cases hstep
  | throws worker message =>
    obtain rfl : worker = 0 := hcalm
    simp only [BatchRememberQueue.step] at hstep
    split at hstep
    · rename_i raw hrunning
      cases hstep
      exact hbalanced.carry (by rw [hrunning]; rfl) (by rw [hrunning]; rfl)
        (by rw [hrunning]; rfl)
    · cases hstep
  | dispose worker now reply =>
    obtain ⟨rfl, rfl⟩ := hcalm
    simp only [BatchRememberQueue.step] at hstep
    split at hstep
    · rename_i raw message hfailed
      cases hstep
      exact hbalanced.dispose hfailed now
    · cases hstep
  | ack worker reply =>
    obtain ⟨rfl, rfl⟩ := hcalm
    simp only [BatchRememberQueue.step] at hstep
    split at hstep
    · rename_i raw hacking
      cases hstep
      exact hbalanced.ack hacking
    · cases hstep
  | stop worker =>
    obtain rfl : worker = 0 := hcalm
    simp only [BatchRememberQueue.step] at hstep
    split at hstep
    · rename_i hidle
      cases hstep
      exact hbalanced.settle (by rw [hidle]; rfl) (by rw [hidle]; rfl) rfl rfl
    · cases hstep
  | crash worker => exact hcalm.elim
  | stray place => exact hcalm.elim

omit hbalanced in
theorem balanced_of_reachable
    (hreach : ((workers Params retryLimit).restrict (Calm job)).Reachable state) :
    Balanced retryLimit job state := by
  have hstart : ∀ origin, origin = initial -> Balanced retryLimit job origin := by
    rintro origin rfl
    constructor
    · rfl
    · intro envelope hmem
      cases hmem
    · intro raw hraw
      cases hraw
    · rfl
    · rfl
  have hkeep : ∀ before label after,
      ((workers Params retryLimit).restrict (Calm job)).Reachable before ->
        Balanced retryLimit job before ->
          ((workers Params retryLimit).restrict (Calm job)).step before label after ->
            Balanced retryLimit job after := by
    intro before label after _ hbalanced hstep
    exact hbalanced.step hstep.1 hstep.2
  exact hreach.invariant hstart hkeep

omit hbalanced in
theorem sum_deadOwn_pos_iff {dead : List (DeadEnvelope Params)} :
    0 < (dead.map (deadOwn job)).sum <-> ∃ letter ∈ dead, letter.job = job := by
  rw [List.sum_pos_iff_exists_pos_nat]
  constructor
  · rintro ⟨share, hshare, hpos⟩
    obtain ⟨letter, hmem, rfl⟩ := mem_map.mp hshare
    refine ⟨letter, hmem, ?_⟩
    by_contra hother
    exact absurd hpos (by rw [deadOwn, if_neg hother]; decide)
  · rintro ⟨letter, hmem, hjob⟩
    refine ⟨deadOwn job letter, mem_map_of_mem hmem, ?_⟩
    rw [deadOwn, if_pos hjob]
    exact Nat.one_pos

theorem Balanced.started_of_dead (honce : state.accepted.count job = 1)
    {letter : DeadEnvelope Params} (hmem : letter ∈ state.lists.dead) (hjob : letter.job = job) :
    state.started.count job = retryLimit + 1 := by
  have hdead := sum_deadOwn_pos_iff.mpr ⟨letter, hmem, hjob⟩
  have hcopies := hbalanced.copies
  have hstarts := hbalanced.starts
  have hqueue : (state.lists.queue.map (own job)).sum = 0 := by omega
  have hworker : (state.workers 0).own job = 0 := by omega
  rw [honce, sum_startsLeft_of_own_zero hqueue,
    Worker.startsLeft_of_own_zero retryLimit hworker] at hstarts
  omega

theorem Balanced.dead_of_drained (honce : state.accepted.count job = 1)
    (hqueue : state.lists.queue = []) (hprocessing : state.lists.processing = []) :
    ∃ letter ∈ state.lists.dead, letter.job = job := by
  have hcopies := hbalanced.copies
  have htaken := hbalanced.processing
  rw [hprocessing] at htaken
  have hworker : (state.workers 0).own job = 0 := by
    revert htaken
    cases state.workers 0 <;> intro htaken <;> first | rfl | cases htaken
  rw [honce, hqueue, hworker, map_nil, sum_nil] at hcopies
  exact sum_deadOwn_pos_iff.mp (by omega)

end

/-- An accepted job is in one of the lists unless a run of it has completed; and with one
instance, no crash and no failed call, a job whose runs throw is started one time more than
the limit before it is dead-lettered, and is dead-lettered once the lists are drained. -/
theorem jobs_kept_and_retried (Params : Type) [DecidableEq Params] (retryLimit : Nat) :
    (∀ state, (workers Params retryLimit).Reachable state ->
      ∀ job ∈ state.accepted, job ∈ state.completed \/ state.lists.Holds job) /\
    (∀ job state, ((workers Params retryLimit).restrict (Calm job)).Reachable state ->
      state.accepted.count job = 1 ->
        state.started.count job ≤ retryLimit + 1 /\
        (∀ letter ∈ state.lists.dead, letter.job = job ->
          state.started.count job = retryLimit + 1) /\
        (state.lists.queue = [] -> state.lists.processing = [] ->
          ∃ letter ∈ state.lists.dead, letter.job = job)) := by
  constructor
  · intro state hreach job hjob
    exact ((inv_of_reachable hreach).safe job hjob).imp_right present_iff_holds.mp
  · intro job state hreach honce
    have hbalanced := balanced_of_reachable hreach
    refine ⟨?_, fun letter hmem hjob => hbalanced.started_of_dead honce hmem hjob,
      hbalanced.dead_of_drained honce⟩
    have hstarts := hbalanced.starts
    rw [honce] at hstarts
    omega

def someJob : Job String := ⟨"brw-1", "fragments"⟩

def failingRun (now : Nat) : List (Label String) :=
  [.pop 0 .ok, .begin 0, .throws 0 "db down", .dispose 0 now .ok, .ack 0 .ok]

def twoFailingRuns : List (Label String) :=
  [.accept someJob 0 .ok, .start 0, .recover 0 .ok] ++ failingRun 1 ++ failingRun 2

theorem two_starts_with_one_retry : ∃ state : State String,
    ((workers String 1).restrict (Calm someJob)).Reachable state /\
      (someJob ∈ state.completed \/ state.lists.Holds someJob) /\
        state.started.count someJob = 2 := by
  have hrun : (System.follow (fun before label => if Calm someJob before label then
      step 1 before label else none) initial twoFailingRuns).map
        (fun state => (state.accepted, state.lists.dead.map DeadEnvelope.job)) =
          some ([someJob], [someJob]) := by decide +kernel
  obtain ⟨state, hfollow, hdata⟩ := Option.map_eq_some_iff.mp hrun
  obtain ⟨haccepted, hdead⟩ := Prod.mk.inj hdata
  have hrestricted : ((workers String 1).restrict (Calm someJob)).Run initial twoFailingRuns
      state := .of_follow_restrict (fun _ _ _ hstep => hstep) hfollow
  have hreach : ((workers String 1).restrict (Calm someJob)).Reachable state :=
    ⟨initial, twoFailingRuns, rfl, hrestricted⟩
  have hlisted : someJob ∈ state.lists.dead.map DeadEnvelope.job := hdead ▸ mem_cons_self
  obtain ⟨letter, hmem, hjob⟩ := mem_map.mp hlisted
  obtain ⟨hkept, hretried⟩ := jobs_kept_and_retried String 1
  have honce : state.accepted.count someJob = 1 := by rw [haccepted]; decide
  refine ⟨state, hreach, ?_, (hretried someJob state hreach honce).2.1 letter hmem hjob⟩
  exact hkept state ⟨initial, twoFailingRuns, rfl, hrestricted.ofRestrict⟩ someJob
    (haccepted ▸ mem_cons_self)

end AnchorMind.Write.BatchRememberQueue
