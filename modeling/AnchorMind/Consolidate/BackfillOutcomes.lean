import AnchorMind.Consolidate.BackfillRuns
import Mathlib.Data.String.Basic

/-!
# What a backfill guarantees

Between restarts the watermark only moves forward, and a run that does not find it where
it left it stops without touching it.  A job is completed only when every row that
stayed a candidate has been updated or is among the recorded failures.  A restart that
nothing overlaps begins anew.
-/

namespace AnchorMind.Consolidate.ResumableBackfill

open Kernel.KeyedTable Kernel.Transition.System

section

variable {Id Row Params Clock Runner : Type} [LinearOrder Id] [OrderBot Id] [DecidableEq Runner]
  {spec : Spec Id Row Params Clock} {state after : State spec Runner} {runner : Runner}
  {loop : Loop Id Clock}

def NotBack (before after : Option (Watermark Id)) : Prop :=
  ∀ mark, before = some mark -> ∃ later, after = some later /\ mark.lastId ≤ later.lastId

section

variable {prepared : Prepared Id Params}

omit [OrderBot Id] in
theorem NotBack.refl (mark : Option (Watermark Id)) : NotBack mark mark :=
  fun stored hstored => ⟨stored, hstored, le_rfl⟩

omit [OrderBot Id] in
theorem NotBack.trans {first middle last : Option (Watermark Id)} (hfirst : NotBack first middle)
    (hlast : NotBack middle last) : NotBack first last := by
  intro mark hmark
  obtain ⟨later, hlater, hle⟩ := hfirst mark hmark
  obtain ⟨latest, hlatest, hlater'⟩ := hlast later hlater
  exact ⟨latest, hlatest, hle.trans hlater'⟩

@[simp]
theorem finishBatch_watermark {lastId : LastId Id} {batch : Batch Id} :
    (finishBatch state runner loop lastId batch).watermark = state.watermark := by
  unfold finishBatch
  split <;> rfl

variable {error : Option DbError}

@[simp]
theorem lockBatch_watermark :
    (lockBatch state runner loop prepared error).watermark = state.watermark := by
  cases error with
  | none => exact finishBatch_watermark
  | some err =>
    simp only [lockBatch]
    split <;> rfl

@[simp]
theorem splitBatch_watermark :
    (splitBatch state runner loop prepared).watermark = state.watermark := by
  unfold splitBatch
  dsimp only
  split <;> rfl

@[simp]
theorem updateRow_watermark {id : Id} {ids : List Id} {batch : Batch Id} :
    (updateRow state runner loop prepared id ids batch error).watermark = state.watermark := by
  cases error with
  | none => rfl
  | some err =>
    simp only [updateRow]
    split <;> rfl

@[simp]
theorem readWatermark_watermark {batchSize : Nat} {clock : Clock} :
    (readWatermark state runner batchSize clock).watermark = state.watermark := by
  unfold readWatermark
  split
  · rfl
  · split <;> rfl

@[simp]
theorem nextBatch_watermark :
    (nextBatch state runner loop prepared).watermark = state.watermark := by
  unfold nextBatch
  split
  · rfl
  · rfl
  · split <;> rfl

@[simp]
theorem failRetry_watermark {retry : Retry Clock} {id : Id} {ids : List Id} {err : DbError} :
    (failRetry state runner retry id ids err).watermark = state.watermark := by
  unfold failRetry
  split <;> rfl

theorem saveWatermark_notBack {n failed : Nat} {nextId : Id} (hafter : loop.lastId < nextId) :
    NotBack state.watermark (saveWatermark state runner loop n failed nextId).watermark := by
  unfold saveWatermark
  split
  · rename_i mark hmark
    split
    · rename_i hunmoved
      intro stored hstored
      obtain rfl : mark = stored := Option.some.inj (hmark.symm.trans hstored)
      exact ⟨_, rfl, hunmoved.1.trans_le hafter.le⟩
    · exact .refl _
  · exact .refl _

theorem markCompleted_notBack :
    NotBack state.watermark (markCompleted state runner loop).watermark := by
  unfold markCompleted
  split
  · rename_i mark hmark
    split
    · intro stored hstored
      obtain rfl : mark = stored := Option.some.inj (hmark.symm.trans hstored)
      exact ⟨_, rfl, le_rfl⟩
    · exact .refl _
  · exact .refl _

theorem advance_notBack (hahead : AllAhead state) (hresumes : Resumes state (.advance runner))
    (hadvance : advance state runner = some after) : NotBack state.watermark after.watermark := by
  have hphase := hahead runner
  unfold advance at hadvance
  simp only [Resumes] at hresumes
  split at hadvance
  case h_1 batchSize hclearing =>
      rw [hclearing] at hresumes
      exact hresumes.elim
  case h_2 batchSize hresetting =>
      rw [hresetting] at hresumes
      exact hresumes.elim
  case h_3 batchSize _ =>
      cases hadvance
      intro mark hmark
      exact ⟨mark, by simp [State.enter, hmark], le_rfl⟩
  case h_5 =>
      cases hadvance
      rw [splitBatch_watermark]
      exact .refl _
  case h_6 =>
      cases hadvance
      rw [finishBatch_watermark]
      exact .refl _
  case h_8 loop n failed nextId hsaving =>
      cases hadvance
      rw [hsaving] at hphase
      exact saveWatermark_notBack hphase
  case h_9 =>
      cases hadvance
      exact markCompleted_notBack
  case h_14 => cases hadvance
  case h_4 =>
      split at hadvance
      · cases hadvance
        exact .refl _
      · cases hadvance
  case h_11 =>
      split at hadvance
      · cases hadvance
        exact .refl _
      · cases hadvance
  all_goals
    cases hadvance
    exact .refl _

theorem step_notBack {label : Label spec Runner} (hahead : AllAhead state)
    (hresumes : Resumes state label) (hstep : step state label = some after) :
    NotBack state.watermark after.watermark := by
  cases label with
  | advance runner => exact advance_notBack hahead hresumes hstep
  | start runner restart batchSize =>
    simp only [step] at hstep
    split at hstep
    · cases hstep
    · cases hstep
      exact .refl _
  | retry runner =>
    simp only [step] at hstep
    split at hstep
    · cases hstep
    · cases hstep
      exact .refl _
  | load runner clock =>
    simp only [step] at hstep
    split at hstep
    · cases hstep
      rw [readWatermark_watermark]
      exact .refl _
    · cases hstep
      exact .refl _
    · cases hstep
  | prepare runner prepared =>
    simp only [step] at hstep
    split at hstep
    · cases hstep
      rw [nextBatch_watermark]
      exact .refl _
    · cases hstep
      exact .refl _
    · cases hstep
  | update runner error =>
    simp only [step] at hstep
    split at hstep
    case h_1 =>
        cases hstep
        rw [lockBatch_watermark]
        exact .refl _
    case h_2 =>
        cases hstep
        rw [updateRow_watermark]
        exact .refl _
    case h_3 =>
        cases hstep
        exact .refl _
    case h_4 =>
        split at hstep
        · cases hstep
        · cases hstep
          rw [failRetry_watermark]
          exact .refl _
    case h_7 => cases hstep
    all_goals
      cases hstep
      rw [failRetry_watermark]
      exact .refl _
  | crash runner =>
    cases hstep
    exact .refl _
  | write rows =>
    cases hstep
    exact .refl _

theorem run_notBack {first last : State spec Runner} {labels : List (Label spec Runner)}
    (hreach : (system Runner spec).Reachable first)
    (hrun : ((system Runner spec).restrict Resumes).Run first labels last) :
    NotBack first.watermark last.watermark := by
  induction hrun with
  | nil => exact .refl _
  | cons hstep _ ih =>
    obtain ⟨⟨hmove, hprepares⟩, hresumes⟩ := hstep
    have hfirst := step_notBack (ahead_of_reachable hreach) hresumes hmove
    exact hfirst.trans (ih (hreach.step ⟨hmove, hprepares⟩))

end

def Moved (state : State spec Runner) (loop : Loop Id Clock) : Prop :=
  ∀ mark, state.watermark = some mark -> mark.lastId = loop.lastId -> mark.status = .completed

def Settles (phase : Phase Id Params Clock) (loop : Loop Id Clock) : Prop :=
  phase = .completing loop \/ ∃ n failed nextId, phase = .saving loop n failed nextId

theorem saveWatermark_moved (hmoved : Moved state loop) (n failed : Nat) (nextId : Id) :
    saveWatermark state runner loop n failed nextId =
      state.enter runner (.ended .concurrentRun) := by
  unfold saveWatermark
  split
  · rename_i mark hmark
    apply if_neg
    rintro ⟨hlast, hstatus⟩
    rw [hmoved mark hmark hlast] at hstatus
    cases hstatus
  · rfl

theorem markCompleted_moved (hmoved : Moved state loop) :
    markCompleted state runner loop = state.enter runner (.ended .concurrentRun) := by
  unfold markCompleted
  split
  · rename_i mark hmark
    apply if_neg
    rintro ⟨hlast, hstatus⟩
    rw [hmoved mark hmark hlast] at hstatus
    cases hstatus
  · rfl

theorem step_of_moved (hsettles : Settles (state.phase runner) loop) (hmoved : Moved state loop) :
    step state (.advance runner) = some (state.enter runner (.ended .concurrentRun)) := by
  rcases hsettles with hphase | ⟨n, failed, nextId, hphase⟩
  · simp only [step, advance, hphase]
    rw [markCompleted_moved hmoved]
  · simp only [step, advance, hphase]
    rw [saveWatermark_moved hmoved]

/-- A restart through both of its deletes, with no other run or retry under way, leaves
the job as if it had never run. -/
theorem fresh_of_restart (hahead : AllAhead state) {batchSize : Nat}
    (hphase : state.phase runner = .resetting batchSize)
    (halone : ∀ other, other ≠ runner -> isActive (state.phase other) = false)
    (hstep : step state (.advance runner) = some after) : Fresh after := by
  simp only [step, advance, hphase] at hstep
  cases hstep
  have hsized := hahead runner
  rw [hphase] at hsized
  refine ⟨rfl, rfl, fun other => ?_⟩
  dsimp only [State.enter]
  by_cases hother : other = runner
  · rw [hother, Function.update_self]
    exact hsized
  · rw [Function.update_of_ne hother]
    have hquiet := halone other hother
    cases hidle : state.phase other with
    | idle => trivial
    | ended outcome => trivial
    | _ =>
      rw [hidle] at hquiet
      cases hquiet

/-- What every job may rely on, whichever runs and retries overlap and wherever they are
stopped. -/
theorem backfill_guarantees (Runner : Type) [DecidableEq Runner] (spec : Spec Id Row Params Clock) :
    (∀ (first last : State spec Runner) (labels : List (Label spec Runner)),
      (system Runner spec).Reachable first ->
        ((system Runner spec).restrict Resumes).Run first labels last ->
          NotBack first.watermark last.watermark) /\
    (∀ (id : Id) (state : State spec Runner) (mark : Watermark Id),
      (throughout Runner spec id).Reachable state -> state.watermark = some mark ->
        mark.status = .completed -> Covered id state) /\
    (∀ (runner : Runner) (loop : Loop Id Clock) (state : State spec Runner),
      Settles (state.phase runner) loop -> Moved state loop ->
        step state (.advance runner) = some (state.enter runner (.ended .concurrentRun))) /\
    (∀ (runner : Runner) (batchSize : Nat) (state after : State spec Runner),
      (system Runner spec).Reachable state -> state.phase runner = .resetting batchSize ->
        (∀ other, other ≠ runner -> isActive (state.phase other) = false) ->
          step state (.advance runner) = some after -> Fresh after) := by
  refine ⟨?_, ?_, ?_, ?_⟩
  · intro first last labels hreach hrun
    exact run_notBack hreach hrun
  · intro id state mark hreach hmark hstatus
    exact (sound_of_reachable hreach).finished mark hmark hstatus
  · intro runner loop state hsettles hmoved
    exact step_of_moved hsettles hmoved
  · intro runner batchSize state after hreach hphase halone hstep
    exact fresh_of_restart (ahead_of_reachable hreach) hphase halone hstep

end

section

instance emptyBelow : OrderBot String where
  bot := ""
  bot_le text := by
    rw [String.le_iff_toList_le]
    exact not_lt.mp (List.not_lt_nil _)

structure Task where
  name : String
  done : Bool
  deriving DecidableEq

def taskSpec : Spec String Task Unit Unit where
  id := Task.name
  selects _ _ task := !task.done
  sets _ _ task := { task with done := true }
  keepsId _ _ _ := rfl
  source := .fixed ()
  greater later earlier := decide (earlier < later)

def twoTasks : State taskSpec Bool where
  rows := ⟨[⟨"a", false⟩, ⟨"b", false⟩], by decide, by decide +kernel⟩
  watermark := none
  failures := Table.empty
  phase := fun _ => .idle
  updated := []

theorem twoTasks_fresh : Fresh twoTasks := ⟨rfl, rfl, fun _ => trivial⟩

def duplicateKey : DbError := ⟨some "23505", some "uq_tasks"⟩

def firstBatch : List (Label taskSpec Bool) :=
  [.start false false 1, .advance false, .load false (), .advance false, .update false none,
    .advance false]

def secondBatch : List (Label taskSpec Bool) :=
  [.advance false, .update false (some duplicateKey), .advance false,
    .update false (some duplicateKey), .advance false, .advance false, .advance false,
    .advance false, .update false none, .advance false]

def restarted : List (Label taskSpec Bool) :=
  [.start true true 1, .advance true, .advance true, .advance true]

theorem inView_undone (name : String) (phase : Phase String Unit Unit) :
    InView taskSpec ⟨name, false⟩ phase := by
  cases phase with
  | batching loop => exact rfl
  | retrying retry ids => exact rfl
  | locking loop prepared => exact fun _ => rfl
  | splitting loop prepared => exact fun _ => rfl
  | rowwise loop prepared ids batch => exact fun _ => rfl
  | retryLocking retry id prepared ids => exact fun _ => rfl
  | _ => trivial

instance {state : State taskSpec Bool} {label : Label taskSpec Bool} :
    Decidable (Resumes state label) := by
  unfold Resumes
  split
  · split <;> infer_instance
  · infer_instance

/-- The steps in which the second fragment is not done and nothing is restarted. -/
def undoneStep (state : State taskSpec Bool) (label : Label taskSpec Bool) :
    Option (State taskSpec Bool) :=
  if Resumes state label /\ ⟨"b", false⟩ ∈ state.rows.rows then step state label else none

variable {before after : State taskSpec Bool} {label : Label taskSpec Bool}

theorem task_prepares (hstep : step before label = some after) : Prepares before label := by
  cases label with
  | prepare runner prepared =>
    simp only [step] at hstep
    split at hstep
    · rename_i hsource _
      cases hsource
    · rename_i hsource _
      cases hsource
    · cases hstep
  | _ => trivial

theorem task_step (hstep : step before label = some after) :
    (system Bool taskSpec).step before label after :=
  ⟨hstep, task_prepares hstep⟩

theorem undoneStep_step (hstep : undoneStep before label = some after) :
    (throughout Bool taskSpec "b").step before label after := by
  unfold undoneStep at hstep
  split at hstep
  · rename_i hkept
    exact ⟨task_step hstep, hkept.1, Or.inr ⟨_, hkept.2, rfl, fun _ => inView_undone _ _⟩⟩
  · cases hstep

/-- The completed job has a record of the fragment that could not be updated. -/
theorem backfill_guarantees_twoTasks :
    ∃ state mark, (throughout Bool taskSpec "b").Reachable state /\
      state.watermark = some mark /\ mark.status = .completed /\ Covered "b" state := by
  have hmark : (follow undoneStep twoTasks (firstBatch ++ secondBatch)).map State.watermark =
      some (some ⟨"b", 1, .completed⟩) := by decide +kernel
  obtain ⟨state, hfollow, hmark⟩ := Option.map_eq_some_iff.mp hmark
  have hstart : (throughout Bool taskSpec "b").Reachable twoTasks := .ofStart twoTasks_fresh
  have hreach := hstart.run (.of_follow (fun _ _ _ => undoneStep_step) hfollow)
  exact ⟨state, _, hreach, hmark, rfl,
    (backfill_guarantees Bool taskSpec).2.1 "b" state _ hreach hmark rfl⟩

/-- A restart brings the stored watermark back to the beginning. -/
theorem restart_moves_back :
    ∃ first last before after, (system Bool taskSpec).Reachable first /\
      (system Bool taskSpec).Run first restarted last /\ first.watermark = some before /\
        last.watermark = some after /\ after.lastId < before.lastId := by
  have hbefore : (follow step twoTasks firstBatch).map State.watermark =
      some (some ⟨"a", 1, .running⟩) := by decide +kernel
  have hafter : ((follow step twoTasks firstBatch).bind fun first =>
      follow step first restarted).map State.watermark =
        some (some ⟨"", 0, .running⟩) := by decide +kernel
  obtain ⟨first, hfirst, hbefore⟩ := Option.map_eq_some_iff.mp hbefore
  rw [hfirst, Option.bind_some] at hafter
  obtain ⟨last, hlast, hafter⟩ := Option.map_eq_some_iff.mp hafter
  have hstart : (system Bool taskSpec).Reachable twoTasks := .ofStart twoTasks_fresh
  have hreach := hstart.run (.of_follow (fun _ _ _ => task_step) hfirst)
  have hrun : (system Bool taskSpec).Run first restarted last :=
    .of_follow (fun _ _ _ => task_step) hlast
  exact ⟨first, last, _, _, hreach, hrun, hbefore, hafter, by decide +kernel⟩

end

end AnchorMind.Consolidate.ResumableBackfill
