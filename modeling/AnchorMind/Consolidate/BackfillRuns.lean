import AnchorMind.Consolidate.ResumableBackfill

/-!
# What the runs of a backfill deal with

A row that stays a candidate is dealt with before a watermark is moved past it: it has
been updated, or it is among the recorded failures.  The invariant says of each run what
it knows of the row before its next statement, so it does not matter where runs and
retries are stopped or how they overlap.
-/

namespace AnchorMind.Consolidate.ResumableBackfill

open Kernel.KeyedTable Kernel.Transition Kernel.Transition.System List Function

section

variable {Id Row Params Clock Runner : Type} [LinearOrder Id] [OrderBot Id]
  {spec : Spec Id Row Params Clock} {state after : State spec Runner} {id : Id}

/-- The row matches the condition of the backfill, as far as a run looks at it: when the
next batch is read, and when a batch it was read into is locked. -/
def InView (spec : Spec Id Row Params Clock) (row : Row) (phase : Phase Id Params Clock) : Prop :=
  match phase with
  | .batching loop => spec.candidate loop.clock row = true
  | .locking loop prepared => prepared.lastId.Has (spec.id row) ->
      spec.selects prepared.params loop.clock row = true
  | .splitting loop prepared => prepared.lastId.Has (spec.id row) ->
      spec.selects prepared.params loop.clock row = true
  | .rowwise loop prepared _ _ => prepared.lastId.Has (spec.id row) ->
      spec.selects prepared.params loop.clock row = true
  | .retrying retry _ => spec.candidate retry.clock row = true
  | .retryLocking retry _ prepared _ => prepared.lastId.Has (spec.id row) ->
      spec.selects prepared.params retry.clock row = true
  | _ => True

def Stays (id : Id) (state : State spec Runner) : Prop :=
  id ∈ state.updated \/ ∃ row ∈ state.rows, spec.id row = id /\
    ∀ runner, InView spec row (state.phase runner)

theorem Stays.view (hstays : Stays id state) (runner : Runner) :
    id ∈ state.updated \/ ∃ row ∈ state.rows, spec.id row = id /\
      InView spec row (state.phase runner) := by
  refine hstays.imp_right ?_
  rintro ⟨row, hrow, hid, hview⟩
  exact ⟨row, hrow, hid, hview runner⟩

/-- No restart deletes what is stored. -/
def Resumes (state : State spec Runner) (label : Label spec Runner) : Prop :=
  match label with
  | .advance runner =>
    match state.phase runner with
    | .clearing _ => False
    | .resetting _ => False
    | _ => True
  | _ => True

def Covered (id : Id) (state : State spec Runner) : Prop :=
  id ∈ state.updated \/ ∃ failure ∈ state.failures, failure.rowId = id

section

variable {rows : spec.Rows} {params : Params} {clock : Clock} {afterId other : Id}
  {onlyId : Option Id} {batchSize : Nat} {loop : Loop Id Clock} {prepared : Prepared Id Params}

theorem lt_of_mem_lockedIds
    (hother : other ∈ lockedIds state params clock afterId onlyId batchSize) : afterId < other := by
  obtain ⟨row, hrow, rfl⟩ := mem_map.mp hother
  have hselect := (Table.mem_of_mem_firstRows hrow).2
  simp only [Bool.and_eq_true, decide_eq_true_eq] at hselect
  exact hselect.1.2

theorem mem_lockedIds_only {row : Row} (hrow : row ∈ state.rows)
    (hselects : spec.selects params clock row = true) (hsize : 1 ≤ batchSize) :
    spec.id row ∈ lockedIds state params clock ⊥ (some (spec.id row)) batchSize := by
  apply mem_map_of_mem
  apply Table.mem_firstRows_of_length_le hrow
  · have hbot : ⊥ < spec.id row := bot_lt_iff_ne_bot.mpr (state.rows.checked row hrow)
    simp [hselects, hbot]
  · refine le_trans (b := [spec.id row].length) (Table.length_filter_le_of_named ?_) hsize
    intro other hother
    simp only [Bool.and_eq_true, Option.all_some, decide_eq_true_eq] at hother
    exact mem_singleton.mpr hother.2

def NotBelow (id : Id) (lastId : LastId Id) (locked : Option Id) : Prop :=
  ∀ nextId, lastId.orElse locked = some nextId -> id ≤ nextId

omit [OrderBot Id] in
theorem NotBelow.reaches {lastId : LastId Id} {locked : Option Id}
    (hbelow : NotBelow id lastId locked) : lastId.Reaches id := by
  cases lastId with
  | upTo last ids => exact hbelow last rfl
  | undefined => trivial
  | null => trivial

/-- Where a batch stands to the row: it is behind the watermark and dealt with, or the
batch was prepared with it unless its last id is before it. -/
structure InBatch (id : Id) (covered updated : Prop) (loop : Loop Id Clock)
    (prepared : Prepared Id Params) : Prop where
  sized : 1 ≤ loop.batchSize
  passed : id ≤ loop.lastId -> covered
  has : loop.lastId < id -> prepared.lastId.Reaches id -> updated \/ prepared.lastId.Has id

theorem InBatch.selects {covered : Prop}
    (hbatch : InBatch id covered (id ∈ state.updated) loop prepared)
    (hupdated : id ∈ state.updated -> covered) (hreaches : prepared.lastId.Reaches id)
    (hstays : id ∈ state.updated \/ ∃ row ∈ state.rows, spec.id row = id /\
      (prepared.lastId.Has (spec.id row) ->
        spec.selects prepared.params loop.clock row = true)) :
    covered \/ loop.lastId < id /\ prepared.lastId.Has id /\ ∃ row ∈ state.rows,
      spec.id row = id /\ spec.selects prepared.params loop.clock row = true := by
  by_contra hneither
  obtain ⟨hnot, hopen⟩ := not_or.mp hneither
  have hafter : loop.lastId < id := not_le.mp fun hbefore => hnot (hbatch.passed hbefore)
  have hhas := (hbatch.has hafter hreaches).resolve_left fun hmem => hnot (hupdated hmem)
  obtain ⟨row, hrow, hid, hview⟩ := hstays.resolve_left fun hmem => hnot (hupdated hmem)
  exact hopen ⟨hafter, hhas, row, hrow, hid, hview (by rwa [hid])⟩

theorem mem_lockedIds_of_notBelow {row : Row} (hrow : row ∈ state.rows)
    (hselects : spec.selects prepared.params loop.clock row = true) (hsized : 1 ≤ loop.batchSize)
    (hfits : Fits spec loop prepared) (hafter : loop.lastId < spec.id row)
    (hhas : prepared.lastId.Has (spec.id row))
    (hbelow : NotBelow (spec.id row) prepared.lastId
      (lockedIds state prepared.params loop.clock loop.lastId none loop.batchSize).getLast?) :
    spec.id row ∈ lockedIds state prepared.params loop.clock loop.lastId none loop.batchSize := by
  have hselect : (spec.selects prepared.params loop.clock row &&
      decide (loop.lastId < spec.id row) &&
        (none : Option Id).all fun id => decide (spec.id row = id)) = true := by
    simp [hselects, hafter]
  apply mem_map_of_mem
  cases hlast : prepared.lastId with
  | null =>
    rw [hlast] at hhas
    exact hhas.elim
  | upTo last ids =>
    simp only [Fits, hlast] at hfits
    apply Table.mem_firstRows_of_length_le hrow hselect
    refine le_trans (Table.length_filter_le_of_named ?_) hfits.2.1
    intro other hother
    simp only [Bool.and_eq_true] at hother
    exact hfits.2.2 other hother.1.1
  | undefined =>
    rw [hlast] at hbelow
    cases hlocked : (lockedIds state prepared.params loop.clock loop.lastId none
        loop.batchSize).getLast? with
    | none =>
      have hnil := map_eq_nil_iff.mp (getLast?_eq_none_iff.mp hlocked)
      have hnone := Table.select_eq_false_of_firstRows_eq_nil hsized hnil hrow
      rw [hselect] at hnone
      cases hnone
    | some last =>
      obtain ⟨other, hother, rfl⟩ := mem_map.mp (mem_of_getLast? hlocked)
      exact Table.mem_firstRows_of_le hrow hselect hother (hbelow _ hlocked)

theorem lt_of_orElse {nextId : Id} (hfits : Fits spec loop prepared)
    (hsome : prepared.lastId.orElse
      (lockedIds state prepared.params loop.clock loop.lastId none loop.batchSize).getLast? =
        some nextId) : loop.lastId < nextId := by
  cases hlast : prepared.lastId with
  | upTo last ids =>
    simp only [Fits, hlast] at hfits
    simp only [hlast, LastId.orElse, Option.some.injEq] at hsome
    exact hsome ▸ hfits.1
  | undefined =>
    rw [hlast] at hsome
    exact lt_of_mem_lockedIds (mem_of_getLast? hsome)
  | null =>
    rw [hlast] at hsome
    exact lt_of_mem_lockedIds (mem_of_getLast? hsome)

theorem InBatch.closes {covered : Prop}
    (hbatch : InBatch id covered (id ∈ state.updated) loop prepared)
    (hfits : Fits spec loop prepared) (hupdated : id ∈ state.updated -> covered)
    (hstays : id ∈ state.updated \/ ∃ row ∈ state.rows, spec.id row = id /\
      (prepared.lastId.Has (spec.id row) ->
        spec.selects prepared.params loop.clock row = true))
    (hbelow : NotBelow id prepared.lastId
      (lockedIds state prepared.params loop.clock loop.lastId none loop.batchSize).getLast?) :
    covered \/ id ∈ lockedIds state prepared.params loop.clock loop.lastId none
      loop.batchSize := by
  refine (hbatch.selects hupdated hbelow.reaches hstays).imp_right ?_
  rintro ⟨hafter, hhas, row, hrow, rfl, hselects⟩
  exact mem_lockedIds_of_notBelow hrow hselects hbatch.sized hfits hafter hhas hbelow

end

/-- The watermark a batch is to be moved to is after the one it was read from, and a
restart goes on with the size it was given. -/
def Ahead (spec : Spec Id Row Params Clock) (phase : Phase Id Params Clock) : Prop :=
  match phase with
  | .locking loop prepared => Fits spec loop prepared
  | .splitting loop prepared => Fits spec loop prepared
  | .rowwise loop prepared _ batch => ∀ nextId,
      prepared.lastId.orElse batch.lastId = some nextId -> loop.lastId < nextId
  | .recording loop prepared _ _ _ batch => ∀ nextId,
      prepared.lastId.orElse batch.lastId = some nextId -> loop.lastId < nextId
  | .saving loop _ _ nextId => loop.lastId < nextId
  | .clearing batchSize => 1 ≤ batchSize
  | .resetting batchSize => 1 ≤ batchSize
  | _ => True

def AllAhead (state : State spec Runner) : Prop :=
  ∀ runner, Ahead spec (state.phase runner)

section

variable [DecidableEq Runner] {runner : Runner} {phase : Phase Id Params Clock}
  {loop : Loop Id Clock} {prepared : Prepared Id Params}

section

variable (hahead : AllAhead state)
include hahead

theorem AllAhead.enter (hphase : Ahead spec phase) : AllAhead (state.enter runner phase) := by
  intro other
  change Ahead spec (update state.phase runner phase other)
  by_cases hother : other = runner
  · rw [hother, update_self]
    exact hphase
  · rw [update_of_ne hother]
    exact hahead other

theorem finishBatch_ahead {lastId : LastId Id} {batch : Batch Id}
    (hafter : ∀ nextId, lastId.orElse batch.lastId = some nextId -> loop.lastId < nextId) :
    AllAhead (finishBatch state runner loop lastId batch) := by
  unfold finishBatch
  split
  · exact hahead.enter trivial
  · rename_i nextId hsome
    exact hahead.enter (hafter nextId hsome)

variable {error : Option DbError}

theorem lockBatch_ahead (hfits : Fits spec loop prepared) :
    AllAhead (lockBatch state runner loop prepared error) := by
  cases error with
  | none =>
    have hupdated : AllAhead (updateIds state prepared.params loop.clock (lockedIds state
        prepared.params loop.clock loop.lastId none loop.batchSize)) := hahead
    exact finishBatch_ahead hupdated fun nextId => lt_of_orElse hfits
  | some err =>
    simp only [lockBatch]
    split
    · exact hahead.enter hfits
    · exact hahead.enter trivial

theorem splitBatch_ahead (hfits : Fits spec loop prepared) :
    AllAhead (splitBatch state runner loop prepared) := by
  unfold splitBatch
  dsimp only
  split
  · exact hahead.enter trivial
  · rename_i last hlast
    apply hahead.enter
    rw [<- hlast]
    exact fun nextId => lt_of_orElse hfits

theorem updateRow_ahead {id : Id} {ids : List Id} {batch : Batch Id}
    (hafter : ∀ nextId, prepared.lastId.orElse batch.lastId = some nextId -> loop.lastId < nextId) :
    AllAhead (updateRow state runner loop prepared id ids batch error) := by
  cases error with
  | none => exact AllAhead.enter hahead hafter
  | some err =>
    simp only [updateRow]
    split
    · exact hahead.enter hafter
    · exact hahead.enter trivial

theorem failRetry_ahead {retry : Retry Clock} {id : Id} {ids : List Id} {err : DbError} :
    AllAhead (failRetry state runner retry id ids err) := by
  unfold failRetry
  split <;> exact hahead.enter trivial

theorem nextBatch_ahead (hfits : Fits spec loop prepared) :
    AllAhead (nextBatch state runner loop prepared) := by
  unfold nextBatch
  split
  · exact hahead.enter trivial
  · exact hahead.enter trivial
  · split
    · exact hahead.enter hfits
    · exact hahead.enter trivial

theorem readWatermark_ahead {batchSize : Nat} {clock : Clock} :
    AllAhead (readWatermark state runner batchSize clock) := by
  unfold readWatermark
  split
  · exact hahead.enter trivial
  · split <;> exact hahead.enter trivial

theorem saveWatermark_ahead {n failed : Nat} {nextId : Id} :
    AllAhead (saveWatermark state runner loop n failed nextId) := by
  unfold saveWatermark
  split
  · split
    · exact AllAhead.enter hahead trivial
    · exact hahead.enter trivial
  · exact hahead.enter trivial

theorem markCompleted_ahead : AllAhead (markCompleted state runner loop) := by
  unfold markCompleted
  split
  · split
    · exact AllAhead.enter hahead trivial
    · exact hahead.enter trivial
  · exact hahead.enter trivial

theorem advance_ahead (hadvance : advance state runner = some after) : AllAhead after := by
  have hphase := hahead runner
  unfold advance at hadvance
  split at hadvance
  case h_1 batchSize hclearing =>
      cases hadvance
      rw [hclearing] at hphase
      exact AllAhead.enter hahead hphase
  case h_4 loop hbatching =>
      split at hadvance
      · cases hadvance
        exact hahead.enter trivial
      · cases hadvance
  case h_5 loop prepared hsplitting =>
      cases hadvance
      rw [hsplitting] at hphase
      exact splitBatch_ahead hahead hphase
  case h_6 loop prepared batch hrowwise =>
      cases hadvance
      rw [hrowwise] at hphase
      exact finishBatch_ahead hahead hphase
  case h_7 loop prepared id err ids batch hrecording =>
      cases hadvance
      rw [hrecording] at hphase
      exact AllAhead.enter hahead hphase
  case h_8 loop n failed nextId _ =>
      cases hadvance
      exact saveWatermark_ahead hahead
  case h_9 loop _ =>
      cases hadvance
      exact markCompleted_ahead hahead
  case h_11 retry id ids _ =>
      split at hadvance
      · cases hadvance
        exact hahead.enter trivial
      · cases hadvance
  case h_14 => cases hadvance
  all_goals
    cases hadvance
    exact AllAhead.enter hahead trivial

omit hahead in
omit [LinearOrder Id] [OrderBot Id] [DecidableEq Runner] in
theorem one_le_of_starts {runner : Runner} {phase : Runner -> Phase Id Params Clock}
    {batchSize : Nat} (hstarts : Not ((isActive (phase runner) || decide (batchSize < 1)) = true)) :
    1 ≤ batchSize := by
  by_contra hzero
  exact hstarts (by simp [Nat.lt_of_not_le hzero])

theorem step_ahead {label : Label spec Runner} (hprepares : Prepares state label)
    (hstep : step state label = some after) : AllAhead after := by
  cases label with
  | start runner restart batchSize =>
    simp only [step] at hstep
    split at hstep
    · cases hstep
    · rename_i hstarts
      cases hstep
      cases restart with
      | true => exact hahead.enter (one_le_of_starts hstarts)
      | false => exact hahead.enter trivial
  | retry runner =>
    simp only [step] at hstep
    split at hstep
    · cases hstep
    · cases hstep
      exact hahead.enter trivial
  | advance runner => exact advance_ahead hahead hstep
  | load runner clock =>
    simp only [step] at hstep
    split at hstep
    · cases hstep
      exact readWatermark_ahead hahead
    · cases hstep
      exact hahead.enter trivial
    · cases hstep
  | prepare runner prepared =>
    simp only [step] at hstep
    split at hstep
    · rename_i hphase
      cases hstep
      simp only [Prepares, hphase] at hprepares
      exact nextBatch_ahead hahead hprepares.1
    · cases hstep
      exact hahead.enter trivial
    · cases hstep
  | update runner error =>
    have hphase := hahead runner
    simp only [step] at hstep
    split at hstep
    case h_1 hlocking =>
        cases hstep
        rw [hlocking] at hphase
        exact lockBatch_ahead hahead hphase
    case h_2 loop prepared id ids batch error hrowwise =>
        cases hstep
        rw [hrowwise] at hphase
        exact updateRow_ahead hahead hphase
    case h_3 =>
        cases hstep
        exact AllAhead.enter hahead trivial
    case h_4 =>
        split at hstep
        · cases hstep
        · cases hstep
          exact failRetry_ahead hahead
    case h_7 => cases hstep
    all_goals
      cases hstep
      exact failRetry_ahead hahead
  | crash runner =>
    cases hstep
    exact hahead.enter trivial
  | write rows =>
    cases hstep
    exact hahead

end

theorem ahead_of_reachable (hreach : (system Runner spec).Reachable state) : AllAhead state := by
  apply Reachable.invariant _ _ hreach
  · rintro start ⟨-, -, hphases⟩ runner
    have hphase := hphases runner
    cases hstart : start.phase runner with
    | idle => trivial
    | ended outcome => trivial
    | creating batchSize => trivial
    | _ =>
      rw [hstart] at hphase
      exact hphase.elim
  · rintro before label after - hahead ⟨hstep, hprepares⟩
    exact step_ahead hahead hprepares hstep

end

/-- What a run knows of the row before its next statement. -/
def Safe (id : Id) (covered updated : Prop)
    (phase : Phase Id Params Clock) : Prop :=
  match phase with
  | .creating batchSize => 1 ≤ batchSize
  | .loading batchSize => 1 ≤ batchSize
  | .batching loop => 1 ≤ loop.batchSize /\ (id ≤ loop.lastId -> covered)
  | .locking loop prepared => InBatch id covered updated loop prepared
  | .splitting loop prepared => InBatch id covered updated loop prepared
  | .rowwise loop prepared ids batch => InBatch id covered updated loop prepared /\
      (NotBelow id prepared.lastId batch.lastId -> covered \/ id ∈ ids)
  | .recording loop prepared failing _ ids batch => InBatch id covered updated loop prepared /\
      (NotBelow id prepared.lastId batch.lastId -> covered \/ id ∈ failing :: ids)
  | .saving loop _ _ nextId => 1 ≤ loop.batchSize /\ (id ≤ nextId -> covered)
  | .completing _ => covered
  | .retryLocking _ retried prepared _ => retried = id -> updated \/ prepared.lastId.Has id
  | .forgetting _ retried _ => retried = id -> updated
  | _ => True

omit [OrderBot Id] in
theorem InBatch.imp {covered updated more further : Prop} {loop : Loop Id Clock}
    {prepared : Prepared Id Params} (hbatch : InBatch id covered updated loop prepared)
    (hcovered : covered -> more) (hupdated : updated -> further) :
    InBatch id more further loop prepared where
  sized := hbatch.sized
  passed hle := hcovered (hbatch.passed hle)
  has hlt hreaches := (hbatch.has hlt hreaches).imp_left hupdated

omit [OrderBot Id] in
theorem Safe.imp {covered updated more further : Prop} {phase : Phase Id Params Clock}
    (hsafe : Safe id covered updated phase) (hcovered : covered -> more)
    (hupdated : updated -> further) : Safe id more further phase := by
  cases phase with
  | batching loop => exact ⟨hsafe.1, fun hle => hcovered (hsafe.2 hle)⟩
  | locking loop prepared => exact InBatch.imp hsafe hcovered hupdated
  | splitting loop prepared => exact InBatch.imp hsafe hcovered hupdated
  | rowwise loop prepared ids batch =>
    exact ⟨hsafe.1.imp hcovered hupdated, fun hbelow => (hsafe.2 hbelow).imp_left hcovered⟩
  | recording loop prepared failing err ids batch =>
    exact ⟨hsafe.1.imp hcovered hupdated, fun hbelow => (hsafe.2 hbelow).imp_left hcovered⟩
  | saving loop n failed nextId => exact ⟨hsafe.1, fun hle => hcovered (hsafe.2 hle)⟩
  | completing loop => exact hcovered hsafe
  | retryLocking retry retried prepared ids => exact fun hid => (hsafe hid).imp_left hupdated
  | forgetting retry retried ids => exact fun hid => hupdated (hsafe hid)
  | creating batchSize => exact hsafe
  | loading batchSize => exact hsafe
  | _ => trivial

structure Sound (id : Id) (state : State spec Runner) : Prop where
  passed : ∀ mark, state.watermark = some mark -> id ≤ mark.lastId -> Covered id state
  finished : ∀ mark, state.watermark = some mark -> mark.status = .completed ->
    Covered id state
  safe : ∀ runner, Safe id (Covered id state) (id ∈ state.updated) (state.phase runner)

theorem Sound.grow (hsound : Sound id state) (hwatermark : after.watermark = state.watermark)
    (hphase : after.phase = state.phase) (hcovered : Covered id state -> Covered id after)
    (hupdated : id ∈ state.updated -> id ∈ after.updated) : Sound id after where
  passed mark hmark hle := hcovered (hsound.passed mark (hwatermark ▸ hmark) hle)
  finished mark hmark hstatus := hcovered (hsound.finished mark (hwatermark ▸ hmark) hstatus)
  safe runner := by
    rw [hphase]
    exact (hsound.safe runner).imp hcovered hupdated

theorem Sound.updateIds (hsound : Sound id state) (params : Params) (clock : Clock)
    (ids : List Id) : Sound id (updateIds state params clock ids) :=
  hsound.grow rfl rfl (Or.imp_left fun hmem => mem_append_left _ hmem)
    fun hmem => mem_append_left _ hmem

theorem Sound.recordFailure (hsound : Sound id state) (failing : Id) (err : DbError) :
    Sound id { state with failures := recordFailure state.failures failing err } := by
  refine hsound.grow rfl rfl (Or.imp_right ?_) fun hmem => hmem
  rintro ⟨failure, hfailure, rfl⟩
  exact Table.exists_key_upsert_of_mem hfailure

theorem Sound.forgetFailure (hsound : Sound id state) {retried : Id}
    (hretried : retried = id -> id ∈ state.updated) :
    Sound id { state with
      failures := state.failures.deleteWhere fun failure => decide (failure.rowId = retried) } := by
  refine hsound.grow rfl rfl ?_ fun hmem => hmem
  rintro (hupdated | ⟨failure, hfailure, hrow⟩)
  · exact .inl hupdated
  · by_cases hid : retried = id
    · exact .inl (hretried hid)
    · have hkept : decide (failure.rowId = retried) = false := by
        rw [hrow]
        exact decide_eq_false fun heq => hid heq.symm
      exact Or.inr ⟨failure, Table.mem_deleteWhere.mpr ⟨hfailure, hkept⟩, hrow⟩

theorem Sound.mark (hsound : Sound id state) {mark : Watermark Id}
    (hpassed : id ≤ mark.lastId -> Covered id state)
    (hfinished : mark.status = .completed -> Covered id state) :
    Sound id { state with watermark := some mark } where
  passed other hother hle := by
    obtain rfl : mark = other := Option.some.inj hother
    exact hpassed hle
  finished other hother hstatus := by
    obtain rfl : mark = other := Option.some.inj hother
    exact hfinished hstatus
  safe := hsound.safe

section

variable [DecidableEq Runner] {runner : Runner} {phase : Phase Id Params Clock}

theorem Sound.enter (hsound : Sound id state)
    (hsafe : Safe id (Covered id state) (id ∈ state.updated) phase) :
    Sound id (state.enter runner phase) where
  passed := hsound.passed
  finished := hsound.finished
  safe other := by
    change Safe id (Covered id state) (id ∈ state.updated)
      (update state.phase runner phase other)
    by_cases hother : other = runner
    · rw [hother, update_self]
      exact hsafe
    · rw [update_of_ne hother]
      exact hsound.safe other

theorem Sound.failAt (hsound : Sound id state) : Sound id (failAt state runner) :=
  hsound.enter trivial

variable {loop : Loop Id Clock} {prepared : Prepared Id Params} {retry : Retry Clock}
  {ids : List Id} {batch : Batch Id}

theorem finishBatch_sound {lastId : LastId Id} (hsound : Sound id state)
    (hsized : 1 ≤ loop.batchSize) (hcloses : NotBelow id lastId batch.lastId -> Covered id state) :
    Sound id (finishBatch state runner loop lastId batch) := by
  unfold NotBelow at hcloses
  unfold finishBatch
  split
  · rename_i hnone
    rw [hnone] at hcloses
    exact hsound.enter (hcloses fun nextId hsome => by cases hsome)
  · rename_i nextId hsome
    rw [hsome] at hcloses
    refine hsound.enter ⟨hsized, fun hle => hcloses fun other hother => ?_⟩
    rwa [<- Option.some.inj hother]

omit [DecidableEq Runner] in
theorem covered_updateIds {params : Params} {clock : Clock} (hmem : Covered id state \/ id ∈ ids) :
    Covered id (updateIds state params clock ids) := by
  rcases hmem with (hupdated | hfailed) | hlocked
  · exact .inl (mem_append_left _ hupdated)
  · exact .inr hfailed
  · exact .inl (mem_append_right _ hlocked)

variable {error : Option DbError}

theorem lockBatch_sound (hsound : Sound id state) (hstays : Stays id state)
    (hfits : Fits spec loop prepared) (hphase : state.phase runner = .locking loop prepared) :
    Sound id (lockBatch state runner loop prepared error) := by
  have hbatch := hsound.safe runner
  have hview := hstays.view runner
  rw [hphase] at hbatch hview
  cases error with
  | none =>
    apply finishBatch_sound (hsound.updateIds _ _ _) hbatch.sized
    exact fun hbelow => covered_updateIds (hbatch.closes hfits .inl hview hbelow)
  | some err =>
    simp only [lockBatch]
    split
    · exact hsound.enter hbatch
    · exact hsound.failAt

theorem splitBatch_sound (hsound : Sound id state) (hstays : Stays id state)
    (hfits : Fits spec loop prepared) (hphase : state.phase runner = .splitting loop prepared) :
    Sound id (splitBatch state runner loop prepared) := by
  have hbatch := hsound.safe runner
  have hview := hstays.view runner
  rw [hphase] at hbatch hview
  unfold splitBatch
  dsimp only
  split
  · exact hsound.failAt
  · rename_i last hlast
    apply hsound.enter
    refine ⟨hbatch, ?_⟩
    rw [<- hlast]
    exact hbatch.closes hfits .inl hview

theorem updateRow_sound (hsound : Sound id state) (hstays : Stays id state) {updating : Id}
    (hphase : state.phase runner = .rowwise loop prepared (updating :: ids) batch) :
    Sound id (updateRow state runner loop prepared updating ids batch error) := by
  have hrowwise := hsound.safe runner
  have hview := hstays.view runner
  rw [hphase] at hrowwise hview
  obtain ⟨hbatch, hcloses⟩ := hrowwise
  cases error with
  | none =>
    apply (hsound.updateIds _ _ _).enter
    refine ⟨hbatch.imp (fun hcovered => covered_updateIds (.inl hcovered))
      fun hmem => mem_append_left _ hmem, fun hbelow => ?_⟩
    rcases hcloses hbelow with hcovered | hmem
    · exact .inl (covered_updateIds (.inl hcovered))
    · rcases mem_cons.mp hmem with rfl | hrest
      · left
        rcases hbatch.selects .inl hbelow.reaches hview with hcovered | ⟨-, -, row, hrow, rfl,
          hselects⟩
        · exact covered_updateIds (.inl hcovered)
        · exact covered_updateIds (.inr (mem_lockedIds_only hrow hselects hbatch.sized))
      · exact .inr hrest
  | some err =>
    simp only [updateRow]
    split
    · exact hsound.enter ⟨hbatch, hcloses⟩
    · exact hsound.failAt

theorem recording_sound (hsound : Sound id state) {failing : Id} {err : DbError}
    (hphase : state.phase runner = .recording loop prepared failing err ids batch) :
    Sound id ({ state with failures := recordFailure state.failures failing err }.enter runner
      (.rowwise loop prepared ids { batch with failed := batch.failed + 1 })) := by
  have hrecording := hsound.safe runner
  rw [hphase] at hrecording
  obtain ⟨hbatch, hcloses⟩ := hrecording
  have hgrow := (hsound.recordFailure failing err).safe runner
  rw [hphase] at hgrow
  apply (hsound.recordFailure failing err).enter
  refine ⟨hgrow.1, fun hbelow => ?_⟩
  rcases hgrow.2 hbelow with hcovered | hmem
  · exact .inl hcovered
  · rcases mem_cons.mp hmem with rfl | hrest
    · exact .inl (.inr Table.exists_key_upsert)
    · exact .inr hrest

theorem saveWatermark_sound (hsound : Sound id state) {n failed : Nat} {nextId : Id}
    (hphase : state.phase runner = .saving loop n failed nextId) :
    Sound id (saveWatermark state runner loop n failed nextId) := by
  have hsaving := hsound.safe runner
  rw [hphase] at hsaving
  obtain ⟨hsized, hclosed⟩ := hsaving
  unfold saveWatermark
  split
  · split
    · rename_i mark hmark hunmoved
      apply (hsound.mark hclosed fun hstatus => ?_).enter
      · exact ⟨hsized, hclosed⟩
      · exact hsound.finished mark hmark hstatus
    · exact hsound.enter trivial
  · exact hsound.enter trivial

theorem markCompleted_sound (hsound : Sound id state)
    (hphase : state.phase runner = .completing loop) :
    Sound id (markCompleted state runner loop) := by
  have hcovered := hsound.safe runner
  rw [hphase] at hcovered
  unfold markCompleted
  split
  · split
    · exact (hsound.mark (fun _ => hcovered) fun _ => hcovered).enter trivial
    · exact hsound.enter trivial
  · exact hsound.enter trivial

theorem readWatermark_sound (hsound : Sound id state) {batchSize : Nat} {clock : Clock}
    (hphase : state.phase runner = .loading batchSize) :
    Sound id (readWatermark state runner batchSize clock) := by
  have hsized := hsound.safe runner
  rw [hphase] at hsized
  unfold readWatermark
  split
  · exact hsound.failAt
  · rename_i mark hmark
    split
    · exact hsound.enter trivial
    · exact hsound.enter ⟨hsized, hsound.passed mark hmark⟩

/-- Where nothing is left to prepare, the row is behind the watermark. -/
theorem nextBatch_sound (hsound : Sound id state) (hstays : Stays id state)
    (hphase : state.phase runner = .batching loop)
    (hprepares : Prepares state (.prepare runner prepared)) :
    Sound id (nextBatch state runner loop prepared) := by
  have hbatching := hsound.safe runner
  have hview := hstays.view runner
  simp only [Prepares, hphase] at hprepares
  rw [hphase] at hbatching hview
  obtain ⟨hsized, hpassed⟩ := hbatching
  obtain ⟨-, htakes⟩ := hprepares
  have hhas : loop.lastId < id -> prepared.lastId.Reaches id ->
      id ∈ state.updated \/ prepared.lastId.Has id := by
    intro hafter hreaches
    refine hview.imp_right ?_
    rintro ⟨row, hrow, rfl, hcandidate⟩
    exact htakes row hrow hcandidate hafter hreaches
  unfold nextBatch
  split
  · exact hsound.failAt
  · rename_i hnull
    rw [hnull] at hhas
    apply hsound.enter
    by_cases hle : id ≤ loop.lastId
    · exact hpassed hle
    · rcases hhas (not_le.mp hle) trivial with hupdated | hnone
      · exact .inl hupdated
      · exact hnone.elim
  · split
    · exact hsound.enter ⟨hsized, hpassed, hhas⟩
    · exact hsound.failAt

variable {retried : Id}

theorem failRetry_sound (hsound : Sound id state) {err : DbError} :
    Sound id (failRetry state runner retry retried ids err) := by
  unfold failRetry
  split
  · exact hsound.enter trivial
  · exact hsound.failAt

theorem createWatermark_sound (hsound : Sound id state) (hstays : Stays id state) {batchSize : Nat}
    (hsized : 1 ≤ batchSize) :
    Sound id ({ state with watermark := some (state.watermark.getD ⟨⊥, 0, .running⟩) }.enter runner
      (.loading batchSize)) := by
  suffices hcreated : Sound id
      { state with watermark := some (state.watermark.getD ⟨⊥, 0, .running⟩) } from
    hcreated.enter hsized
  cases hmark : state.watermark with
  | some mark =>
    apply hsound.mark
    · exact hsound.passed mark hmark
    · exact hsound.finished mark hmark
  | none =>
    apply hsound.mark
    · intro hle
      rcases hstays with hupdated | ⟨row, hrow, hid, -⟩
      · exact .inl hupdated
      · exact absurd (hid.trans (le_bot_iff.mp hle)) (state.rows.checked row hrow)
    · rintro ⟨⟩

theorem advance_sound (hsound : Sound id state) (hstays : Stays id state) (hahead : AllAhead state)
    (hresumes : Resumes state (.advance runner)) (hadvance : advance state runner = some after) :
    Sound id after := by
  have hsafe := hsound.safe runner
  have hfits := hahead runner
  unfold advance at hadvance
  simp only [Resumes] at hresumes
  cases hphase : state.phase runner with
  | clearing batchSize =>
    rw [hphase] at hresumes
    exact hresumes.elim
  | resetting batchSize =>
    rw [hphase] at hresumes
    exact hresumes.elim
  | creating batchSize =>
    simp only [hphase, Option.some.injEq] at hadvance
    rw [hphase] at hsafe
    exact hadvance ▸ createWatermark_sound hsound hstays hsafe
  | batching loop =>
    simp only [hphase] at hadvance
    rw [hphase] at hsafe
    split at hadvance
    · cases hadvance
      exact hsound.enter ⟨hsafe.1, hsafe.2, fun _ _ => .inr trivial⟩
    · cases hadvance
  | splitting loop prepared =>
    simp only [hphase, Option.some.injEq] at hadvance
    rw [hphase] at hfits
    exact hadvance ▸ splitBatch_sound hsound hstays hfits hphase
  | rowwise loop prepared ids batch =>
    cases ids with
    | nil =>
      simp only [hphase, Option.some.injEq] at hadvance
      rw [hphase] at hsafe
      apply hadvance ▸ finishBatch_sound hsound hsafe.1.sized _
      exact fun hbelow => (hsafe.2 hbelow).resolve_right not_mem_nil
    | cons id ids =>
      simp only [hphase] at hadvance
      cases hadvance
  | recording loop prepared failing err ids batch =>
    simp only [hphase, Option.some.injEq] at hadvance
    exact hadvance ▸ recording_sound hsound hphase
  | saving loop n failed nextId =>
    simp only [hphase, Option.some.injEq] at hadvance
    exact hadvance ▸ saveWatermark_sound hsound hphase
  | completing loop =>
    simp only [hphase, Option.some.injEq] at hadvance
    exact hadvance ▸ markCompleted_sound hsound hphase
  | retrying retry ids =>
    cases ids with
    | nil =>
      simp only [hphase, Option.some.injEq] at hadvance
      exact hadvance ▸ hsound.enter trivial
    | cons id ids =>
      simp only [hphase] at hadvance
      split at hadvance
      · cases hadvance
        exact hsound.enter fun _ => .inr trivial
      · cases hadvance
  | forgetting retry retried ids =>
    simp only [hphase, Option.some.injEq] at hadvance
    rw [hphase] at hsafe
    exact hadvance ▸ (hsound.forgetFailure hsafe).enter trivial
  | retryRecording retry retried err ids =>
    simp only [hphase, Option.some.injEq] at hadvance
    exact hadvance ▸ (hsound.recordFailure retried err).enter trivial
  | _ =>
    simp only [hphase] at hadvance
    cases hadvance

theorem retryRow_sound (hsound : Sound id state) (hstays : Stays id state)
    (hphase : state.phase runner = .retryLocking retry retried prepared ids) :
    Sound id ((updateIds state prepared.params retry.clock
      (lockedIds state prepared.params retry.clock ⊥ (some retried) 1)).enter runner
        (.forgetting retry retried ids)) := by
  have hlocking := hsound.safe runner
  have hview := hstays.view runner
  rw [hphase] at hlocking hview
  apply (hsound.updateIds _ _ _).enter
  rintro rfl
  rcases hlocking rfl with hupdated | hhas
  · exact mem_append_left _ hupdated
  · rcases hview with hupdated | ⟨row, hrow, rfl, hselects⟩
    · exact mem_append_left _ hupdated
    · exact mem_append_right _ (mem_lockedIds_only hrow (hselects hhas) le_rfl)

theorem prepareRow_sound (hsound : Sound id state) (hstays : Stays id state)
    (hphase : state.phase runner = .retrying retry (retried :: ids))
    (hprepares : Prepares state (.prepare runner prepared)) :
    Sound id (state.enter runner (.retryLocking retry retried prepared ids)) := by
  have hview := hstays.view runner
  simp only [Prepares, hphase] at hprepares
  rw [hphase] at hview
  apply hsound.enter
  rintro rfl
  refine hview.imp_right ?_
  rintro ⟨row, hrow, hid, hcandidate⟩
  exact hprepares row hrow hid hcandidate

theorem update_sound (hsound : Sound id state) (hstays : Stays id state) (hahead : AllAhead state)
    (hupdate : step state (.update runner error) = some after) : Sound id after := by
  simp only [step] at hupdate
  split at hupdate
  · rename_i hphase
    have hfits := hahead runner
    rw [hphase] at hfits
    exact Option.some.inj hupdate ▸ lockBatch_sound hsound hstays hfits hphase
  · rename_i hphase
    exact Option.some.inj hupdate ▸ updateRow_sound hsound hstays hphase
  · rename_i hphase
    exact Option.some.inj hupdate ▸ retryRow_sound hsound hstays hphase
  · split at hupdate
    · cases hupdate
    · exact Option.some.inj hupdate ▸ failRetry_sound hsound
  · exact Option.some.inj hupdate ▸ failRetry_sound hsound
  · exact Option.some.inj hupdate ▸ failRetry_sound hsound
  · cases hupdate

theorem step_sound {label : Label spec Runner} (hsound : Sound id state) (hstays : Stays id state)
    (hahead : AllAhead state) (hresumes : Resumes state label) (hprepares : Prepares state label)
    (hstep : step state label = some after) : Sound id after := by
  cases label with
  | start runner restart batchSize =>
    simp only [step] at hstep
    split at hstep
    · cases hstep
    · rename_i hstarts
      cases hstep
      cases restart with
      | true => exact hsound.enter trivial
      | false => exact hsound.enter (one_le_of_starts hstarts)
  | retry runner =>
    simp only [step] at hstep
    split at hstep
    · cases hstep
    · cases hstep
      exact hsound.enter trivial
  | advance runner => exact advance_sound hsound hstays hahead hresumes hstep
  | load runner clock =>
    simp only [step] at hstep
    split at hstep
    · rename_i hphase
      exact Option.some.inj hstep ▸ readWatermark_sound hsound hphase
    · cases hstep
      exact hsound.enter trivial
    · cases hstep
  | prepare runner prepared =>
    simp only [step] at hstep
    split at hstep
    · rename_i hphase
      exact Option.some.inj hstep ▸ nextBatch_sound hsound hstays hphase hprepares
    · rename_i hphase
      exact Option.some.inj hstep ▸ prepareRow_sound hsound hstays hphase hprepares
    · cases hstep
  | update runner error => exact update_sound hsound hstays hahead hstep
  | crash runner => exact Option.some.inj hstep ▸ hsound.failAt
  | write rows =>
    cases hstep
    exact hsound.grow rfl rfl (fun hcovered => hcovered) fun hmem => hmem

omit [DecidableEq Runner] in
theorem sound_of_fresh (hfresh : Fresh state) : Sound id state := by
  obtain ⟨hwatermark, -, hphases⟩ := hfresh
  constructor
  · intro mark hmark
    rw [hwatermark] at hmark
    cases hmark
  · intro mark hmark
    rw [hwatermark] at hmark
    cases hmark
  · intro runner
    have hphase := hphases runner
    cases hstart : state.phase runner with
    | idle => trivial
    | ended outcome => trivial
    | creating batchSize =>
      rw [hstart] at hphase
      exact hphase
    | _ =>
      rw [hstart] at hphase
      exact hphase.elim

/-- The runs between restarts in which the fragment stays a candidate. -/
def throughout (Runner : Type) [DecidableEq Runner] (spec : Spec Id Row Params Clock) (id : Id) :
    System (State spec Runner) (Label spec Runner) :=
  (system Runner spec).restrict fun before label => Resumes before label /\ Stays id before

theorem sound_of_reachable (hreach : (throughout Runner spec id).Reachable state) :
    Sound id state := by
  apply Reachable.invariant _ _ hreach
  · exact fun start hfresh => sound_of_fresh hfresh
  · rintro before label after hbefore hsound ⟨⟨hstep, hprepares⟩, hresumes, hstays⟩
    exact step_sound hsound hstays (ahead_of_reachable hbefore.ofRestrict) hresumes hprepares hstep

end

end

end AnchorMind.Consolidate.ResumableBackfill
