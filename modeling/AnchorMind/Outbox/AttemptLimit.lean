import AnchorMind.Outbox.Attempts

/-!
# The attempt limit

A recorded failure compares `attempts` with the limit; the claim does not.  So two kinds of
steps escape the limit: a claim that takes over a row whose attempts already reached it, and
an abandonment of an event at its last attempt, which leaves its row neither dead nor held.
In every run without such steps the limit bounds the handler starts, and an event that used
all of them is dead unless its last handler is still at work.
-/

namespace AnchorMind.Outbox.AttemptLimit

open Kernel.KeyedTable Kernel.FencedSlot Kernel.Transition Outbox.Store Outbox.Worker List
  Outbox.Delivery Outbox.Attempts

variable {Worker : Type} {config : Config} {state : State Worker}

/-- A worker runs the handler of the named event, or records its outcome, under
the given token. -/
def InHand (state : State Worker) (id : Nat) (token : Token) : Prop :=
  ∃ worker batch event, (state.phase worker).batch? = some batch /\
    batch.token = token /\ (state.phase worker).inHand = some event /\ event.id = id

/-- No event's handler is started more often than its limit, and an event that
used its limit is no longer pending unless its last handler is still at work. -/
def StartsBounded (config : Config) (state : State Worker) : Prop :=
  (∀ id topic, state.issued id = some topic ->
    (state.starts id).length ≤ config.maxAttempts topic) /\
  ∀ row ∈ state.table, row.pending = true ->
    (state.starts row.id).length = config.maxAttempts row.topic ->
      ∃ token, row.claimToken = some token /\ InHand state row.id token

def AtLastAttempt (config : Config) (state : State Worker) (worker : Worker) : Prop :=
  ∃ batch event row, (state.phase worker).batch? = some batch /\
    (state.phase worker).inHand = some event /\ row ∈ state.table /\ row.id = event.id /\
    row.pending = true /\ row.claimToken = some batch.token /\
    config.maxAttempts row.topic ≤ row.attempts

def KeepsLimit (config : Config) (state : State Worker) : Label Worker -> Prop
  | .claim _ _ _ topics locked _ => ∀ row ∈ state.dueRows config topics locked,
      row.attempts < config.maxAttempts row.topic
  | .crash worker => ¬ AtLastAttempt config state worker
  | .recordError worker => ¬ AtLastAttempt config state worker
  | _ => True

structure Guarded (config : Config) (state : State Worker) : Prop where
  bounded : ∀ id topic, state.issued id = some topic ->
    (standing (state.history id)).length ≤ config.maxAttempts topic
  belowWhenFree : ∀ row ∈ state.table, row.pending = true ->
    row.claimToken = none -> row.attempts < config.maxAttempts row.topic
  inHand : ∀ row token claimant, row ∈ state.table -> row.pending = true ->
    row.claimToken = some token -> config.maxAttempts row.topic ≤ row.attempts ->
    claimant ∈ state.starts row.id -> claimant.2 = token -> InHand state row.id token
  verdict : ∀ worker event outcome batch,
    state.phase worker = .failing event outcome batch -> outcome.dead = false ->
      event.attempts < config.maxAttempts event.topic

theorem Guarded.startsBounded (hguarded : Guarded config state) (htracks : Tracks state)
    (haccounts : Accounts state) : StartsBounded config state := by
  refine ⟨?_, ?_⟩
  · intro id topic hissued
    exact (haccounts.starts_le id).trans (hguarded.bounded id topic hissued)
  · intro row hrow hpending hexhausted
    have hattempts := htracks.attempts row hrow
    have hstarts := haccounts.starts_le row.id
    cases htoken : row.claimToken with
    | none =>
      have hbelow := hguarded.belowWhenFree row hrow hpending htoken
      omega
    | some token =>
      refine ⟨token, rfl, ?_⟩
      have hbound := hguarded.bounded row.id row.topic (htracks.issued row hrow)
      obtain ⟨slot, hpath, hmatches⟩ := htracks.path row.id
      have hrowMatches := hmatches row hrow rfl
      cases slot with
      | free => exact nomatch hrowMatches.2.symm.trans htoken
      | settled => exact nomatch hrowMatches.2.symm.trans htoken
      | retired => exact hrowMatches.elim
      | held claimant =>
        obtain ⟨older, hstanding⟩ := hpath.standing_eq_of_held rfl
        have hstarted : claimant ∈ state.starts row.id :=
          haccounts.started_of_exhausted (by omega) (hstanding ▸ mem_cons_self)
        have hsame : claimant.2 = token :=
          Option.some.inj (hrowMatches.2.symm.trans htoken)
        exact hguarded.inHand row token claimant hrow hpending htoken (by omega) hstarted
          hsame

section

theorem Guarded.exec (hguarded : Guarded config state) {update : OutboxUpdate}
    {act : Act (Claimant Worker)}
    (hstanding : ∀ past, (standing (act :: past)).length ≤ (standing past).length)
    (hrows : ∀ row ∈ state.table, update.select row = true ->
      (update.image row).claimToken = none /\
        ((update.image row).pending = true ->
          (update.image row).attempts < config.maxAttempts (update.image row).topic)) :
    Guarded config (state.exec update act) := by
  refine ⟨?_, ?_, ?_, hguarded.verdict⟩
  · intro id topic hissued
    have hbound := hguarded.bounded id topic hissued
    by_cases haffected : id ∈ state.table.affected update
    · rw [show (state.exec update act).history id = act :: state.history id from
        record_of_mem haffected]
      exact (hstanding _).trans hbound
    · rw [show (state.exec update act).history id = state.history id from
        record_of_not_mem haffected]
      exact hbound
  · intro row hrow hpending htoken
    obtain ⟨source, hsource, ⟨hselect, rfl⟩ | ⟨_, rfl⟩⟩ := Table.mem_apply.mp hrow
    · exact (hrows source hsource hselect).2 hpending
    · exact hguarded.belowWhenFree row hsource hpending htoken
  · intro row token claimant hrow hpending htoken hlimit hstarted hsame
    obtain ⟨source, hsource, ⟨hselect, rfl⟩ | ⟨_, rfl⟩⟩ := Table.mem_apply.mp hrow
    · rw [(hrows source hsource hselect).1] at htoken
      cases htoken
    · exact hguarded.inHand row token claimant hsource hpending htoken hlimit hstarted hsame

variable {worker : Worker} {token : Token}

theorem Guarded.execRelease (hguarded : Guarded config state) (htracks : Tracks state)
    (hminted : state.minted token = some worker) (ids : List Nat) (now : Int) :
    Guarded config (state.exec (release ids token now) (.undo (worker, token))) := by
  refine hguarded.exec (fun past => ?_) ?_
  · exact (length_tail (l := standing past)).trans_le (Nat.sub_le _ 1)
  · intro row hrow hselect
    refine ⟨rfl, fun _ => ?_⟩
    obtain ⟨_, htoken, _⟩ := fenced_eq_true.mp hselect
    obtain ⟨slot, hpath, hmatches⟩ := htracks.path row.id
    have hslot := htracks.held_of_token hminted htoken hpath (hmatches row hrow rfl)
    obtain ⟨older, hstanding⟩ := hpath.standing_eq_of_held hslot
    have hbound := hguarded.bounded row.id row.topic (htracks.issued row hrow)
    have hattempts := htracks.attempts row hrow
    rw [hstanding, length_cons] at hbound hattempts
    change row.attempts - 1 < config.maxAttempts row.topic
    omega

variable {event : OutboxEvent}

/-- A failure record ends its row, or frees it below the limit, because the
event's attempts are still the row's. -/
theorem Guarded.execFail (hguarded : Guarded config state) {outcome : FailOutcome}
    (htracks : Tracks state) (hreads : Reads state token event)
    (hverdict : outcome.dead = false -> event.attempts < config.maxAttempts event.topic)
    (now : Int) :
    Guarded config (state.exec (fail event.id token outcome now)
      (failAct (worker, token) outcome)) := by
  refine hguarded.exec (fun past => ?_) ?_
  · cases hdead : outcome.dead <;> simp [failAct, hdead, standing]
  · intro row hrow hselect
    refine ⟨rfl, fun hpending => ?_⟩
    obtain ⟨hid, htoken, _⟩ := fenced_eq_true.mp hselect
    have hkey : row.id = event.id := mem_singleton.mp hid
    have halive : outcome.dead = false := by
      cases hdead : outcome.dead with
      | false => rfl
      | true => simp [fail, failRow, OutboxRow.pending, hdead] at hpending
    have htopic : row.topic = event.topic := by
      have hrowTopic := htracks.issued row hrow
      rw [hkey, hreads.topic] at hrowTopic
      exact (Option.some.inj hrowTopic).symm
    change row.attempts < config.maxAttempts row.topic
    rw [hreads.attempts row hrow hkey htoken, htopic]
    exact hverdict halive

theorem Guarded.afterEnqueue (hguarded : Guarded config state) (htracks : Tracks state) (id : Nat)
    (event : NewEvent) (hissued : state.issued id = none)
    (hfresh : ∀ row ∈ state.table, row.id ≠ id) :
    Guarded config (state.afterEnqueue id event hfresh) := by
  refine ⟨?_, ?_, ?_, hguarded.verdict⟩
  · intro other topic hother
    by_cases hid : other = id
    · subst hid
      change (standing (state.history other)).length ≤ _
      rw [htracks.unissued other hissued]
      exact Nat.zero_le _
    · have hsame : (state.afterEnqueue id event hfresh).issued other = state.issued other :=
        Function.update_of_ne hid ..
      exact hguarded.bounded other topic (hsame.symm.trans hother)
  · intro row hrow hpending htoken
    rcases (mem_enqueue hfresh).mp hrow with hold | rfl
    · exact hguarded.belowWhenFree row hold hpending htoken
    · exact config.maxAttempts_pos event.topic
  · intro row token claimant hrow hpending htoken hlimit hstarted hsame
    rcases (mem_enqueue hfresh).mp hrow with hold | rfl
    · exact hguarded.inHand row token claimant hold hpending htoken hlimit hstarted hsame
    · cases htoken

theorem Guarded.afterCleanup (hguarded : Guarded config state) (retentionDays limit : Nat)
    (locked : Nat -> Bool) : Guarded config (state.afterCleanup retentionDays limit locked) := by
  refine ⟨?_, ?_, ?_, hguarded.verdict⟩
  · intro id topic hissued
    have hbound := hguarded.bounded id topic hissued
    by_cases hid : id ∈ cleanupIds state.table state.now retentionDays locked limit
    · rw [show (state.afterCleanup retentionDays limit locked).history id =
        .retire :: state.history id from record_of_mem hid]
      exact hbound
    · rw [show (state.afterCleanup retentionDays limit locked).history id =
        state.history id from record_of_not_mem hid]
      exact hbound
  · intro row hrow hpending htoken
    exact hguarded.belowWhenFree row (Table.mem_deleteWhere.mp hrow).1 hpending htoken
  · intro row token claimant hrow hpending htoken hlimit hstarted hsame
    exact hguarded.inHand row token claimant (Table.mem_deleteWhere.mp hrow).1 hpending htoken
      hlimit hstarted hsame

theorem Guarded.start (hstart : Start state) : Guarded config state := by
  obtain ⟨htable, hphase, hissued, _, _, _⟩ := hstart
  refine ⟨?_, ?_, ?_, ?_⟩
  · intro id topic hid
    rw [hissued id] at hid
    cases hid
  · intro row hrow
    exact absurd (htable ▸ hrow) (Table.not_mem_empty row)
  · intro row _ _ hrow
    exact absurd (htable ▸ hrow) (Table.not_mem_empty row)
  · intro worker _ _ _ hfailing
    rw [hphase worker] at hfailing
    cases hfailing

variable [DecidableEq Worker]

theorem Guarded.setPhase (hguarded : Guarded config state) {phase : Phase}
    (hkeep : ¬ AtLastAttempt config state worker \/ ((state.phase worker).batch? = phase.batch? /\
        (state.phase worker).inHand = phase.inHand))
    (hverdict : ∀ event outcome batch, phase = .failing event outcome batch ->
      outcome.dead = false -> event.attempts < config.maxAttempts event.topic) :
    Guarded config (state.setPhase worker phase) := by
  refine ⟨hguarded.bounded, hguarded.belowWhenFree, ?_, ?_⟩
  · intro row token claimant hrow hpending htoken hlimit hstarted hsame
    obtain ⟨holder, batch, event, hbatch, hbatchToken, hevent, hid⟩ :=
      hguarded.inHand row token claimant hrow hpending htoken hlimit hstarted hsame
    by_cases hholder : holder = worker
    · subst hholder
      rcases hkeep with hnot | ⟨hsameBatch, hsameEvent⟩
      · exact absurd ⟨batch, event, row, hbatch, hevent, hrow, hid.symm, hpending,
          hbatchToken ▸ htoken, hlimit⟩ hnot
      · refine ⟨holder, batch, event, ?_, hbatchToken, ?_, hid⟩
        · rw [setPhase_phase_self, ← hsameBatch]
          exact hbatch
        · rw [setPhase_phase_self, ← hsameEvent]
          exact hevent
    · refine ⟨holder, batch, event, ?_, hbatchToken, ?_, hid⟩
      · rw [setPhase_phase_of_ne hholder]
        exact hbatch
      · rw [setPhase_phase_of_ne hholder]
        exact hevent
  · intro other event outcome batch hphase hdead
    by_cases hother : other = worker
    · subst hother
      rw [setPhase_phase_self] at hphase
      exact hverdict event outcome batch hphase hdead
    · rw [setPhase_phase_of_ne hother] at hphase
      exact hguarded.verdict other event outcome batch hphase hdead

omit [DecidableEq Worker] in
theorem not_atLastAttempt_of_inHand_none {worker : Worker}
    (hinHand : (state.phase worker).inHand = none) : ¬ AtLastAttempt config state worker := by
  rintro ⟨_, event, _, _, hevent, _⟩
  rw [hinHand] at hevent
  cases hevent

omit [DecidableEq Worker] in
theorem not_atLastAttempt_of_cleared {worker : Worker} {batch : Batch} {event : OutboxEvent}
    (hbatch : (state.phase worker).batch? = some batch)
    (hevent : (state.phase worker).inHand = some event) {update : OutboxUpdate}
    {act : Act (Claimant Worker)} (hselect : update.select = fenced [event.id] batch.token)
    (hclears : ∀ row, (update.image row).claimToken = none) :
    ¬ AtLastAttempt config (state.exec update act) worker := by
  rintro ⟨found, read, row, hfound, hread, hrow, hid, hpending, htoken, _⟩
  obtain rfl : batch = found := Option.some.inj (hbatch.symm.trans hfound)
  obtain rfl : event = read := Option.some.inj (hevent.symm.trans hread)
  obtain ⟨source, hsource, ⟨_, rfl⟩ | ⟨hidle, rfl⟩⟩ := Table.mem_apply.mp hrow
  · rw [hclears source] at htoken
    cases htoken
  · rw [hselect] at hidle
    have hselected : fenced [event.id] batch.token row = true :=
      fenced_eq_true.mpr ⟨mem_singleton.mpr hid, htoken, hpending⟩
    rw [hselected] at hidle
    cases hidle

theorem Guarded.afterClaim (hguarded : Guarded config state) (htracks : Tracks state)
    (haccounts : Accounts state) (leaseDeadline : Int) {topics : List String} {locked : Nat -> Bool}
    (reply : Bool) (hphase : state.phase worker = .idle) (hfresh : state.minted token = none)
    (hbelow : ∀ row ∈ state.dueRows config topics locked,
      row.attempts < config.maxAttempts row.topic) :
    Guarded config
      (state.afterClaim config worker token leaseDeadline topics locked reply) := by
  let rows := state.dueRows config topics locked
  let update := claimUpdate (rows.map OutboxRow.id) state.now config.settings.leaseMs token
  have hselected : ∀ row ∈ state.table, update.select row = true ->
      row ∈ rows := fun row hrow hselect =>
    mem_due_of_id hrow (contains_iff_mem.mp hselect)
  have hclaimed : Guarded config (state.exec update (.take (worker, token))) := by
    refine ⟨?_, ?_, ?_, hguarded.verdict⟩
    · intro id topic hissued
      by_cases haffected : id ∈ state.table.affected update
      · obtain ⟨row, hrow, rfl, hselect⟩ := Table.exists_of_mem_affected haffected
        have hrowBelow := hbelow row (hselected row hrow hselect)
        have htopic : row.topic = topic :=
          Option.some.inj ((htracks.issued row hrow).symm.trans hissued)
        rw [show (state.exec update (.take (worker, token))).history row.id =
          .take (worker, token) :: state.history row.id from record_of_mem haffected]
        change (standing (state.history row.id)).length + 1 ≤ _
        rw [← htracks.attempts row hrow, ← htopic]
        exact hrowBelow
      · rw [show (state.exec update (.take (worker, token))).history id = state.history id from
          record_of_not_mem haffected]
        exact hguarded.bounded id topic hissued
    · intro row hrow hpending hnone
      obtain ⟨source, hsource, ⟨_, rfl⟩ | ⟨_, rfl⟩⟩ := Table.mem_apply.mp hrow
      · cases hnone
      · exact hguarded.belowWhenFree row hsource hpending hnone
    · intro row found claimant hrow hpending hfound hlimit hstarted hsame
      obtain ⟨source, hsource, ⟨_, rfl⟩ | ⟨_, rfl⟩⟩ := Table.mem_apply.mp hrow
      · have htaken := htracks.taken source.id claimant
          (take_mem_of_standing (haccounts.started source.id claimant hstarted))
        rw [hsame, ← Option.some.inj hfound, hfresh] at htaken
        cases htaken
      · exact hguarded.inHand row found claimant hsource hpending hfound hlimit hstarted hsame
  have hidle : ¬ AtLastAttempt config (state.exec update (.take (worker, token))) worker := by
    refine not_atLastAttempt_of_inHand_none ?_
    change (state.phase worker).inHand = none
    rw [hphase]
    rfl
  let next : Phase := if reply then
      .delivering
        { token := token
          leaseDeadline := leaseDeadline
          rest := claimedEvents rows state.now config.settings.leaseMs token }
    else .idle
  have hverdict : ∀ event outcome batch, next = .failing event outcome batch ->
      outcome.dead = false -> event.attempts < config.maxAttempts event.topic := by
    cases reply <;> nofun
  have hmoved := hclaimed.setPhase (.inl hidle) hverdict
  exact ⟨hmoved.bounded, hmoved.belowWhenFree, hmoved.inHand, hmoved.verdict⟩

theorem Guarded.afterStart (hguarded : Guarded config state) {batch : Batch}
    {rest : List OutboxEvent} (hphase : state.phase worker = .delivering batch) :
    Guarded config (state.afterStart worker event { batch with rest := rest }) := by
  have hfree : ¬ AtLastAttempt config state worker :=
    not_atLastAttempt_of_inHand_none (by rw [hphase]; rfl)
  have hmoved : Guarded config
      (state.setPhase worker (.handling event { batch with rest := rest })) :=
    hguarded.setPhase (.inl hfree) nofun
  have hphaseAfter : (state.afterStart worker event { batch with rest := rest }).phase worker =
      .handling event { batch with rest := rest } := Function.update_self ..
  refine ⟨hmoved.bounded, hmoved.belowWhenFree, ?_, hmoved.verdict⟩
  intro row token claimant hrow hpending htoken hlimit hstarted hsame
  change claimant ∈ (if row.id = event.id then (worker, batch.token) :: state.starts row.id
    else state.starts row.id) at hstarted
  by_cases hid : row.id = event.id
  · rw [if_pos hid] at hstarted
    rcases mem_cons.mp hstarted with rfl | hold
    · refine ⟨worker, { batch with rest := rest }, event, ?_, hsame, ?_, hid.symm⟩
      · rw [hphaseAfter]
        rfl
      · rw [hphaseAfter]
        rfl
    · exact hmoved.inHand row token claimant hrow hpending htoken hlimit hold hsame
  · rw [if_neg hid] at hstarted
    exact hmoved.inHand row token claimant hrow hpending htoken hlimit hstarted hsame

end

section

variable [DecidableEq Worker] {after : State Worker} {label : Label Worker}

theorem afterReply_ne_failing {reply : Bool} {batch : Batch} {event : OutboxEvent}
    {outcome : FailOutcome} {found : Batch} :
    afterReply reply batch ≠ .failing event outcome found := by
  cases reply <;> nofun

theorem Guarded.step (hguarded : Guarded config state) (htracks : Tracks state)
    (haccounts : Accounts state) (hstep : Step config state label after)
    (hlimit : KeepsLimit config state label) : Guarded config after := by
  have hempty : ∀ worker phase, state.phase worker = phase -> phase.inHand = none ->
      ¬ AtLastAttempt config state worker := fun worker phase hphase hnone =>
    not_atLastAttempt_of_inHand_none (hphase ▸ hnone)
  have hown : ∀ worker phase batch, state.phase worker = phase ->
      phase.batch? = some batch -> state.minted batch.token = some worker :=
    fun worker _ batch hphase hbatch => htracks.owned worker batch (hphase ▸ hbatch)
  cases hstep with
  | tick elapsed =>
    exact ⟨hguarded.bounded, hguarded.belowWhenFree, hguarded.inHand, hguarded.verdict⟩
  | enqueue id event hissued hfresh => exact hguarded.afterEnqueue htracks id event hissued hfresh
  | claim worker token leaseDeadline topics locked reply hphase htopics hfresh =>
    exact hguarded.afterClaim htracks haccounts leaseDeadline reply hphase hfresh hlimit
  | start worker clock event batch rest hphase hrest hfits => exact hguarded.afterStart hphase
  | noHandler worker clock event batch rest hphase hrest hfits =>
    exact hguarded.setPhase (.inl (hempty worker _ hphase rfl)) fun _ _ _ heq => by cases heq
  | stop worker clock running batch hphase hstop =>
    exact hguarded.setPhase (.inl (hempty worker _ hphase rfl)) fun _ _ _ heq => by cases heq
  | releaseOne worker reply event batch hphase =>
    refine (hguarded.execRelease htracks (hown worker _ batch hphase rfl) [event.id]
      state.now).setPhase (Or.inl ?_) fun _ _ _ heq => absurd heq afterReply_ne_failing
    exact not_atLastAttempt_of_inHand_none (by
      change (state.phase worker).inHand = none
      rw [hphase]
      rfl)
  | handled worker event batch hphase =>
    refine hguarded.setPhase (Or.inr ?_) fun _ _ _ heq => by cases heq
    rw [hphase]
    exact ⟨rfl, rfl⟩
  | threw worker thrown random event batch hphase =>
    refine hguarded.setPhase (Or.inr ?_) ?_
    · rw [hphase]
      exact ⟨rfl, rfl⟩
    · intro found outcome _ heq hdead
      cases heq
      by_contra hreached
      rw [failureOutcome_dead_of_limit (Nat.le_of_not_lt hreached)] at hdead
      cases hdead
  | complete worker reply event batch hphase =>
    have hrecorded : Guarded config (state.exec (complete event.id batch.token state.now)
        (.settle (worker, batch.token))) :=
      hguarded.exec (fun _ => Nat.le_refl _) fun row _ _ =>
        ⟨rfl, fun hpending => by simp [complete, completeRow, OutboxRow.pending] at hpending⟩
    refine hrecorded.setPhase (Or.inl ?_) fun _ _ _ heq => absurd heq afterReply_ne_failing
    have hbatch : (state.phase worker).batch? = some batch := by rw [hphase]; rfl
    have hevent : (state.phase worker).inHand = some event := by rw [hphase]; rfl
    exact not_atLastAttempt_of_cleared hbatch hevent rfl fun _ => rfl
  | fail worker reply event outcome batch hphase =>
    have hreads : Reads state batch.token event :=
      (haccounts.holds worker).reads batch event (by rw [hphase]; rfl)
        (.inr (by rw [hphase]; rfl))
    refine (hguarded.execFail htracks hreads
      (hguarded.verdict worker event outcome batch hphase) state.now).setPhase (Or.inl ?_)
      fun _ _ _ heq => absurd heq afterReply_ne_failing
    have hbatch : (state.phase worker).batch? = some batch := by rw [hphase]; rfl
    have hevent : (state.phase worker).inHand = some event := by rw [hphase]; rfl
    exact not_atLastAttempt_of_cleared hbatch hevent rfl fun _ => rfl
  | recordError worker batch hphase =>
    exact hguarded.setPhase (.inl hlimit) fun _ _ _ heq => by cases heq
  | releaseRest worker batch hphase =>
    refine (hguarded.execRelease htracks (hown worker _ batch hphase rfl) _
      state.now).setPhase (Or.inl ?_) fun _ _ _ heq => by cases heq
    exact not_atLastAttempt_of_inHand_none (by
      change (state.phase worker).inHand = none
      rw [hphase]
      rfl)
  | crash worker => exact hguarded.setPhase (.inl hlimit) fun _ _ _ heq => by cases heq
  | cleanup retentionDays limit locked => exact hguarded.afterCleanup retentionDays limit locked
  | deadLetterUnhandled topics olderThanDays limit locked htopics =>
    refine hguarded.exec (fun _ => Nat.le_refl _) fun row _ _ => ⟨rfl, fun hpending => ?_⟩
    simp [deadLetterUnhandled, deadLetterRow, OutboxRow.pending] at hpending

/-- In every run whose claims take only rows below the limit, and in which no
event at its last attempt is given up by a crash or a lost record, the limit
bounds the handler starts and an event that used it is dead or in hand. -/
theorem starts_bounded_of_keepsLimit
    (hreach : ((outboxSystem config).restrict (KeepsLimit config)).Reachable state) :
    StartsBounded config state := by
  have hguarded : Guarded config state :=
    hreach.invariant (fun _ hstart => .start hstart)
      (fun before label after hbefore hinv hstep =>
        hinv.step (tracks_of_reachable hbefore.ofRestrict)
          (accounts_of_reachable hbefore.ofRestrict) hstep.1 hstep.2)
  exact hguarded.startsBounded (tracks_of_reachable hreach.ofRestrict)
    (accounts_of_reachable hreach.ofRestrict)

/-- The first start of an event meets the condition, and the bound holds there. -/
theorem starts_bounded_first_start : StartsBounded singleAttempt startedState := by
  have hempty : ((outboxSystem singleAttempt).restrict (KeepsLimit singleAttempt)).Reachable
      emptyState := .ofStart emptyState_start
  apply starts_bounded_of_keepsLimit
  suffices hrun : ((outboxSystem singleAttempt).restrict (KeepsLimit singleAttempt)).Run
      emptyState startLabels startedState from hempty.run hrun
  refine .cons ⟨.enqueue emptyState 0 reflectEvent rfl emptyState_fresh, trivial⟩ ?_
  refine .cons ⟨.claim _ false 0 60000 _ _ true rfl (by decide) rfl, ?_⟩ ?_
  · intro row hrow
    have hsole : row = newRow 0 reflectEvent 0 := mem_singleton.mp hrow
    rw [hsole]
    decide
  · exact .single ⟨.start _ false 0 (reflectClaimed 1 0)
      { token := 0, leaseDeadline := 60000, rest := [reflectClaimed 1 0] } [] rfl rfl
      (by decide), trivial⟩

end

/-! ## An event whose handler kills the process

The first worker dies with the handler; once the lease has run out the second
worker claims the row and starts the handler again. -/

/-- The first worker is gone, and its lease has run out. -/
def abandonedState : State Bool :=
  { startedState.setPhase false .idle with now := 60000 }

/-- The second worker runs the handler again. -/
def restartedState : State Bool :=
  (abandonedState.afterClaim singleAttempt true 1 120000 ["hook.reflect"] (fun _ => false)
    true).afterStart true (reflectClaimed 2 60000)
      { token := 1, leaseDeadline := 120000, rest := [] }

theorem restartedState_run :
    (outboxSystem singleAttempt).Run startedState
      [.crash false, .tick 60000,
        .claim true 1 120000 ["hook.reflect"] (fun _ => false) true,
        .start true 60000]
      restartedState := by
  refine .cons (.crash startedState false) ?_
  refine .cons (.tick _ 60000) ?_
  refine .cons (.claim abandonedState true 1 120000 _ _ true rfl (by decide) rfl) ?_
  exact .single (.start _ true 60000 (reflectClaimed 2 60000)
    { token := 1, leaseDeadline := 120000, rest := [reflectClaimed 2 60000] } [] rfl rfl
    (by decide))

/-- Without the condition the limit does not bound the starts. -/
theorem starts_exceed_limit :
    ¬ ∀ (config : Config) (state : State Bool),
      (outboxSystem config).Reachable state -> StartsBounded config state := by
  intro hbounded
  have hreach : (outboxSystem singleAttempt).Reachable restartedState :=
    ((System.Reachable.ofStart emptyState_start).run startedState_run).run restartedState_run
  have htwo := (hbounded singleAttempt restartedState hreach).1 0 "hook.reflect" rfl
  exact absurd htwo (by decide)

end AnchorMind.Outbox.AttemptLimit
