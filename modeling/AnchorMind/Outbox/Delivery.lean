import AnchorMind.Outbox.Worker

/-!
# Rows, claims, and terminal outcomes

Each outbox row refines a fenced slot: its columns are the slot's condition and
its recorded history is a path of the slot.  From the refinement follow the
delivery rules: only the most recent claimant changes a row it records, a row
ends at most once, and an ended row stays as it is until cleanup removes it.
-/

namespace AnchorMind.Outbox.Delivery

open Kernel.KeyedTable Kernel.FencedSlot Kernel.Transition Outbox.Store Outbox.Worker List Function

variable {Worker : Type}

def Matches : Slot (Claimant Worker) -> OutboxRow -> Prop
  | .free, row => row.pending = true /\ row.claimToken = none
  | .held claimant, row => row.pending = true /\ row.claimToken = some claimant.2
  | .settled, row => row.pending = false /\ row.claimToken = none
  | .retired, _ => False

structure Tracks (state : State Worker) : Prop where
  path : ∀ id, ∃ slot, Path .free (state.history id) slot /\
    ∀ row ∈ state.table, row.id = id -> Matches slot row
  noDiscard : ∀ id, Act.discard ∉ state.history id
  attempts : ∀ row ∈ state.table,
    row.attempts = (standing (state.history row.id)).length
  issued : ∀ row ∈ state.table, state.issued row.id = some row.topic
  unissued : ∀ id, state.issued id = none -> state.history id = []
  taken : ∀ id claimant, Act.take claimant ∈ state.history id ->
    state.minted claimant.2 = some claimant.1
  owned : ∀ worker batch, (state.phase worker).batch? = some batch ->
    state.minted batch.token = some worker

theorem take_mem_of_latest {acts : List (Act (Claimant Worker))} {claimant : Claimant Worker}
    (hlatest : latest acts = some claimant) : Act.take claimant ∈ acts := by
  induction acts with
  | nil => cases hlatest
  | cons act past ih =>
    cases act with
    | take holder =>
      cases hlatest
      exact mem_cons_self
    | settle _ => exact mem_cons_of_mem _ (ih hlatest)
    | retry _ => exact mem_cons_of_mem _ (ih hlatest)
    | undo _ => exact mem_cons_of_mem _ (ih hlatest)
    | close => exact mem_cons_of_mem _ (ih hlatest)
    | retire => exact mem_cons_of_mem _ (ih hlatest)
    | discard => exact mem_cons_of_mem _ (ih hlatest)

theorem Tracks.held_of_token {state : State Worker} (htracks : Tracks state) {worker : Worker}
    {token : Token} (hminted : state.minted token = some worker) {row : OutboxRow}
    (htoken : row.claimToken = some token) {slot : Slot (Claimant Worker)}
    (hpath : Path .free (state.history row.id) slot) (hmatches : Matches slot row) :
    slot = .held (worker, token) := by
  cases slot with
  | free => cases hmatches.2.symm.trans htoken
  | settled => cases hmatches.2.symm.trans htoken
  | retired => exact hmatches.elim
  | held claimant =>
    have hsame : claimant.2 = token := Option.some.inj (hmatches.2.symm.trans htoken)
    have hclaimant := htracks.taken row.id claimant
      (take_mem_of_latest (hpath.latest_eq_of_held rfl))
    rw [hsame, hminted] at hclaimant
    rw [Option.some.inj hclaimant, ← hsame]

section

variable {state : State Worker} {update : OutboxUpdate}

section

variable (htracks : Tracks state)
include htracks

variable {act : Act (Claimant Worker)}

theorem Tracks.exec (hact : act ≠ .discard)
    (htake : ∀ claimant, act = .take claimant -> state.minted claimant.2 = some claimant.1)
    (hfires : ∀ row ∈ state.table, update.select row = true ->
      ∀ slot, Path .free (state.history row.id) slot -> Matches slot row ->
        ∃ next, Fires slot act next /\ Matches next (update.image row))
    (hattempts : ∀ row ∈ state.table, update.select row = true ->
      (update.image row).attempts = (standing (act :: state.history row.id)).length)
    (htopic : ∀ row, (update.image row).topic = row.topic) : Tracks (state.exec update act) := by
  have hselected : ∀ row ∈ state.table, update.select row = true ->
      (state.exec update act).history row.id = act :: state.history row.id := by
    intro row hrow hselect
    exact record_of_mem ((Table.key_mem_affected hrow).mpr hselect)
  have hunselected : ∀ row ∈ state.table, update.select row = false ->
      (state.exec update act).history row.id = state.history row.id := by
    intro row hrow hselect
    refine record_of_not_mem fun haffected => ?_
    rw [(Table.key_mem_affected hrow).mp haffected] at hselect
    cases hselect
  have hunaffected : ∀ id, id ∉ state.table.affected update ->
      (state.exec update act).history id = state.history id :=
    fun _ haffected => record_of_not_mem haffected
  refine ⟨?path, ?noDiscard, ?attempts, ?issued, ?unissued, ?taken, htracks.owned⟩
  case path =>
    intro id
    obtain ⟨slot, hpath, hmatches⟩ := htracks.path id
    by_cases haffected : id ∈ state.table.affected update
    · obtain ⟨row, hrow, hid, hselect⟩ := Table.exists_of_mem_affected haffected
      subst hid
      obtain ⟨next, hnext, himage⟩ := hfires row hrow hselect slot hpath (hmatches row hrow rfl)
      refine ⟨next, ?_, ?_⟩
      · rw [hselected row hrow hselect]
        exact .cons hpath hnext
      · intro after hafter hid
        obtain ⟨source, hsource, ⟨_, rfl⟩ | ⟨hidle, rfl⟩⟩ := Table.mem_apply.mp hafter
        · rw [update.keepsKey] at hid
          rw [Table.eq_of_key_eq hsource hrow hid]
          exact himage
        · rw [Table.eq_of_key_eq hsource hrow hid, hselect] at hidle
          cases hidle
    · refine ⟨slot, ?_, ?_⟩
      · rw [hunaffected id haffected]
        exact hpath
      · intro after hafter hid
        obtain ⟨source, hsource, ⟨hselect, rfl⟩ | ⟨_, rfl⟩⟩ := Table.mem_apply.mp hafter
        · rw [update.keepsKey] at hid
          rw [← hid] at haffected
          exact absurd ((Table.key_mem_affected hsource).mpr hselect) haffected
        · exact hmatches after hsource hid
  case noDiscard =>
    intro id hmem
    rcases mem_record hmem with heq | hold
    · exact hact heq.symm
    · exact htracks.noDiscard id hold
  case attempts =>
    intro after hafter
    obtain ⟨source, hsource, ⟨hselect, rfl⟩ | ⟨hidle, rfl⟩⟩ := Table.mem_apply.mp hafter
    · rw [update.keepsKey, hselected source hsource hselect]
      exact hattempts source hsource hselect
    · rw [hunselected after hsource hidle]
      exact htracks.attempts after hsource
  case issued =>
    intro after hafter
    obtain ⟨source, hsource, ⟨_, rfl⟩ | ⟨_, rfl⟩⟩ := Table.mem_apply.mp hafter
    · rw [update.keepsKey, htopic]
      exact htracks.issued source hsource
    · exact htracks.issued after hsource
  case unissued =>
    intro id hissued
    have haffected : id ∉ state.table.affected update := by
      intro hmem
      obtain ⟨row, hrow, hid, _⟩ := Table.exists_of_mem_affected hmem
      have hrowIssued := htracks.issued row hrow
      rw [hid, show state.issued id = none from hissued] at hrowIssued
      cases hrowIssued
    rw [hunaffected id haffected]
    exact htracks.unissued id hissued
  case taken =>
    intro id claimant hmem
    rcases mem_record hmem with heq | hold
    · exact htake claimant heq.symm
    · exact htracks.taken id claimant hold

variable {worker : Worker} {token : Token}

section

variable (hminted : state.minted token = some worker)
include hminted

theorem Tracks.execFenced (ids : List Nat) (hselect : update.select = fenced ids token)
    (hact : act ≠ .discard) (htake : ∀ claimant, act ≠ .take claimant)
    {next : Slot (Claimant Worker)} (hfires : Fires (.held (worker, token)) act next)
    (hmatches : ∀ row ∈ state.table, fenced ids token row = true ->
      Matches next (update.image row))
    (hattempts : ∀ row ∈ state.table,
      (update.image row).attempts = (standing (act :: state.history row.id)).length)
    (htopic : ∀ row, (update.image row).topic = row.topic) : Tracks (state.exec update act) := by
  refine htracks.exec hact (fun claimant heq => absurd heq (htake claimant)) ?_
    (fun row hrow _ => hattempts row hrow) htopic
  intro row hrow hrowSelect slot hpath hrowMatches
  rw [hselect] at hrowSelect
  have hslot := htracks.held_of_token hminted (fenced_eq_true.mp hrowSelect).2.1 hpath hrowMatches
  subst hslot
  exact ⟨next, hfires, hmatches row hrow hrowSelect⟩

theorem Tracks.execRelease (ids : List Nat) (now : Int) :
    Tracks (state.exec (release ids token now) (.undo (worker, token))) := by
  refine htracks.execFenced hminted ids rfl (by simp) (by simp) (.undo _) ?_ ?_
    (fun _ => rfl)
  · intro row _ hselect
    exact ⟨(fenced_eq_true.mp hselect).2.2, rfl⟩
  · intro row hrow
    change row.attempts - 1 = (standing (state.history row.id)).tail.length
    rw [length_tail, htracks.attempts row hrow]

theorem Tracks.execComplete (id : Nat) (now : Int) :
    Tracks (state.exec (complete id token now) (.settle (worker, token))) := by
  refine htracks.execFenced hminted [id] rfl (by simp) (by simp) (.settle _) ?_ ?_
    (fun _ => rfl)
  · intro row _ _
    exact ⟨rfl, rfl⟩
  · intro row hrow
    exact htracks.attempts row hrow

theorem Tracks.execFail (id : Nat) (outcome : FailOutcome) (now : Int) :
    Tracks (state.exec (fail id token outcome now) (failAct (worker, token) outcome)) := by
  cases hdead : outcome.dead with
  | true =>
    have hact : failAct (worker, token) outcome = Act.settle (worker, token) := by
      simp [failAct, hdead]
    rw [hact]
    refine htracks.execFenced hminted [id] rfl (by simp) (by simp) (.settle _) ?_ ?_
      (fun _ => rfl)
    · intro row _ _
      exact ⟨by simp [fail, failRow, OutboxRow.pending, hdead], rfl⟩
    · intro row hrow
      exact htracks.attempts row hrow
  | false =>
    have hact : failAct (worker, token) outcome = Act.retry (worker, token) := by
      simp [failAct, hdead]
    rw [hact]
    refine htracks.execFenced hminted [id] rfl (by simp) (by simp) (.retry _) ?_ ?_
      (fun _ => rfl)
    · intro row _ hselect
      have hprocessed :=
        (OutboxRow.pending_eq_true.mp (fenced_eq_true.mp hselect).2.2).1
      exact ⟨by simp [fail, failRow, OutboxRow.pending, hdead, hprocessed], rfl⟩
    · intro row hrow
      exact htracks.attempts row hrow

end

theorem Tracks.execClose (now : Int) (topics : List String) (olderThanDays : Nat)
    (locked : Nat -> Bool) (limit : Nat) :
    Tracks (state.exec
      (deadLetterUnhandled (unhandledIds state.table now topics olderThanDays locked limit) now)
      .close) := by
  refine htracks.exec (by simp) (by simp) ?_ (fun row hrow _ => htracks.attempts row hrow)
    (fun _ => rfl)
  intro row hrow hselect slot hpath hmatches
  have hids := (Bool.and_eq_true_iff.mp hselect).1
  obtain ⟨hpending, hzero⟩ := unclaimed_of_unhandledIds hrow (by simpa using hids)
  have hempty : standing (state.history row.id) = [] :=
    length_eq_zero_iff.mp ((htracks.attempts row hrow).symm.trans hzero)
  cases slot with
  | free => exact ⟨.settled, .close, by simp [deadLetterUnhandled, deadLetterRow,
      OutboxRow.pending], rfl⟩
  | held claimant =>
    obtain ⟨older, hstanding⟩ := hpath.standing_eq_of_held rfl
    rw [hempty] at hstanding
    cases hstanding
  | settled => rw [hmatches.1] at hpending; cases hpending
  | retired => exact hmatches.elim

theorem Tracks.afterEnqueue (id : Nat) (event : NewEvent) (hissued : state.issued id = none)
    (hfresh : ∀ row ∈ state.table, row.id ≠ id) : Tracks (state.afterEnqueue id event hfresh) := by
  have hempty := htracks.unissued id hissued
  have hissuedAfter : ∀ other, other ≠ id ->
      (state.afterEnqueue id event hfresh).issued other = state.issued other :=
    fun _ hne => update_of_ne hne ..
  refine ⟨?path, htracks.noDiscard, ?attempts, ?issued, ?unissued, htracks.taken,
    htracks.owned⟩
  case path =>
    intro other
    obtain ⟨slot, hpath, hmatches⟩ := htracks.path other
    by_cases hother : other = id
    · subst hother
      refine ⟨.free, hempty ▸ .nil _, ?_⟩
      intro row hrow hid
      rcases (mem_enqueue hfresh).mp hrow with hold | rfl
      · exact absurd hid (hfresh row hold)
      · exact ⟨rfl, rfl⟩
    · refine ⟨slot, hpath, ?_⟩
      intro row hrow hid
      rcases (mem_enqueue hfresh).mp hrow with hold | rfl
      · exact hmatches row hold hid
      · exact absurd hid.symm hother
  case attempts =>
    intro row hrow
    rcases (mem_enqueue hfresh).mp hrow with hold | rfl
    · exact htracks.attempts row hold
    · change 0 = (standing (state.history id)).length
      rw [hempty]
      rfl
  case issued =>
    intro row hrow
    rcases (mem_enqueue hfresh).mp hrow with hold | rfl
    · rw [hissuedAfter row.id (hfresh row hold)]
      exact htracks.issued row hold
    · exact update_self ..
  case unissued =>
    intro other hother
    by_cases hid : other = id
    · exact hid ▸ hempty
    · rw [hissuedAfter other hid] at hother
      exact htracks.unissued other hother

theorem Tracks.afterCleanup (retentionDays limit : Nat) (locked : Nat -> Bool) :
    Tracks (state.afterCleanup retentionDays limit locked) := by
  let ids := cleanupIds state.table state.now retentionDays locked limit
  have hkept : ∀ row ∈ (state.afterCleanup retentionDays limit locked).table,
      row ∈ state.table /\ row.id ∉ ids := by
    intro row hrow
    obtain ⟨hmem, hselect⟩ := Table.mem_deleteWhere.mp hrow
    exact ⟨hmem, by simpa using hselect⟩
  have hsame : ∀ id, id ∉ ids ->
      (state.afterCleanup retentionDays limit locked).history id = state.history id :=
    fun _ hid => record_of_not_mem hid
  refine ⟨?path, ?noDiscard, ?attempts, ?issued, ?unissued, ?taken, htracks.owned⟩
  case path =>
    intro id
    obtain ⟨slot, hpath, hmatches⟩ := htracks.path id
    by_cases hid : id ∈ ids
    · obtain ⟨row, hrow, hkey⟩ := mem_map.mp hid
      have hmem := (Table.mem_of_mem_selectOrdered hrow).1
      have hprocessed := processed_of_cleanupIds hmem (hkey.symm ▸ hid)
      have hslot : slot = .settled := by
        have hrowMatches := hmatches row hmem hkey
        cases slot with
        | free => exact absurd (OutboxRow.pending_eq_true.mp hrowMatches.1).1 hprocessed
        | held _ => exact absurd (OutboxRow.pending_eq_true.mp hrowMatches.1).1 hprocessed
        | settled => rfl
        | retired => exact hrowMatches.elim
      subst hslot
      refine ⟨.retired, ?_, fun after hafter hkeep =>
        absurd (hkeep ▸ hid) (hkept after hafter).2⟩
      rw [show (state.afterCleanup retentionDays limit locked).history id =
        .retire :: state.history id from record_of_mem hid]
      exact .cons hpath .retire
    · refine ⟨slot, ?_, fun after hafter hkeep => hmatches after (hkept after hafter).1 hkeep⟩
      rw [hsame id hid]
      exact hpath
  case noDiscard =>
    intro id hmem
    rcases mem_record hmem with heq | hold
    · cases heq
    · exact htracks.noDiscard id hold
  case attempts =>
    intro row hrow
    rw [hsame row.id (hkept row hrow).2]
    exact htracks.attempts row (hkept row hrow).1
  case issued =>
    intro row hrow
    exact htracks.issued row (hkept row hrow).1
  case unissued =>
    intro id hissued
    have hid : id ∉ ids := by
      intro hmem
      obtain ⟨row, hrow, hkey⟩ := mem_map.mp hmem
      have hrowIssued := htracks.issued row (Table.mem_of_mem_selectOrdered hrow).1
      rw [hkey, show state.issued id = none from hissued] at hrowIssued
      cases hrowIssued
    rw [hsame id hid]
    exact htracks.unissued id hissued
  case taken =>
    intro id claimant hmem
    rcases mem_record hmem with heq | hold
    · cases heq
    · exact htracks.taken id claimant hold

omit htracks in
theorem Tracks.start (hstart : Start state) : Tracks state := by
  obtain ⟨htable, hphase, hissued, hminted, hhistory, hstarts⟩ := hstart
  have hnone : ∀ row, ¬ row ∈ state.table := by
    intro row hrow
    rw [htable] at hrow
    exact Table.not_mem_empty row hrow
  refine ⟨?_, ?_, ?_, ?_, fun id _ => hhistory id, ?_, ?_⟩
  · intro id
    exact ⟨.free, (hhistory id) ▸ .nil _, fun row hrow _ => absurd hrow (hnone row)⟩
  · intro id hmem
    rw [hhistory id] at hmem
    cases hmem
  · exact fun row hrow => absurd hrow (hnone row)
  · exact fun row hrow => absurd hrow (hnone row)
  · intro id claimant hmem
    rw [hhistory id] at hmem
    cases hmem
  · intro worker batch hbatch
    rw [hphase worker] at hbatch
    cases hbatch

variable {row : OutboxRow}

theorem Tracks.changed_of_fenced {batch : Batch} (hbatch : (state.phase worker).batch? = some batch)
    (ids : List Nat) (hselect : update.select = fenced ids batch.token) (hrow : row ∈ state.table)
    (hchanged : row ∉ state.table.apply update) :
    row.pending = true /\ row.claimToken = some batch.token /\
      latest (state.history row.id) = some (worker, batch.token) := by
  have hfenced : fenced ids batch.token row = true := by
    cases hvalue : update.select row with
    | false => exact absurd (Table.mem_apply_of_unselected hrow hvalue) hchanged
    | true =>
      rw [← hselect]
      exact hvalue
  obtain ⟨_, htoken, hpending⟩ := fenced_eq_true.mp hfenced
  obtain ⟨slot, hpath, hmatches⟩ := htracks.path row.id
  have hslot := htracks.held_of_token (htracks.owned worker batch hbatch) htoken hpath
    (hmatches row hrow rfl)
  exact ⟨hpending, htoken, hpath.latest_eq_of_held hslot⟩

omit htracks in
theorem ended_mem_apply (hrow : row ∈ state.table) (hended : row.pending = false)
    (hselect : update.select row = true -> row.pending = true) :
    row ∈ state.table.apply update := by
  refine Table.mem_apply_of_unselected hrow ?_
  cases hvalue : update.select row with
  | false => rfl
  | true => exact (Bool.false_ne_true (hended.symm.trans (hselect hvalue))).elim

/-- The history of a row counts its terminal outcome exactly when its columns
show one. -/
theorem Tracks.settlements_eq (hrow : row ∈ state.table) :
    settlements (state.history row.id) = if row.pending then 0 else 1 := by
  obtain ⟨slot, hpath, hmatches⟩ := htracks.path row.id
  have hrowMatches := hmatches row hrow rfl
  obtain ⟨hle, hopen⟩ := hpath.settlements_le_one (htracks.noDiscard row.id)
  cases slot with
  | free => rw [hrowMatches.1, hopen id]; rfl
  | held _ => rw [hrowMatches.1, hopen id]; rfl
  | settled =>
    have hpos := hpath.settlements_pos_of_closed id trivial
    rw [hrowMatches.1]
    exact Nat.le_antisymm hle hpos
  | retired => exact hrowMatches.elim

variable [DecidableEq Worker]

theorem Tracks.setPhase {phase : Phase}
    (howned : ∀ batch, phase.batch? = some batch -> state.minted batch.token = some worker) :
    Tracks (state.setPhase worker phase) := by
  refine ⟨htracks.path, htracks.noDiscard, htracks.attempts, htracks.issued, htracks.unissued,
    htracks.taken, ?_⟩
  intro other batch hbatch
  by_cases hother : other = worker
  · subst hother
    rw [setPhase_phase_self] at hbatch
    exact howned batch hbatch
  · rw [setPhase_phase_of_ne hother] at hbatch
    exact htracks.owned other batch hbatch

omit htracks in
theorem batch?_afterReply {reply : Bool} {batch found : Batch}
    (hbatch : (afterReply reply batch).batch? = some found) : found = batch := by
  cases reply <;> exact (Option.some.inj hbatch).symm

theorem Tracks.afterClaim (config : Config) (worker : Worker) (token : Token) (leaseDeadline : Int)
    (topics : List String) (locked : Nat -> Bool) (reply : Bool)
    (hfresh : state.minted token = none) :
    Tracks (state.afterClaim config worker token leaseDeadline topics locked reply) := by
  have hkeep : ∀ other owner, state.minted other = some owner ->
      update state.minted token (some worker) other = some owner := by
    intro other owner howner
    have hne : other ≠ token := by
      rintro rfl
      rw [hfresh] at howner
      cases howner
    rw [update_of_ne hne]
    exact howner
  let minting : State Worker :=
    { state with minted := update state.minted token (some worker) }
  have hminting : Tracks minting :=
    ⟨htracks.path, htracks.noDiscard, htracks.attempts, htracks.issued, htracks.unissued,
      fun id claimant hmem => hkeep _ _ (htracks.taken id claimant hmem),
      fun other batch hbatch => hkeep _ _ (htracks.owned other batch hbatch)⟩
  have hminted : minting.minted token = some worker := update_self ..
  let rows := state.dueRows config topics locked
  have hclaimed : Tracks (minting.exec
      (claimUpdate (rows.map OutboxRow.id) state.now config.settings.leaseMs token)
      (.take (worker, token))) := by
    refine hminting.exec (by simp) ?_ ?_ ?_ (fun _ => rfl)
    · rintro claimant heq
      cases heq
      exact hminted
    · intro row hrow hselect slot hpath hmatches
      have hid : row.id ∈ rows.map OutboxRow.id := by
        simpa only [claimUpdate, contains_iff_mem] using hselect
      have hdue : row ∈ rows := mem_due_of_id hrow hid
      have hpending : row.pending = true := (mem_due hdue).2
      cases slot with
      | free => exact ⟨_, .takeFree _, hpending, rfl⟩
      | held previous => exact ⟨_, .takeOver previous _, hpending, rfl⟩
      | settled => rw [hmatches.1] at hpending; cases hpending
      | retired => exact hmatches.elim
    · intro row hrow _
      exact congrArg (· + 1) (htracks.attempts row hrow)
  refine Tracks.setPhase hclaimed ?_
  intro batch hbatch
  cases reply with
  | false => cases hbatch
  | true =>
    rw [← Option.some.inj hbatch]
    exact hminted

end

end

section

variable [DecidableEq Worker] {config : Config} {state after : State Worker}
  {label : Label Worker}

theorem Tracks.step (htracks : Tracks state) (hstep : Step config state label after) :
    Tracks after := by
  have hown : ∀ worker phase batch, state.phase worker = phase ->
      phase.batch? = some batch -> state.minted batch.token = some worker := by
    intro worker phase batch hphase hbatch
    exact htracks.owned worker batch (hphase ▸ hbatch)
  cases hstep with
  | tick elapsed =>
    exact ⟨htracks.path, htracks.noDiscard, htracks.attempts, htracks.issued,
      htracks.unissued, htracks.taken, htracks.owned⟩
  | enqueue id event hissued hfresh => exact htracks.afterEnqueue id event hissued hfresh
  | claim worker token leaseDeadline topics locked reply hphase htopics hfresh =>
    exact htracks.afterClaim config worker token leaseDeadline topics locked reply hfresh
  | start worker clock event batch rest hphase hrest hfits =>
    have hmoved : Tracks (state.setPhase worker (.handling event { batch with rest := rest })) :=
      htracks.setPhase fun found hfound => by
        cases hfound
        exact hown worker _ batch hphase rfl
    exact ⟨hmoved.path, hmoved.noDiscard, hmoved.attempts, hmoved.issued, hmoved.unissued,
      hmoved.taken, hmoved.owned⟩
  | noHandler worker clock event batch rest hphase hrest hfits =>
    refine htracks.setPhase fun found hfound => ?_
    cases hfound
    exact hown worker _ batch hphase rfl
  | stop worker clock running batch hphase hstop =>
    refine htracks.setPhase fun found hfound => ?_
    cases hfound
    exact hown worker _ batch hphase rfl
  | releaseOne worker reply event batch hphase =>
    have hminted := hown worker _ batch hphase rfl
    refine (htracks.execRelease hminted [event.id] state.now).setPhase fun found hfound => ?_
    rw [batch?_afterReply hfound]
    exact hminted
  | handled worker event batch hphase =>
    refine htracks.setPhase fun found hfound => ?_
    cases hfound
    exact hown worker _ batch hphase rfl
  | threw worker thrown random event batch hphase =>
    refine htracks.setPhase fun found hfound => ?_
    cases hfound
    exact hown worker _ batch hphase rfl
  | complete worker reply event batch hphase =>
    have hminted := hown worker _ batch hphase rfl
    refine (htracks.execComplete hminted event.id state.now).setPhase fun found hfound => ?_
    rw [batch?_afterReply hfound]
    exact hminted
  | fail worker reply event outcome batch hphase =>
    have hminted := hown worker _ batch hphase rfl
    refine (htracks.execFail hminted event.id outcome state.now).setPhase
      fun found hfound => ?_
    rw [batch?_afterReply hfound]
    exact hminted
  | recordError worker batch hphase =>
    refine htracks.setPhase fun found hfound => ?_
    cases hfound
    rcases hphase with ⟨_, hphase⟩ | ⟨_, hphase⟩ | ⟨_, _, hphase⟩ <;>
      exact hown worker _ batch hphase rfl
  | releaseRest worker batch hphase =>
    have hminted := hown worker _ batch hphase rfl
    exact (htracks.execRelease hminted _ state.now).setPhase fun _ hfound => nomatch hfound
  | crash worker => exact htracks.setPhase fun _ hfound => nomatch hfound
  | cleanup retentionDays limit locked => exact htracks.afterCleanup retentionDays limit locked
  | deadLetterUnhandled topics olderThanDays limit locked htopics =>
    exact htracks.execClose state.now topics olderThanDays locked limit

theorem tracks_of_reachable (hreach : (outboxSystem config).Reachable state) : Tracks state :=
  hreach.invariant (fun _ hstart => .start hstart)
    (fun _ _ _ _ htracks hstep => htracks.step hstep)

variable {row : OutboxRow}

theorem Tracks.changed_by_recorder (htracks : Tracks state) (hstep : Step config state label after)
    {worker : Worker} (hrecorder : label.recorder = some worker) (hrow : row ∈ state.table)
    (hchanged : row ∉ after.table) :
    ∃ batch, (state.phase worker).batch? = some batch /\ row.pending = true /\
      row.claimToken = some batch.token /\
      latest (state.history row.id) = some (worker, batch.token) := by
  cases hstep with
  | releaseOne actor reply event batch hphase =>
    cases hrecorder
    have hbatch : (state.phase worker).batch? = some batch := by rw [hphase]; rfl
    exact ⟨batch, hbatch, htracks.changed_of_fenced hbatch [event.id] rfl hrow hchanged⟩
  | complete actor reply event batch hphase =>
    cases hrecorder
    have hbatch : (state.phase worker).batch? = some batch := by rw [hphase]; rfl
    exact ⟨batch, hbatch, htracks.changed_of_fenced hbatch [event.id] rfl hrow hchanged⟩
  | fail actor reply event outcome batch hphase =>
    cases hrecorder
    have hbatch : (state.phase worker).batch? = some batch := by rw [hphase]; rfl
    exact ⟨batch, hbatch, htracks.changed_of_fenced hbatch [event.id] rfl hrow hchanged⟩
  | releaseRest actor batch hphase =>
    cases hrecorder
    have hbatch : (state.phase worker).batch? = some batch := by rw [hphase]; rfl
    exact ⟨batch, hbatch, htracks.changed_of_fenced hbatch _ rfl hrow hchanged⟩
  | tick => cases hrecorder
  | enqueue => cases hrecorder
  | claim => cases hrecorder
  | start => cases hrecorder
  | noHandler => cases hrecorder
  | stop => cases hrecorder
  | handled => cases hrecorder
  | threw => cases hrecorder
  | recordError => cases hrecorder
  | crash => cases hrecorder
  | cleanup => cases hrecorder
  | deadLetterUnhandled => cases hrecorder

theorem ended_row_stays (hstep : Step config state label after) (hlabel : label.isCleanup = false)
    (hrow : row ∈ state.table) (hended : row.pending = false) : row ∈ after.table := by
  have hfenced : ∀ ids token, fenced ids token row = true -> row.pending = true :=
    fun _ _ hselect => (fenced_eq_true.mp hselect).2.2
  cases hstep with
  | tick => exact hrow
  | enqueue id event hissued hfresh => exact (mem_enqueue hfresh).mpr (.inl hrow)
  | claim worker token leaseDeadline topics locked reply hphase htopics hfresh =>
    refine ended_mem_apply hrow hended fun hselect => ?_
    have hid : row.id ∈ (state.dueRows config topics locked).map OutboxRow.id := by
      simpa only [claimUpdate, contains_iff_mem] using hselect
    exact (mem_due (mem_due_of_id hrow hid)).2
  | start => exact hrow
  | noHandler => exact hrow
  | stop => exact hrow
  | releaseOne => exact ended_mem_apply hrow hended (hfenced _ _)
  | handled => exact hrow
  | threw => exact hrow
  | complete => exact ended_mem_apply hrow hended (hfenced _ _)
  | fail => exact ended_mem_apply hrow hended (hfenced _ _)
  | recordError => exact hrow
  | releaseRest => exact ended_mem_apply hrow hended (hfenced _ _)
  | crash => exact hrow
  | cleanup => cases hlabel
  | deadLetterUnhandled =>
    exact ended_mem_apply hrow hended fun hselect => (Bool.and_eq_true_iff.mp hselect).2

theorem ended_row_stays_run {labels : List (Label Worker)}
    (hrun : (outboxSystem config).Run state labels after)
    (hlabels : ∀ label ∈ labels, label.isCleanup = false) (hrow : row ∈ state.table)
    (hended : row.pending = false) : row ∈ after.table := by
  induction hrun with
  | nil => exact hrow
  | cons hstep _ ih =>
    exact ih (fun label hlabel => hlabels label (mem_cons_of_mem _ hlabel))
      (ended_row_stays hstep (hlabels _ mem_cons_self) hrow hended)

/-- In every reachable state: a worker's complete, fail, or release changes a row
only while that row is pending and its most recent claim is the worker's own; no
row ends twice; and a row that ended is the same after every run without cleanup. -/
theorem outbox_rows_end_once (hreach : (outboxSystem config).Reachable state) :
    (∀ label after worker row, Step config state label after ->
      label.recorder = some worker -> row ∈ state.table -> row ∉ after.table ->
        ∃ batch, (state.phase worker).batch? = some batch /\ row.pending = true /\
          row.claimToken = some batch.token /\
          latest (state.history row.id) = some (worker, batch.token)) /\
    (∀ id, settlements (state.history id) ≤ 1) /\
    (∀ row ∈ state.table,
      settlements (state.history row.id) = if row.pending then 0 else 1) /\
    (∀ labels after row, (outboxSystem config).Run state labels after ->
      (∀ label ∈ labels, label.isCleanup = false) ->
      row ∈ state.table -> row.pending = false -> row ∈ after.table) := by
  have htracks := tracks_of_reachable hreach
  refine ⟨?_, ?_, ?_, ?_⟩
  · intro label after worker row hstep hrecorder hrow hchanged
    exact htracks.changed_by_recorder hstep hrecorder hrow hchanged
  · intro id
    obtain ⟨slot, hpath, _⟩ := htracks.path id
    exact (hpath.settlements_le_one (htracks.noDiscard id)).1
  · exact fun row hrow => htracks.settlements_eq hrow
  · exact fun labels after row hrun hlabels hrow hended =>
      ended_row_stays_run hrun hlabels hrow hended

/-- The first worker completes the event it started: the changed row's latest
claim is that worker's. -/
theorem outbox_rows_end_once_first_complete :
    ∃ batch,
      ((startedState.setPhase false (.completing (reflectClaimed 1 0)
        { token := 0, leaseDeadline := 60000, rest := [] })).phase false).batch? = some batch /\
      latest (startedState.history 0) = some (false, batch.token) := by
  let completing := startedState.setPhase false (.completing (reflectClaimed 1 0)
    { token := 0, leaseDeadline := 60000, rest := [] })
  have hreach : (outboxSystem singleAttempt).Reachable completing :=
    ((System.Reachable.ofStart emptyState_start).run startedState_run).step
      (.handled startedState false (reflectClaimed 1 0)
        { token := 0, leaseDeadline := 60000, rest := [] } rfl)
  have hrow : claimRow 0 60000 0 (newRow 0 reflectEvent 0) ∈ completing.table :=
    mem_singleton.mpr rfl
  obtain ⟨batch, hbatch, _, _, hlatest⟩ :=
    (outbox_rows_end_once hreach).1 (.complete false true) _ false _
      (.complete completing false true (reflectClaimed 1 0)
        { token := 0, leaseDeadline := 60000, rest := [] } rfl) rfl hrow
      (fun hsame => absurd (mem_singleton.mp hsame) (by decide))
  exact ⟨batch, hbatch, hlatest⟩

end

end AnchorMind.Outbox.Delivery
