import AnchorMind.Outbox.Delivery

/-!
# Attempts and handler starts

Every handler start runs under a claim, and a claim that started a handler is
never handed back.  The starts of an event are therefore among its standing
claims, which its `attempts` column counts.  The module proves this accounting
for every run, crashes and lost leases included.
-/

namespace AnchorMind.Outbox.Attempts

open Kernel.KeyedTable Kernel.FencedSlot Kernel.Transition Outbox.Store Outbox.Worker List
  Outbox.Delivery

variable {Worker : Type} {state : State Worker}

structure Reads (state : State Worker) (token : Token) (event : OutboxEvent) : Prop where
  topic : state.issued event.id = some event.topic
  attempts : ∀ row ∈ state.table, row.id = event.id ->
    row.claimToken = some token -> row.attempts = event.attempts

structure Holds (state : State Worker) (worker : Worker) (phase : Phase) : Prop where
  reads : ∀ batch event, phase.batch? = some batch ->
    event ∈ phase.unstarted \/ phase.inHand = some event -> Reads state batch.token event
  unstarted : ∀ batch event, phase.batch? = some batch -> event ∈ phase.unstarted ->
    (worker, batch.token) ∈ standing (state.history event.id) /\
      (worker, batch.token) ∉ state.starts event.id
  distinct : (phase.unstarted.map OutboxEvent.id).Nodup

structure Accounts (state : State Worker) : Prop where
  started : ∀ id claimant, claimant ∈ state.starts id ->
    claimant ∈ standing (state.history id)
  startsNodup : ∀ id, (state.starts id).Nodup
  holds : ∀ worker, Holds state worker (state.phase worker)

variable {claimant : Claimant Worker}

theorem take_mem_of_standing {acts : List (Act (Claimant Worker))}
    (hstanding : claimant ∈ standing acts) : Act.take claimant ∈ acts := by
  induction acts with
  | nil => cases hstanding
  | cons act past ih =>
    cases act with
    | take holder =>
      rcases mem_cons.mp hstanding with rfl | hold
      · exact mem_cons_self
      · exact mem_cons_of_mem _ (ih hold)
    | undo _ => exact mem_cons_of_mem _ (ih (mem_of_mem_tail hstanding))
    | settle _ => exact mem_cons_of_mem _ (ih hstanding)
    | retry _ => exact mem_cons_of_mem _ (ih hstanding)
    | close => exact mem_cons_of_mem _ (ih hstanding)
    | retire => exact mem_cons_of_mem _ (ih hstanding)
    | discard => exact mem_cons_of_mem _ (ih hstanding)

theorem Accounts.starts_le (haccounts : Accounts state) (id : Nat) :
    (state.starts id).length ≤ (standing (state.history id)).length :=
  ((haccounts.startsNodup id).subperm fun claimant hmem =>
    haccounts.started id claimant hmem).length_le

theorem Accounts.starts_le_attempts (haccounts : Accounts state) (htracks : Tracks state)
    {row : OutboxRow} (hrow : row ∈ state.table) : (state.starts row.id).length ≤ row.attempts := by
  rw [htracks.attempts row hrow]
  exact haccounts.starts_le row.id

theorem Accounts.started_of_exhausted (haccounts : Accounts state) {id : Nat}
    (hlength : (standing (state.history id)).length ≤ (state.starts id).length)
    (hstanding : claimant ∈ standing (state.history id)) : claimant ∈ state.starts id := by
  have hsubperm := (haccounts.startsNodup id).subperm fun claimant hmem =>
    haccounts.started id claimant hmem
  exact (hsubperm.perm_of_length_le hlength).mem_iff.mpr hstanding

theorem Holds.shrink {worker : Worker} {before after : Phase} (hholds : Holds state worker before)
    (hbatch : ∀ batch, after.batch? = some batch ->
      ∃ old, before.batch? = some old /\ old.token = batch.token)
    (hunstarted : after.unstarted.Sublist before.unstarted)
    (hinHand : ∀ event, after.inHand = some event ->
      event ∈ before.unstarted \/ before.inHand = some event) : Holds state worker after := by
  refine ⟨?_, ?_, hholds.distinct.sublist (hunstarted.map OutboxEvent.id)⟩
  · intro batch event hfound hevent
    obtain ⟨old, hold, htoken⟩ := hbatch batch hfound
    rw [← htoken]
    refine hholds.reads old event hold ?_
    rcases hevent with hmem | hhand
    · exact .inl (hunstarted.subset hmem)
    · exact hinHand event hhand
  · intro batch event hfound hevent
    obtain ⟨old, hold, htoken⟩ := hbatch batch hfound
    rw [← htoken]
    exact hholds.unstarted old event hold (hunstarted.subset hevent)

theorem Holds.afterReply {worker : Worker} {before : Phase} {batch : Batch}
    (hholds : Holds state worker before) (hbatch : before.batch? = some batch)
    (hrest : batch.rest.Sublist before.unstarted) (reply : Bool) :
    Holds state worker (afterReply reply batch) := by
  refine hholds.shrink ?_ ?_ ?_
  · intro found hfound
    rw [batch?_afterReply hfound]
    exact ⟨batch, hbatch, rfl⟩
  · cases reply <;> exact hrest
  · intro event hevent
    cases reply <;> cases hevent

theorem Holds.idle (worker : Worker) : Holds state worker .idle :=
  ⟨(fun _ _ hbatch => nomatch hbatch), (fun _ _ hbatch => nomatch hbatch), nodup_nil⟩

section

variable {event : OutboxEvent}

theorem Reads.frame {after : State Worker} {token : Token} (hreads : Reads state token event)
    (hissued : after.issued event.id = state.issued event.id)
    (hrows : ∀ row ∈ after.table, row.claimToken = some token ->
      row.id = event.id -> row ∈ state.table) : Reads after token event :=
  ⟨hissued.trans hreads.topic, fun row hrow hid htoken =>
    hreads.attempts row (hrows row hrow htoken hid) hid htoken⟩

variable {act : Act (Claimant Worker)} {update : OutboxUpdate}

theorem Accounts.exec (haccounts : Accounts state)
    (htoken : ∀ row ∈ state.table, update.select row = true ->
      ∀ worker batch, (state.phase worker).batch? = some batch ->
        (update.image row).claimToken ≠ some batch.token)
    (hstanding : ∀ id claimant, id ∈ state.table.affected update ->
      claimant ∈ standing (state.history id) ->
      (claimant ∈ state.starts id \/ ∃ batch event,
        (state.phase claimant.1).batch? = some batch /\ batch.token = claimant.2 /\
          event ∈ (state.phase claimant.1).unstarted /\ event.id = id) ->
      claimant ∈ standing (act :: state.history id)) : Accounts (state.exec update act) := by
  have hkeep : ∀ id claimant, claimant ∈ standing (state.history id) ->
      (claimant ∈ state.starts id \/ ∃ batch event,
        (state.phase claimant.1).batch? = some batch /\ batch.token = claimant.2 /\
          event ∈ (state.phase claimant.1).unstarted /\ event.id = id) ->
      claimant ∈ standing ((state.exec update act).history id) := by
    intro id claimant hmem hneeded
    by_cases haffected : id ∈ state.table.affected update
    · rw [show (state.exec update act).history id = act :: state.history id from
        record_of_mem haffected]
      exact hstanding id claimant haffected hmem hneeded
    · rw [show (state.exec update act).history id = state.history id from
        record_of_not_mem haffected]
      exact hmem
  refine ⟨?_, haccounts.startsNodup, ?_⟩
  · intro id claimant hmem
    exact hkeep id claimant (haccounts.started id claimant hmem) (.inl hmem)
  · intro worker
    have hholds := haccounts.holds worker
    refine ⟨?_, ?_, hholds.distinct⟩
    · intro batch event hbatch hevent
      refine (hholds.reads batch event hbatch hevent).frame rfl ?_
      intro row hrow hrowToken _
      obtain ⟨source, hsource, ⟨hselect, rfl⟩ | ⟨_, rfl⟩⟩ := Table.mem_apply.mp hrow
      · exact absurd hrowToken (htoken source hsource hselect worker batch hbatch)
      · exact hsource
    · intro batch event hbatch hevent
      obtain ⟨hstands, hunstarted⟩ := hholds.unstarted batch event hbatch hevent
      exact ⟨hkeep event.id (worker, batch.token) hstands
        (Or.inr ⟨batch, event, hbatch, rfl, hevent, rfl⟩), hunstarted⟩

theorem Accounts.execClearing (haccounts : Accounts state)
    (hclears : ∀ row, (update.image row).claimToken = none)
    (hstanding : ∀ past, standing (act :: past) = standing past) :
    Accounts (state.exec update act) := by
  refine haccounts.exec ?_ ?_
  · intro row _ _ worker batch _
    rw [hclears row]
    exact nofun
  · intro id claimant _ hmem _
    rw [hstanding]
    exact hmem

variable {worker : Worker}

theorem Accounts.execRelease (haccounts : Accounts state) (htracks : Tracks state) {token : Token}
    (hminted : state.minted token = some worker) {ids : List Nat} (now : Int)
    (hunstarted : ∀ id ∈ ids, (worker, token) ∉ state.starts id)
    (hdropped : ∀ event ∈ (state.phase worker).unstarted, event.id ∉ ids) :
    Accounts (state.exec (release ids token now) (.undo (worker, token))) := by
  refine haccounts.exec (fun _ _ _ _ _ _ => nofun) ?_
  intro id claimant haffected hmem hneeded
  obtain ⟨row, hrow, rfl, hselect⟩ := Table.exists_of_mem_affected haffected
  obtain ⟨hid, hrowToken, _⟩ := fenced_eq_true.mp hselect
  obtain ⟨slot, hpath, hmatches⟩ := htracks.path row.id
  have hslot := htracks.held_of_token hminted hrowToken hpath (hmatches row hrow rfl)
  obtain ⟨older, holder⟩ := hpath.standing_eq_of_held hslot
  change claimant ∈ (standing (state.history row.id)).tail
  rw [holder] at hmem ⊢
  rcases mem_cons.mp hmem with rfl | holds
  · rcases hneeded with hstart | ⟨_, event, _, _, hevent, hkey⟩
    · exact absurd hstart (hunstarted row.id hid)
    · exact absurd (hkey ▸ hid) (hdropped event hevent)
  · exact holds

theorem Accounts.afterEnqueue (haccounts : Accounts state) (id : Nat) (event : NewEvent)
    (hissued : state.issued id = none) (hfresh : ∀ row ∈ state.table, row.id ≠ id) :
    Accounts (state.afterEnqueue id event hfresh) := by
  refine ⟨haccounts.started, haccounts.startsNodup, fun worker => ?_⟩
  have hholds := haccounts.holds worker
  refine ⟨?_, hholds.unstarted, hholds.distinct⟩
  intro batch read hbatch hread
  have hreads := hholds.reads batch read hbatch hread
  have hne : read.id ≠ id := by
    intro hid
    have htopic := hreads.topic
    rw [hid, hissued] at htopic
    cases htopic
  refine hreads.frame (Function.update_of_ne hne ..) ?_
  intro row hrow _ hid
  rcases (mem_enqueue hfresh).mp hrow with hold | rfl
  · exact hold
  · exact absurd hid.symm hne

theorem Accounts.afterCleanup (haccounts : Accounts state) (retentionDays limit : Nat)
    (locked : Nat -> Bool) : Accounts (state.afterCleanup retentionDays limit locked) := by
  have hsame : ∀ id, standing
      ((state.afterCleanup retentionDays limit locked).history id) =
        standing (state.history id) := by
    intro id
    by_cases hid : id ∈ cleanupIds state.table state.now retentionDays locked limit
    · rw [show (state.afterCleanup retentionDays limit locked).history id =
        .retire :: state.history id from record_of_mem hid]
      rfl
    · exact congrArg standing (record_of_not_mem hid)
  refine ⟨?_, haccounts.startsNodup, fun worker => ?_⟩
  · intro id claimant hmem
    rw [hsame id]
    exact haccounts.started id claimant hmem
  · have hholds := haccounts.holds worker
    refine ⟨?_, ?_, hholds.distinct⟩
    · intro batch event hbatch hevent
      exact (hholds.reads batch event hbatch hevent).frame rfl
        fun row hrow _ _ => (Table.mem_deleteWhere.mp hrow).1
    · intro batch event hbatch hevent
      rw [hsame event.id]
      exact hholds.unstarted batch event hbatch hevent

variable [DecidableEq Worker]

theorem Accounts.setPhase (haccounts : Accounts state) {phase : Phase}
    (hholds : Holds state worker phase) : Accounts (state.setPhase worker phase) := by
  refine ⟨haccounts.started, haccounts.startsNodup, fun other => ?_⟩
  by_cases hother : other = worker
  · subst hother
    rw [setPhase_phase_self]
    exact ⟨fun batch event hbatch hevent =>
      (hholds.reads batch event hbatch hevent).frame rfl fun _ hrow _ _ => hrow,
      hholds.unstarted, hholds.distinct⟩
  · rw [setPhase_phase_of_ne hother]
    have hold := haccounts.holds other
    exact ⟨fun batch event hbatch hevent =>
      (hold.reads batch event hbatch hevent).frame rfl fun _ hrow _ _ => hrow,
      hold.unstarted, hold.distinct⟩

theorem Accounts.afterStart (haccounts : Accounts state) {batch : Batch} {rest : List OutboxEvent}
    (hphase : state.phase worker = .delivering batch) (hrest : batch.rest = event :: rest)
    (htracks : Tracks state) :
    Accounts (state.afterStart worker event { batch with rest := rest }) := by
  have hholds := haccounts.holds worker
  rw [hphase] at hholds
  have hmem : event ∈ (Phase.delivering batch).unstarted := by
    change event ∈ batch.rest
    rw [hrest]
    exact mem_cons_self
  obtain ⟨hstands, hnew⟩ := hholds.unstarted batch event rfl hmem
  have hdistinct : ((event :: rest).map OutboxEvent.id).Nodup := hrest ▸ hholds.distinct
  have hminted : state.minted batch.token = some worker :=
    htracks.owned worker batch (by rw [hphase]; rfl)
  have hshrunk : Holds state worker (.handling event { batch with rest := rest }) := by
    refine hholds.shrink ?_ ?_ ?_
    · intro found hfound
      cases hfound
      exact ⟨batch, rfl, rfl⟩
    · change rest.Sublist batch.rest
      rw [hrest]
      exact sublist_cons_self event rest
    · intro found hfound
      cases hfound
      exact .inl hmem
  have hmoved := haccounts.setPhase hshrunk
  -- A start under `(worker, batch.token)` only concerns `event`, which the
  -- worker no longer lists and no other worker can hold under that pair.
  have hother : ∀ id claimant, claimant ∉ state.starts id ->
      (id = event.id -> claimant ≠ (worker, batch.token)) ->
      claimant ∉ (state.afterStart worker event { batch with rest := rest }).starts id := by
    intro id claimant hold hne hmemAfter
    change claimant ∈ (if id = event.id then (worker, batch.token) :: state.starts id
      else state.starts id) at hmemAfter
    by_cases hid : id = event.id
    · rw [if_pos hid] at hmemAfter
      rcases mem_cons.mp hmemAfter with heq | hin
      · exact hne hid heq
      · exact hold hin
    · rw [if_neg hid] at hmemAfter
      exact hold hmemAfter
  refine ⟨?_, ?_, fun other => ?_⟩
  · intro id claimant hmemAfter
    change claimant ∈ (if id = event.id then (worker, batch.token) :: state.starts id
      else state.starts id) at hmemAfter
    change claimant ∈ standing (state.history id)
    by_cases hid : id = event.id
    · rw [if_pos hid] at hmemAfter
      rcases mem_cons.mp hmemAfter with rfl | hin
      · rw [hid]
        exact hstands
      · exact haccounts.started id claimant hin
    · rw [if_neg hid] at hmemAfter
      exact haccounts.started id claimant hmemAfter
  · intro id
    change (if id = event.id then (worker, batch.token) :: state.starts id
      else state.starts id).Nodup
    by_cases hid : id = event.id
    · rw [if_pos hid, hid]
      exact nodup_cons.mpr ⟨hnew, haccounts.startsNodup event.id⟩
    · rw [if_neg hid]
      exact haccounts.startsNodup id
  · have hmovedHolds := hmoved.holds other
    refine ⟨fun found read hfound hread =>
      (hmovedHolds.reads found read hfound hread).frame rfl fun _ hrow _ _ => hrow, ?_,
      hmovedHolds.distinct⟩
    intro found read hfound hread
    obtain ⟨hstanding, hunstarted⟩ := hmovedHolds.unstarted found read hfound hread
    refine ⟨hstanding, hother read.id (other, found.token) hunstarted ?_⟩
    intro hid heq
    obtain ⟨rfl, htoken⟩ := Prod.mk.inj heq
    have hread' : read ∈ rest := by
      have hphaseAfter : (state.afterStart other event { batch with rest := rest }).phase other =
          .handling event { batch with rest := rest } := Function.update_self ..
      rw [hphaseAfter] at hread
      exact hread
    exact (nodup_cons.mp hdistinct).1 (hid ▸ mem_map.mpr ⟨read, hread', rfl⟩)

theorem Accounts.afterClaim (haccounts : Accounts state) (htracks : Tracks state) (config : Config)
    (worker : Worker) (token : Token) (leaseDeadline : Int) (topics : List String)
    (locked : Nat -> Bool) (reply : Bool) (hfresh : state.minted token = none) :
    Accounts (state.afterClaim config worker token leaseDeadline topics locked reply) := by
  let rows := state.dueRows config topics locked
  let update := claimUpdate (rows.map OutboxRow.id) state.now config.settings.leaseMs token
  have hlive : ∀ other batch, (state.phase other).batch? = some batch ->
      batch.token ≠ token := by
    intro other batch hbatch htoken
    have howner := htracks.owned other batch hbatch
    rw [htoken, hfresh] at howner
    cases howner
  have hunstarted : ∀ id, (worker, token) ∉ state.starts id := by
    intro id hmem
    have htaken := htracks.taken id (worker, token)
      (take_mem_of_standing (haccounts.started id (worker, token) hmem))
    rw [show state.minted token = none from hfresh] at htaken
    cases htaken
  have hclaimed : Accounts (state.exec update (.take (worker, token))) := by
    refine haccounts.exec ?_ ?_
    · intro row _ _ other batch hbatch heq
      exact hlive other batch hbatch (Option.some.inj heq).symm
    · intro id claimant _ hmem _
      exact mem_cons_of_mem _ hmem
  have hheld : Holds (state.exec update (.take (worker, token))) worker
      (if reply then
        .delivering
          { token := token
            leaseDeadline := leaseDeadline
            rest := claimedEvents rows state.now config.settings.leaseMs token }
      else .idle) := by
    cases reply with
    | false => exact .idle worker
    | true =>
      refine ⟨?_, ?_, claimedEvents_ids_nodup⟩
      · intro batch event hbatch hevent
        cases hbatch
        rcases hevent with hmem | hnone
        · obtain ⟨row, hrow, rfl⟩ := mem_claimedEvents.mp hmem
          have hrowMem := (mem_due hrow).1
          refine ⟨htracks.issued row hrowMem, ?_⟩
          intro after hafter hid hafterToken
          obtain ⟨source, hsource, ⟨_, rfl⟩ | ⟨hidle, rfl⟩⟩ := Table.mem_apply.mp hafter
          · rw [Table.eq_of_key_eq hsource hrowMem hid]
            rfl
          · rw [Table.eq_of_key_eq hsource hrowMem hid] at hidle
            have hselected : update.select row = true :=
              contains_iff_mem.mpr (mem_map.mpr ⟨row, hrow, rfl⟩)
            rw [hselected] at hidle
            cases hidle
        · cases hnone
      · intro batch event hbatch hevent
        cases hbatch
        obtain ⟨row, hrow, rfl⟩ := mem_claimedEvents.mp hevent
        refine ⟨?_, hunstarted row.id⟩
        have haffected : row.id ∈ state.table.affected update :=
          (Table.key_mem_affected (mem_due hrow).1).mpr
            (contains_iff_mem.mpr (mem_map.mpr ⟨row, hrow, rfl⟩))
        change (worker, token) ∈ standing (record _ _ _ row.id)
        rw [record_of_mem haffected]
        exact mem_cons_self
  have hmoved := hclaimed.setPhase hheld
  exact ⟨hmoved.started, hmoved.startsNodup, fun other =>
    ⟨fun batch event hbatch hevent =>
      ((hmoved.holds other).reads batch event hbatch hevent).frame rfl fun _ hrow _ _ => hrow,
      (hmoved.holds other).unstarted, (hmoved.holds other).distinct⟩⟩

end

section

variable [DecidableEq Worker] {config : Config} {after : State Worker} {label : Label Worker}

theorem Accounts.step (haccounts : Accounts state) (htracks : Tracks state)
    (hstep : Step config state label after) : Accounts after := by
  have hheld : ∀ worker phase, state.phase worker = phase -> Holds state worker phase :=
    fun worker _ hphase => hphase ▸ haccounts.holds worker
  have hown : ∀ worker phase batch, state.phase worker = phase ->
      phase.batch? = some batch -> state.minted batch.token = some worker :=
    fun worker _ batch hphase hbatch => htracks.owned worker batch (hphase ▸ hbatch)
  cases hstep with
  | tick elapsed =>
    exact ⟨haccounts.started, haccounts.startsNodup, fun worker =>
      ⟨fun batch event hbatch hevent =>
        ((haccounts.holds worker).reads batch event hbatch hevent).frame rfl
          fun _ hrow _ _ => hrow,
        (haccounts.holds worker).unstarted, (haccounts.holds worker).distinct⟩⟩
  | enqueue id event hissued hfresh => exact haccounts.afterEnqueue id event hissued hfresh
  | claim worker token leaseDeadline topics locked reply hphase htopics hfresh =>
    exact haccounts.afterClaim htracks config worker token leaseDeadline topics locked reply
      hfresh
  | start worker clock event batch rest hphase hrest hfits =>
    exact haccounts.afterStart hphase hrest htracks
  | noHandler worker clock event batch rest hphase hrest hfits =>
    refine haccounts.setPhase ((hheld worker _ hphase).shrink ?_ ?_ fun _ hnone => by cases hnone)
    · intro found hfound
      cases hfound
      exact ⟨batch, rfl, rfl⟩
    · change (event :: rest).Sublist batch.rest
      rw [hrest]
  | stop worker clock running batch hphase hstop =>
    refine haccounts.setPhase ((hheld worker _ hphase).shrink ?_ (Sublist.refl _)
      fun _ hnone => by cases hnone)
    exact fun found hfound => ⟨batch, rfl, congrArg Batch.token (Option.some.inj hfound)⟩
  | releaseOne worker reply event batch hphase =>
    have hholds := hheld worker _ hphase
    have hshrunk := haccounts.setPhase
      (hholds.afterReply rfl (sublist_cons_self event batch.rest) reply)
    have hnodup : event.id ∉ batch.rest.map OutboxEvent.id :=
      (nodup_cons.mp hholds.distinct).1
    refine Accounts.execRelease hshrunk (htracks.setPhase fun found hfound =>
      ?_) (hown worker _ batch hphase rfl)
      state.now ?_ ?_
    · rw [batch?_afterReply hfound]
      exact hown worker _ batch hphase rfl
    · intro id hid
      rw [mem_singleton.mp hid]
      exact (hholds.unstarted batch event rfl mem_cons_self).2
    · intro listed hlisted hid
      rw [setPhase_phase_self] at hlisted
      have hrest : listed ∈ batch.rest := by cases reply <;> exact hlisted
      exact hnodup (mem_map.mpr ⟨listed, hrest, mem_singleton.mp hid⟩)
  | handled worker event batch hphase =>
    refine haccounts.setPhase ((hheld worker _ hphase).shrink ?_ (Sublist.refl _) ?_)
    · exact fun found hfound => ⟨batch, rfl, congrArg Batch.token (Option.some.inj hfound)⟩
    · exact fun found hfound => .inr hfound
  | threw worker thrown random event batch hphase =>
    refine haccounts.setPhase ((hheld worker _ hphase).shrink ?_ (Sublist.refl _) ?_)
    · exact fun found hfound => ⟨batch, rfl, congrArg Batch.token (Option.some.inj hfound)⟩
    · exact fun found hfound => .inr hfound
  | complete worker reply event batch hphase =>
    have hshrunk := haccounts.setPhase
      ((hheld worker _ hphase).afterReply rfl (Sublist.refl _) reply)
    exact Accounts.execClearing hshrunk (fun _ => rfl) (fun _ => rfl)
  | fail worker reply event outcome batch hphase =>
    have hshrunk := haccounts.setPhase
      ((hheld worker _ hphase).afterReply rfl (Sublist.refl _) reply)
    refine Accounts.execClearing hshrunk (fun _ => rfl) (fun past => ?_)
    cases hdead : outcome.dead <;> simp [failAct, hdead, standing]
  | recordError worker batch hphase =>
    rcases hphase with ⟨event, hphase⟩ | ⟨event, hphase⟩ | ⟨event, outcome, hphase⟩
    · exact haccounts.setPhase ((hheld worker _ hphase).afterReply rfl
        (sublist_cons_self event batch.rest) false)
    · exact haccounts.setPhase ((hheld worker _ hphase).afterReply rfl
        (Sublist.refl _) false)
    · exact haccounts.setPhase ((hheld worker _ hphase).afterReply rfl
        (Sublist.refl _) false)
  | releaseRest worker batch hphase =>
    have hholds := hheld worker _ hphase
    have hidle : Accounts (state.setPhase worker .idle) := haccounts.setPhase (.idle worker)
    refine Accounts.execRelease hidle
      (htracks.setPhase fun _ hfound => by cases hfound) (hown worker _ batch hphase rfl)
      state.now ?_ ?_
    · intro id hid
      obtain ⟨event, hevent, rfl⟩ := mem_map.mp hid
      exact (hholds.unstarted batch event rfl hevent).2
    · intro listed hlisted
      rw [setPhase_phase_self] at hlisted
      cases hlisted
  | crash worker => exact haccounts.setPhase (.idle worker)
  | cleanup retentionDays limit locked => exact haccounts.afterCleanup retentionDays limit locked
  | deadLetterUnhandled topics olderThanDays limit locked htopics =>
    exact haccounts.execClearing (fun _ => rfl) (fun _ => rfl)

theorem accounts_of_reachable (hreach : (outboxSystem config).Reachable state) :
    Accounts state := by
  refine hreach.invariant (fun origin hstart => ?_)
    (fun before label after hbefore haccounts hstep =>
      haccounts.step (tracks_of_reachable hbefore) hstep)
  obtain ⟨_, hphase, _, _, _, hstarts⟩ := hstart
  refine ⟨?_, ?_, ?_⟩
  · intro id claimant hmem
    rw [hstarts id] at hmem
    cases hmem
  · intro id
    rw [hstarts id]
    exact nodup_nil
  · intro worker
    rw [hphase worker]
    exact .idle worker

def StartsCovered (config : Config) (state : State Worker) : Prop :=
  (∀ row ∈ state.table, (state.starts row.id).length ≤ row.attempts) /\
  ∀ topics olderThanDays limit locked after,
    Step config state (.deadLetterUnhandled topics olderThanDays limit locked) after ->
      ∀ row ∈ state.table, state.starts row.id ≠ [] -> row ∈ after.table

theorem sweep_spares_started (htracks : Tracks state) (haccounts : Accounts state)
    {topics : List String} {olderThanDays limit : Nat} {locked : Nat -> Bool}
    (hstep : Step config state (.deadLetterUnhandled topics olderThanDays limit locked) after)
    {row : OutboxRow} (hrow : row ∈ state.table) (hstarted : state.starts row.id ≠ []) :
    row ∈ after.table := by
  have hpositive : 0 < row.attempts :=
    (length_pos_iff.mpr hstarted).trans_le (haccounts.starts_le_attempts htracks hrow)
  cases hstep with
  | deadLetterUnhandled _ _ _ _ _ =>
    refine Table.mem_apply_of_unselected hrow ?_
    by_contra hselect
    have hselected := Bool.and_eq_true_iff.mp (Bool.not_eq_false _ ▸ hselect)
    have hids := contains_iff_mem.mp hselected.1
    have hzero := (unclaimed_of_unhandledIds hrow hids).2
    omega

/-- In every reachable state the attempts cover the starts, and no started event
is swept as one without a handler. -/
theorem starts_covered (hreach : (outboxSystem config).Reachable state) :
    StartsCovered config state := by
  have htracks := tracks_of_reachable hreach
  have haccounts := accounts_of_reachable hreach
  constructor
  · intro row hrow
    exact haccounts.starts_le_attempts htracks hrow
  · intro topics olderThanDays limit locked after hstep row hrow hstarted
    exact sweep_spares_started htracks haccounts hstep hrow hstarted

/-- A started handler is covered. -/
theorem starts_covered_first_start : StartsCovered singleAttempt startedState :=
  starts_covered
    ((System.Reachable.ofStart emptyState_start).run startedState_run)

end

end AnchorMind.Outbox.Attempts
