import AnchorMind.Outbox.Attempts

/-!
# Handler windows

A worker reads its clock before it claims, and starts a handler only when its time limit and
a margin fit into what is left of the lease.  The claim sets `available_at` by the database
clock, so no other claim takes the row before the lease has run out there.  With the times of
starts and ends, and every worker's clock at a fixed offset from the database's, the windows
of one event do not overlap.
-/

namespace AnchorMind.Outbox.Windows

open Kernel.KeyedTable Kernel.FencedSlot Kernel.Transition Outbox.Store Outbox.Worker List Function
  Outbox.Delivery Outbox.Attempts

variable {Worker : Type} {config : Config} {state after : State Worker} {label : Label Worker}

/-- The row of an event carries a claim's token until `bound`, or `bound` has
passed. -/
def Covered (state : State Worker) (id : Nat) (token : Token) (bound : Int) : Prop :=
  bound ≤ state.now \/ ∃ row ∈ state.table, row.id = id /\
    row.claimToken = some token /\ bound ≤ row.availableAt

def named : Phase -> List Nat
  | .releasingOne event _ => [event.id]
  | .completing event _ => [event.id]
  | .failing event _ _ => [event.id]
  | .releasingRest batch => batch.rest.map OutboxEvent.id
  | _ => []

theorem due_available {table : OutboxTable} {now : Int} {topics : List String}
    {locked : Nat -> Bool} {limit : Nat} {row : OutboxRow}
    (hrow : row ∈ due table now topics locked limit) : row.availableAt ≤ now := by
  obtain ⟨_, hclaimable⟩ := Table.mem_of_mem_selectOrdered hrow
  simp only [claimable, Bool.and_eq_true, decide_eq_true_eq] at hclaimable
  exact hclaimable.1.1.2

theorem claimed_row (htracks : Tracks state) {row : OutboxRow} (hrow : row ∈ state.table)
    {token : Token} (htoken : row.claimToken = some token) :
    row.pending = true /\ 0 < row.attempts := by
  obtain ⟨slot, hpath, hmatches⟩ := htracks.path row.id
  have hrowMatches := hmatches row hrow rfl
  cases slot with
  | free => cases hrowMatches.2.symm.trans htoken
  | settled => cases hrowMatches.2.symm.trans htoken
  | retired => exact hrowMatches.elim
  | held claimant =>
    obtain ⟨older, hstanding⟩ := hpath.standing_eq_of_held rfl
    refine ⟨hrowMatches.1, ?_⟩
    rw [htracks.attempts row hrow, hstanding]
    exact Nat.succ_pos _

section

variable {id : Nat} {token : Token} {bound : Int}

section

variable (hcovered : Covered state id token bound)
include hcovered

theorem Covered.mono {earlier : Int} (hle : earlier ≤ bound) : Covered state id token earlier := by
  refine hcovered.imp hle.trans ?_
  rintro ⟨row, hrow, hid, htoken, havailable⟩
  exact ⟨row, hrow, hid, htoken, hle.trans havailable⟩

variable {act : Act (Claimant Worker)} {update : OutboxUpdate}

theorem Covered.exec
    (hlate : ∀ row ∈ state.table, row.id = id -> row.claimToken = some token ->
      update.select row = true -> row.availableAt ≤ state.now) :
    Covered (state.exec update act) id token bound := by
  rcases hcovered with hpassed | ⟨row, hrow, hid, htoken, havailable⟩
  · exact .inl hpassed
  · cases hselect : update.select row with
    | true => exact .inl (havailable.trans (hlate row hrow hid htoken hselect))
    | false =>
      exact Or.inr ⟨row, Table.mem_apply_of_unselected hrow hselect, hid, htoken, havailable⟩

theorem Covered.execFenced {ids : List Nat} {own : Token} (hselect : update.select = fenced ids own)
    (hother : own = token -> id ∉ ids) : Covered (state.exec update act) id token bound := by
  refine hcovered.exec fun row _ hid htoken hrow => ?_
  rw [hselect] at hrow
  obtain ⟨hmem, hown, _⟩ := fenced_eq_true.mp hrow
  have hsame : own = token := Option.some.inj (hown.symm.trans htoken)
  exact absurd (hid ▸ hmem) (hother hsame)

variable [DecidableEq Worker]

theorem Covered.setPhase (worker : Worker) (phase : Phase) :
    Covered (state.setPhase worker phase) id token bound := hcovered

/-- Only the recording statement of the claim itself ends a cover early. -/
theorem Covered.step (htracks : Tracks state) (hstep : Step config state label after)
    (hother : ∀ worker batch, label.recorder = some worker ->
      (state.phase worker).batch? = some batch -> batch.token = token ->
        id ∉ named (state.phase worker)) : Covered after id token bound := by
  have hunnamed : ∀ worker phase batch, label.recorder = some worker ->
      state.phase worker = phase -> phase.batch? = some batch -> batch.token = token ->
        id ∉ named phase := by
    rintro worker _ batch hrecorder rfl hbatch htoken
    exact hother worker batch hrecorder hbatch htoken
  cases hstep with
  | tick elapsed =>
    rcases hcovered with hpassed | hrow
    · left
      change bound ≤ state.now + elapsed
      omega
    · exact .inr hrow
  | enqueue newId event hissued hfresh =>
    refine hcovered.imp (fun hpassed => hpassed) ?_
    rintro ⟨row, hrow, hfields⟩
    exact ⟨row, (mem_enqueue hfresh).mpr (.inl hrow), hfields⟩
  | claim worker newToken leaseDeadline topics locked reply hphase htopics hfresh =>
    let rows := state.dueRows config topics locked
    let update := claimUpdate (rows.map OutboxRow.id) state.now config.settings.leaseMs newToken
    have hclaimed : Covered (state.exec update (.take (worker, newToken))) id token bound := by
      refine hcovered.exec fun row hrow _ _ hselect => ?_
      exact due_available (mem_due_of_id hrow (contains_iff_mem.mp hselect))
    exact hclaimed
  | start worker clock event batch rest hphase hrest hfits => exact hcovered
  | noHandler worker clock event batch rest hphase hrest hfits => exact hcovered
  | stop worker clock running batch hphase hstop => exact hcovered
  | releaseOne worker reply event batch hphase =>
    exact (Covered.execFenced hcovered rfl
      (hunnamed worker _ batch rfl hphase rfl)).setPhase worker _
  | handled worker event batch hphase => exact hcovered
  | threw worker thrown random event batch hphase => exact hcovered
  | complete worker reply event batch hphase =>
    exact (Covered.execFenced hcovered rfl
      (hunnamed worker _ batch rfl hphase rfl)).setPhase worker _
  | fail worker reply event outcome batch hphase =>
    exact (Covered.execFenced hcovered rfl
      (hunnamed worker _ batch rfl hphase rfl)).setPhase worker _
  | recordError worker batch hphase => exact hcovered
  | releaseRest worker batch hphase =>
    exact (Covered.execFenced hcovered rfl
      (hunnamed worker _ batch rfl hphase rfl)).setPhase worker _
  | crash worker => exact hcovered
  | cleanup retentionDays limit locked =>
    refine hcovered.imp (fun hpassed => hpassed) ?_
    rintro ⟨row, hrow, hid, htoken, havailable⟩
    refine ⟨row, Table.mem_deleteWhere.mpr ⟨hrow, ?_⟩, hid, htoken, havailable⟩
    by_contra hselected
    have hexpired := processed_of_cleanupIds hrow (by simpa using hselected)
    have hpending := OutboxRow.pending_eq_true.mp (claimed_row htracks hrow htoken).1
    exact hexpired hpending.1
  | deadLetterUnhandled topics olderThanDays limit locked htopics =>
    refine hcovered.exec fun row hrow _ htoken hselect => ?_
    have hids := contains_iff_mem.mp (Bool.and_eq_true_iff.mp hselect).1
    have hzero := (unclaimed_of_unhandledIds hrow hids).2
    have hattempted := (claimed_row htracks hrow htoken).2
    omega

end

end

/-- One start of a handler: its claim, its time on the database clock, and the
time its worker saw it settle. -/
structure Window (Worker : Type) where
  id : Nat
  worker : Worker
  token : Token
  start : Int
  ended : Option Int

def Window.finish (timeoutMs : Int) (window : Window Worker) : Int :=
  match window.ended with
  | none => window.start + timeoutMs
  | some ended => min (window.start + timeoutMs) ended

structure TimedState (Worker : Type) where
  base : State Worker
  /-- The windows so far, newest first. -/
  windows : List (Window Worker)

def OnTime (config : Config) (offset : Worker -> Int) (state : State Worker) :
    Label Worker -> Prop
  | .claim worker _ leaseDeadline _ _ _ =>
    leaseDeadline ≤ state.now + offset worker + config.settings.leaseMs
  | .start worker clock => clock = state.now + offset worker
  | .noHandler worker clock => clock = state.now + offset worker
  | .stop worker clock _ => clock = state.now + offset worker
  | _ => True

section

variable [DecidableEq Worker]

/-- Note the time at which the handler in a worker's hands settled. -/
def closeWindow (state : State Worker) (worker : Worker) (window : Window Worker) :
    Window Worker :=
  match state.phase worker with
  | .handling event batch =>
    if window.worker = worker /\ window.token = batch.token /\ window.id = event.id /\
        window.ended = none then
      { window with ended := some state.now }
    else window
  | _ => window

def nextWindows (state : TimedState Worker) : Label Worker -> List (Window Worker)
  | .start worker _ =>
    match state.base.phase worker with
    | .delivering batch =>
      match batch.rest with
      | [] => state.windows
      | event :: _ =>
        { id := event.id
          worker := worker
          token := batch.token
          start := state.base.now
          ended := none } :: state.windows
    | _ => state.windows
  | .handled worker => state.windows.map (closeWindow state.base worker)
  | .threw worker _ _ => state.windows.map (closeWindow state.base worker)
  | _ => state.windows

def timedSystem (config : Config) (offset : Worker -> Int) :
    System (TimedState Worker) (Label Worker) where
  start := fun state => Start state.base /\ state.windows = []
  step := fun before label after =>
    Step config before.base label after.base /\ OnTime config offset before.base label /\
      after.windows = nextWindows before label

def WindowsApart (config : Config) (windows : List (Window Worker)) : Prop :=
  windows.Pairwise fun newer older => newer.id = older.id ->
    older.finish config.settings.handlerTimeoutMs ≤ newer.start

def events (phase : Phase) : List OutboxEvent := phase.inHand.toList ++ phase.unstarted

structure Timely (config : Config) (offset : Worker -> Int) (state : TimedState Worker) :
    Prop where
  distinct : ∀ worker, ((events (state.base.phase worker)).map OutboxEvent.id).Nodup
  leased : ∀ worker batch event, (state.base.phase worker).batch? = some batch ->
    event ∈ (state.base.phase worker).unstarted ->
      Covered state.base event.id batch.token (batch.leaseDeadline - offset worker)
  begun : ∀ window ∈ state.windows, window.start ≤ state.base.now
  minted : ∀ window ∈ state.windows,
    state.base.minted window.token = some window.worker
  settled : ∀ window ended, window ∈ state.windows -> window.ended = some ended ->
    ended ≤ state.base.now
  running : ∀ window ∈ state.windows, window.ended = none ->
    Covered state.base window.id window.token
      (window.start + config.settings.handlerTimeoutMs)
  inHand : ∀ window batch, window ∈ state.windows -> window.ended = none ->
    (state.base.phase window.worker).batch? = some batch -> batch.token = window.token ->
      ∃ event, state.base.phase window.worker = .handling event batch /\
        event.id = window.id
  apart : WindowsApart config state.windows

def settles (worker : Worker) : Label Worker -> Prop
  | .handled other => other = worker
  | .threw other _ _ => other = worker
  | _ => False

/-- A worker goes on with its batch: the claim stays the same, events are only
dropped, and what its statement named is no longer listed. -/
structure Continues (before after : Phase) : Prop where
  batch : ∀ left, after.batch? = some left -> ∃ batch, before.batch? = some batch /\
    batch.token = left.token /\ batch.leaseDeadline = left.leaseDeadline
  events : (events after).Sublist (events before)
  unstarted : after.unstarted.Sublist before.unstarted
  cleared : ((Windows.events before).map OutboxEvent.id).Nodup -> ∀ event ∈ after.unstarted,
    event.id ∉ named before

variable {batch : Batch} {event : OutboxEvent}

theorem Continues.afterReply {before : Phase} (reply : Bool) (hbatch : before.batch? = some batch)
    (hnamed : named before = [event.id]) (hevents : Windows.events before = event :: batch.rest)
    (hunstarted : batch.rest.Sublist before.unstarted) :
    Continues before (afterReply reply batch) := by
  have hleft : (Worker.afterReply reply batch).unstarted = batch.rest := by cases reply <;> rfl
  have hrest : Windows.events (Worker.afterReply reply batch) = batch.rest := by cases reply <;> rfl
  refine ⟨?_, ?_, ?_, ?_⟩
  · intro left hleftBatch
    rw [batch?_afterReply hleftBatch]
    exact ⟨batch, hbatch, rfl, rfl⟩
  · rw [hrest, hevents]
    exact sublist_cons_self event batch.rest
  · rw [hleft]
    exact hunstarted
  · intro hdistinct kept hkept
    rw [hleft] at hkept
    rw [hevents, map_cons] at hdistinct
    rw [hnamed, mem_singleton]
    intro hsame
    exact (nodup_cons.mp hdistinct).1 (hsame ▸ mem_map_of_mem hkept)

theorem Continues.idle (before : Phase) : Continues before .idle :=
  ⟨nofun, nil_sublist _, nil_sublist _, nofun⟩

inductive Turn (state : State Worker) (label : Label Worker) (after : State Worker)
    (worker : Worker) : Prop where
  | still (hphase : after.phase worker = state.phase worker)
      (hrecorder : label.recorder ≠ some worker)
  | claims (token : Token) (leaseDeadline : Int) (topics : List String) (locked : Nat -> Bool)
      (reply : Bool)
      (hlabel : label = .claim worker token leaseDeadline topics locked reply)
  | continues (hcontinues : Continues (state.phase worker) (after.phase worker))
      (hhandling : ∀ event batch, state.phase worker = .handling event batch ->
        settles worker label \/ after.phase worker = .idle)

variable {worker : Worker} {base : State Worker}

theorem Turn.ofSetPhase {actor : Worker} {phase : Phase} (hsame : base.phase = state.phase)
    (hactor : ∀ other, label.recorder = some other -> other = actor)
    (hcontinues : Continues (state.phase actor) phase)
    (hhandling : ∀ event batch, state.phase actor = .handling event batch ->
      settles actor label \/ phase = .idle) :
    Turn state label (base.setPhase actor phase) worker := by
  by_cases hworker : worker = actor
  · subst hworker
    refine .continues ?_ ?_
    · rw [setPhase_phase_self]
      exact hcontinues
    · rw [setPhase_phase_self]
      exact hhandling
  · refine .still ?_ ?_
    · rw [setPhase_phase_of_ne hworker, hsame]
    · intro hrecorder
      exact hworker (hactor worker hrecorder)

theorem Step.turn (hstep : Step config state label after) (worker : Worker) :
    Turn state label after worker := by
  have hsole : ∀ actor other : Worker, some actor = some other -> other = actor :=
    fun _ _ hsame => (Option.some.inj hsame).symm
  cases hstep with
  | tick elapsed => exact .still rfl nofun
  | enqueue id event hissued hfresh => exact .still rfl nofun
  | claim actor token leaseDeadline topics locked reply hphase htopics hfresh =>
    by_cases hworker : worker = actor
    · subst hworker
      exact .claims token leaseDeadline topics locked reply rfl
    · exact .still (update_of_ne hworker ..) nofun
  | start actor clock event batch rest hphase hrest hfits =>
    have hcontinues : Continues (state.phase actor)
        (.handling event { batch with rest := rest }) := by
      rw [hphase]
      refine ⟨?_, ?_, ?_, nofun⟩
      · intro left hleft
        cases hleft
        exact ⟨batch, rfl, rfl, rfl⟩
      · change (event :: rest).Sublist batch.rest
        rw [hrest]
      · change rest.Sublist batch.rest
        rw [hrest]
        exact sublist_cons_self event rest
    have hturn : Turn state (.start actor clock)
        (state.setPhase actor (.handling event { batch with rest := rest })) worker := by
      refine .ofSetPhase rfl nofun hcontinues ?_
      rw [hphase]
      exact nofun
    cases hturn with
    | still hsame hrecorder => exact .still hsame hrecorder
    | claims _ _ _ _ _ hlabel => cases hlabel
    | continues hgoes hhandling => exact .continues hgoes hhandling
  | noHandler actor clock event batch rest hphase hrest hfits =>
    refine .ofSetPhase rfl nofun ?_ (by rw [hphase]; exact nofun)
    rw [hphase]
    refine ⟨?_, ?_, ?_, nofun⟩
    · intro left hleft
      cases hleft
      exact ⟨batch, rfl, rfl, rfl⟩
    · change (event :: rest).Sublist batch.rest
      rw [hrest]
    · change (event :: rest).Sublist batch.rest
      rw [hrest]
  | stop actor clock running batch hphase hstop =>
    refine .ofSetPhase rfl nofun ?_ (by rw [hphase]; exact nofun)
    rw [hphase]
    refine ⟨?_, Sublist.refl _, Sublist.refl _, nofun⟩
    intro left hleft
    cases hleft
    exact ⟨batch, rfl, rfl, rfl⟩
  | releaseOne actor reply event batch hphase =>
    refine .ofSetPhase rfl (hsole actor) ?_ (by rw [hphase]; exact nofun)
    rw [hphase]
    exact .afterReply reply rfl rfl rfl (sublist_cons_self event batch.rest)
  | handled actor event batch hphase =>
    refine .ofSetPhase rfl nofun ?_ (fun _ _ _ => .inl rfl)
    rw [hphase]
    refine ⟨?_, Sublist.refl _, Sublist.refl _, nofun⟩
    intro left hleft
    cases hleft
    exact ⟨batch, rfl, rfl, rfl⟩
  | threw actor thrown random event batch hphase =>
    refine .ofSetPhase rfl nofun ?_ (fun _ _ _ => .inl rfl)
    rw [hphase]
    refine ⟨?_, Sublist.refl _, Sublist.refl _, nofun⟩
    intro left hleft
    cases hleft
    exact ⟨batch, rfl, rfl, rfl⟩
  | complete actor reply event batch hphase =>
    refine .ofSetPhase rfl (hsole actor) ?_ (by rw [hphase]; exact nofun)
    rw [hphase]
    exact .afterReply reply rfl rfl rfl (Sublist.refl _)
  | fail actor reply event outcome batch hphase =>
    refine .ofSetPhase rfl (hsole actor) ?_ (by rw [hphase]; exact nofun)
    rw [hphase]
    exact .afterReply reply rfl rfl rfl (Sublist.refl _)
  | recordError actor batch hphase =>
    refine .ofSetPhase rfl nofun ?_ ?_
    · rcases hphase with ⟨event, hphase⟩ | ⟨event, hphase⟩ | ⟨event, outcome, hphase⟩
      · rw [hphase]
        exact .afterReply false rfl rfl rfl (sublist_cons_self event batch.rest)
      · rw [hphase]
        exact .afterReply false rfl rfl rfl (Sublist.refl _)
      · rw [hphase]
        exact .afterReply false rfl rfl rfl (Sublist.refl _)
    · intro found other hhandling
      rw [hhandling] at hphase
      rcases hphase with ⟨_, hphase⟩ | ⟨_, hphase⟩ | ⟨_, _, hphase⟩ <;> cases hphase
  | releaseRest actor batch hphase =>
    exact .ofSetPhase rfl (hsole actor) (.idle _) (fun _ _ _ => .inr rfl)
  | crash actor => exact .ofSetPhase rfl nofun (.idle _) (fun _ _ _ => .inr rfl)
  | cleanup retentionDays limit locked => exact .still rfl nofun
  | deadLetterUnhandled topics olderThanDays limit locked htopics => exact .still rfl nofun

theorem closeWindow_start (state : State Worker) (worker : Worker) (window : Window Worker) :
    (closeWindow state worker window).start = window.start := by
  unfold closeWindow
  split
  · split <;> rfl
  · rfl

theorem closeWindow_id (state : State Worker) (worker : Worker) (window : Window Worker) :
    (closeWindow state worker window).id = window.id := by
  unfold closeWindow
  split
  · split <;> rfl
  · rfl

theorem closeWindow_finish (state : State Worker) (worker : Worker) (window : Window Worker)
    (timeoutMs : Int) :
    (closeWindow state worker window).finish timeoutMs ≤ window.finish timeoutMs := by
  unfold closeWindow
  split
  · split
    · rename_i hopen
      simp only [Window.finish, hopen.2.2.2]
      exact min_le_left _ _
    · exact le_refl _
  · exact le_refl _

/-- A window after a step is new, an old one as it was, or an old one that the
settling of its handler ended. -/
inductive Came (state : TimedState Worker) (label : Label Worker) (window : Window Worker) :
    Prop where
  | opened (worker : Worker) (clock : Int) (event : OutboxEvent) (batch : Batch)
      (rest : List OutboxEvent) (hlabel : label = .start worker clock)
      (hphase : state.base.phase worker = .delivering batch) (hrest : batch.rest = event :: rest)
      (hwindow : window = Window.mk event.id worker batch.token state.base.now none)
  | kept (hold : window ∈ state.windows)
      (hunsettled : ∀ event batch,
        state.base.phase window.worker = .handling event batch -> event.id = window.id ->
          batch.token = window.token -> settles window.worker label -> window.ended ≠ none)
  | closed (old : Window Worker) (hold : old ∈ state.windows) (hopen : old.ended = none)
      (hwindow : window = { old with ended := some state.base.now })

variable {window : Window Worker}

theorem Came.ofClose {state : TimedState Worker}
    (hwindow : window ∈ state.windows.map (closeWindow state.base worker))
    (hlabel : ∀ other, settles other label -> other = worker) : Came state label window := by
  obtain ⟨old, hold, rfl⟩ := mem_map.mp hwindow
  cases hphase : state.base.phase worker with
  | handling event batch =>
    by_cases hown : old.worker = worker /\ old.token = batch.token /\ old.id = event.id /\
        old.ended = none
    · refine .closed old hold hown.2.2.2 ?_
      simp [closeWindow, hphase, hown]
    · have hsame : closeWindow state.base worker old = old := by
        simp [closeWindow, hphase, hown]
      rw [hsame]
      refine .kept hold fun found other hfound hid htoken hsettles hopen => ?_
      have hworker := hlabel old.worker hsettles
      rw [hworker, hphase] at hfound
      cases hfound
      exact hown ⟨hworker, htoken.symm, hid.symm, hopen⟩
  | _ =>
    have hsame : closeWindow state.base worker old = old := by simp [closeWindow, hphase]
    rw [hsame]
    refine .kept hold fun found other hfound _ _ hsettles _ => ?_
    rw [hlabel old.worker hsettles, hphase] at hfound
    cases hfound

theorem came_of_mem {state : TimedState Worker} (hwindow : window ∈ nextWindows state label) :
    Came state label window := by
  cases label with
  | start worker clock =>
    simp only [nextWindows] at hwindow
    split at hwindow
    · rename_i batch hphase
      split at hwindow
      · exact .kept hwindow fun _ _ _ _ _ hsettles => hsettles.elim
      · rename_i event rest hrest
        rcases mem_cons.mp hwindow with hnew | hold
        · exact .opened worker clock event batch rest rfl hphase hrest hnew
        · exact .kept hold fun _ _ _ _ _ hsettles => hsettles.elim
    · exact .kept hwindow fun _ _ _ _ _ hsettles => hsettles.elim
  | handled worker => exact .ofClose hwindow fun _ hsettles => Eq.symm hsettles
  | threw worker thrown random => exact .ofClose hwindow fun _ hsettles => Eq.symm hsettles
  | _ => exact .kept hwindow fun _ _ _ _ _ hsettles => hsettles.elim

theorem Step.minted (hstep : Step config state label after) {token : Token}
    (hminted : state.minted token = some worker) : after.minted token = some worker := by
  cases hstep with
  | claim actor fresh leaseDeadline topics locked reply hphase htopics hfresh =>
    have hne : token ≠ fresh := by
      rintro rfl
      rw [hfresh] at hminted
      cases hminted
    exact (update_of_ne hne ..).trans hminted
  | _ => exact hminted

theorem Step.now_le (hstep : Step config state label after) : state.now ≤ after.now := by
  cases hstep with
  | tick elapsed =>
    change state.now ≤ state.now + elapsed
    omega
  | _ => exact le_refl _

variable {id : Nat} {token : Token} {bound : Int}

theorem Covered.keep (hcovered : Covered state id token bound) (htracks : Tracks state)
    (hstep : Step config state label after) {worker : Worker}
    (hminted : state.minted token = some worker)
    (hown : label.recorder = some worker -> ∀ batch,
      (state.phase worker).batch? = some batch -> batch.token = token ->
        id ∉ named (state.phase worker)) : Covered after id token bound := by
  refine hcovered.step htracks hstep fun other batch hrecorder hbatch htoken => ?_
  have howned := htracks.owned other batch hbatch
  rw [htoken, hminted] at howned
  cases howned
  exact hown hrecorder batch hbatch htoken

theorem Covered.claimed (worker : Worker) (leaseDeadline : Int) (topics : List String)
    (locked : Nat -> Bool) (reply : Bool)
    (hevent : event ∈ claimedEvents (state.dueRows config topics locked) state.now
      config.settings.leaseMs token) :
    Covered (state.afterClaim config worker token leaseDeadline topics locked reply) event.id token
      (state.now + config.settings.leaseMs) := by
  obtain ⟨row, hrow, rfl⟩ := mem_claimedEvents.mp hevent
  refine Or.inr ⟨claimRow state.now config.settings.leaseMs token row, ?_, rfl, rfl, le_refl _⟩
  refine Table.mem_apply_of_selected (mem_due hrow).1 ?_
  exact contains_iff_mem.mpr (mem_map.mpr ⟨row, hrow, rfl⟩)

variable {offset : Worker -> Int} {before next : TimedState Worker}

theorem Timely.start {state : TimedState Worker}
    (hstart : (timedSystem config offset).start state) : Timely config offset state := by
  obtain ⟨⟨_, hphase, _⟩, hwindows⟩ := hstart
  have hnone : ∀ window, window ∉ state.windows := by
    rw [hwindows]
    exact fun _ => not_mem_nil
  refine ⟨?_, ?_, ?_, ?_, ?_, ?_, ?_, ?_⟩
  · intro worker
    rw [hphase worker]
    exact nodup_nil
  · intro worker batch event hbatch
    rw [hphase worker] at hbatch
    cases hbatch
  · exact fun window hwindow => absurd hwindow (hnone window)
  · exact fun window hwindow => absurd hwindow (hnone window)
  · exact fun window _ hwindow => absurd hwindow (hnone window)
  · exact fun window hwindow => absurd hwindow (hnone window)
  · exact fun window _ hwindow => absurd hwindow (hnone window)
  · rw [hwindows]
    exact Pairwise.nil

theorem Timely.distinct_step (htimely : Timely config offset before)
    (hstep : Step config before.base label next.base) (worker : Worker) :
    ((events (next.base.phase worker)).map OutboxEvent.id).Nodup := by
  cases Step.turn hstep worker with
  | still hphase _ =>
    rw [hphase]
    exact htimely.distinct worker
  | claims token leaseDeadline topics locked reply hlabel =>
    subst hlabel
    generalize next.base = base at hstep
    cases hstep with
    | claim _ _ _ _ _ _ hphase htopics hfresh =>
      have hclaimed : (before.base.afterClaim config worker token leaseDeadline topics locked
          reply).phase worker = _ := update_self ..
      rw [hclaimed]
      cases reply with
      | false => exact nodup_nil
      | true => exact claimedEvents_ids_nodup
  | continues hcontinues _ =>
    exact (htimely.distinct worker).sublist (hcontinues.events.map OutboxEvent.id)

theorem Timely.leased_step (htimely : Timely config offset before) (htracks : Tracks before.base)
    (hstep : Step config before.base label next.base)
    (hclock : OnTime config offset before.base label)
    (hbatch : (next.base.phase worker).batch? = some batch)
    (hevent : event ∈ (next.base.phase worker).unstarted) :
    Covered next.base event.id batch.token (batch.leaseDeadline - offset worker) := by
  cases Step.turn hstep worker with
  | still hphase hrecorder =>
    rw [hphase] at hbatch hevent
    exact (htimely.leased worker batch event hbatch hevent).keep htracks hstep
      (htracks.owned worker batch hbatch) fun hsame => absurd hsame hrecorder
  | claims token leaseDeadline topics locked reply hlabel =>
    subst hlabel
    change leaseDeadline ≤ before.base.now + offset worker + config.settings.leaseMs at hclock
    generalize next.base = base at hstep hbatch hevent ⊢
    cases hstep with
    | claim _ _ _ _ _ _ hphase htopics hfresh =>
      have hclaimed : (before.base.afterClaim config worker token leaseDeadline topics locked
          reply).phase worker = _ := update_self ..
      rw [hclaimed] at hbatch hevent
      cases reply with
      | false => cases hbatch
      | true =>
        cases hbatch
        refine Covered.mono (Covered.claimed worker leaseDeadline topics locked true hevent) ?_
        change leaseDeadline - offset worker ≤ _
        omega
  | continues hcontinues _ =>
    obtain ⟨old, hold, htoken, hdeadline⟩ := hcontinues.batch batch hbatch
    have hlisted := hcontinues.unstarted.subset hevent
    rw [← htoken, ← hdeadline]
    refine (htimely.leased worker old event hold hlisted).keep htracks hstep
      (htracks.owned worker old hold) fun _ _ _ _ => ?_
    exact hcontinues.cleared (htimely.distinct worker) event hevent

omit [DecidableEq Worker] in
theorem Timely.cover_start (htimely : Timely config offset before) {worker : Worker} {clock : Int}
    {event : OutboxEvent} {batch : Batch} {rest : List OutboxEvent}
    (hmargin : 0 ≤ config.settings.settleMarginMs)
    (hclock : clock = before.base.now + offset worker)
    (hphase : before.base.phase worker = .delivering batch) (hrest : batch.rest = event :: rest)
    (hfits : canStartNext clock batch.leaseDeadline config.settings.handlerTimeoutMs
      config.settings.settleMarginMs = true) :
    Covered before.base event.id batch.token
      (before.base.now + config.settings.handlerTimeoutMs) := by
  have hlisted : event ∈ (before.base.phase worker).unstarted := by
    rw [hphase]
    change event ∈ batch.rest
    rw [hrest]
    exact mem_cons_self
  refine (htimely.leased worker batch event (by rw [hphase]; rfl) hlisted).mono ?_
  have hroom := of_decide_eq_true hfits
  omega

omit [DecidableEq Worker] in
/-- When a handler starts, every earlier window of its event has ended: the claim
of an unfinished one would still cover the row, under another token. -/
theorem Timely.ended_before_start (htimely : Timely config offset before)
    (htracks : Tracks before.base) {worker : Worker} {clock : Int} {event : OutboxEvent}
    {batch : Batch} {rest : List OutboxEvent} (hmargin : 0 ≤ config.settings.settleMarginMs)
    (hclock : clock = before.base.now + offset worker)
    (hphase : before.base.phase worker = .delivering batch) (hrest : batch.rest = event :: rest)
    (hfits : canStartNext clock batch.leaseDeadline config.settings.handlerTimeoutMs
      config.settings.settleMarginMs = true) {window : Window Worker}
    (hwindow : window ∈ before.windows) (hid : window.id = event.id) :
    window.finish config.settings.handlerTimeoutMs ≤ before.base.now := by
  have hbegun := htimely.begun window hwindow
  cases hended : window.ended with
  | some ended =>
    simp only [Window.finish, hended]
    exact (min_le_right _ _).trans (htimely.settled window ended hwindow hended)
  | none =>
    simp only [Window.finish, hended]
    rcases htimely.running window hwindow hended with hpassed | ⟨row, hrow, hrowId, htoken, _⟩
    · exact hpassed
    · rcases htimely.cover_start hmargin hclock hphase hrest hfits with
        hpassed | ⟨other, hother, hotherId, hotherToken, _⟩
      · omega
      · -- One row cannot carry both tokens, and this worker runs no handler.
        exfalso
        have hsame : row = other :=
          Table.eq_of_key_eq hrow hother ((hrowId.trans hid).trans hotherId.symm)
        subst hsame
        have htokens : batch.token = window.token :=
          Option.some.inj (hotherToken.symm.trans htoken)
        have howned := htracks.owned worker batch (by rw [hphase]; rfl)
        rw [htokens, htimely.minted window hwindow] at howned
        obtain hworker := Option.some.inj howned
        obtain ⟨found, hhandling, _⟩ := htimely.inHand window batch hwindow hended
          (by rw [hworker, hphase]; rfl) htokens
        rw [hworker, hphase] at hhandling
        cases hhandling

theorem Timely.running_step (htimely : Timely config offset before) (htracks : Tracks before.base)
    (hmargin : 0 ≤ config.settings.settleMarginMs) (hstep : Step config before.base label next.base)
    (hclock : OnTime config offset before.base label) (hcame : Came before label window)
    (hopen : window.ended = none) :
    Covered next.base window.id window.token
      (window.start + config.settings.handlerTimeoutMs) := by
  cases hcame with
  | opened worker clock event batch rest hlabel hphase hrest hwindow =>
    subst hlabel hwindow
    generalize next.base = base at hstep ⊢
    cases hstep with
    | start _ _ found other left hphase' hrest' hfits =>
      rw [hphase] at hphase'
      cases hphase'
      exact htimely.cover_start hmargin hclock hphase hrest hfits
  | kept hold _ =>
    refine (htimely.running window hold hopen).keep htracks hstep (htimely.minted window hold) ?_
    intro _ batch hbatch htoken
    obtain ⟨event, hhandling, _⟩ := htimely.inHand window batch hold hopen hbatch htoken
    rw [hhandling]
    exact not_mem_nil
  | closed old _ _ hwindow =>
    rw [hwindow] at hopen
    cases hopen

theorem Timely.inHand_step (htimely : Timely config offset before)
    (hstep : Step config before.base label next.base) (hcame : Came before label window)
    (hopen : window.ended = none) (hbatch : (next.base.phase window.worker).batch? = some batch)
    (htoken : batch.token = window.token) :
    ∃ event, next.base.phase window.worker = .handling event batch /\
      event.id = window.id := by
  cases hcame with
  | opened worker clock event old rest hlabel hphase hrest hwindow =>
    subst hlabel hwindow
    generalize next.base = base at hstep hbatch ⊢
    cases hstep with
    | start _ _ found other left hphase' hrest' hfits =>
      rw [hphase] at hphase'
      cases hphase'
      rw [hrest] at hrest'
      cases hrest'
      have hstarted : (before.base.afterStart worker event { old with rest := rest }).phase
          worker = .handling event { old with rest := rest } := update_self ..
      change (State.phase _ worker).batch? = some batch at hbatch
      rw [hstarted] at hbatch
      cases hbatch
      exact ⟨event, hstarted, rfl⟩
  | kept hold hunsettled =>
    cases Step.turn hstep window.worker with
    | still hphase _ =>
      rw [hphase] at hbatch ⊢
      exact htimely.inHand window batch hold hopen hbatch htoken
    | claims token leaseDeadline topics locked reply hlabel =>
      subst hlabel
      generalize next.base = base at hstep hbatch ⊢
      cases hstep with
      | claim _ _ _ _ _ _ hphase htopics hfresh =>
        have hclaimed : (before.base.afterClaim config window.worker token leaseDeadline
            topics locked reply).phase window.worker = _ := update_self ..
        rw [hclaimed] at hbatch
        cases reply with
        | false => cases hbatch
        | true =>
          cases hbatch
          have hminted := htimely.minted window hold
          rw [← htoken, hfresh] at hminted
          cases hminted
    | continues hcontinues hhandling =>
      obtain ⟨old, holdBatch, hsame, _⟩ := hcontinues.batch batch hbatch
      obtain ⟨event, hphase, hid⟩ :=
        htimely.inHand window old hold hopen holdBatch (hsame.trans htoken)
      rcases hhandling event old hphase with hsettles | hidle
      · exact absurd hopen (hunsettled event old hphase hid (hsame.trans htoken) hsettles)
      · rw [hidle] at hbatch
        cases hbatch
  | closed old _ _ hwindow =>
    rw [hwindow] at hopen
    cases hopen

theorem WindowsApart.close {windows : List (Window Worker)} (hapart : WindowsApart config windows)
    (state : State Worker) (worker : Worker) :
    WindowsApart config (windows.map (closeWindow state worker)) := by
  refine pairwise_map.mpr (hapart.imp ?_)
  intro newer older hapart hid
  rw [closeWindow_id, closeWindow_id] at hid
  rw [closeWindow_start]
  exact (closeWindow_finish state worker older _).trans (hapart hid)

theorem Timely.apart_step (htimely : Timely config offset before) (htracks : Tracks before.base)
    (hmargin : 0 ≤ config.settings.settleMarginMs) (hstep : Step config before.base label next.base)
    (hclock : OnTime config offset before.base label) :
    WindowsApart config (nextWindows before label) := by
  cases label with
  | start worker clock =>
    generalize next.base = base at hstep
    cases hstep with
    | start _ _ event batch rest hphase hrest hfits =>
      simp only [nextWindows, hphase, hrest]
      refine pairwise_cons.mpr ⟨?_, htimely.apart⟩
      intro older holder hid
      exact htimely.ended_before_start htracks hmargin hclock hphase hrest hfits holder hid.symm
  | handled worker => exact htimely.apart.close before.base worker
  | threw worker thrown random => exact htimely.apart.close before.base worker
  | _ => exact htimely.apart

theorem Timely.step (htimely : Timely config offset before) (htracks : Tracks before.base)
    (hmargin : 0 ≤ config.settings.settleMarginMs)
    (hstep : (timedSystem config offset).step before label next) : Timely config offset next := by
  obtain ⟨hbase, hclock, hwindows⟩ := hstep
  have hnow := Step.now_le hbase
  have hcame : ∀ window ∈ next.windows, Came before label window := by
    intro window hwindow
    rw [hwindows] at hwindow
    exact came_of_mem hwindow
  refine ⟨fun worker => htimely.distinct_step hbase worker, ?_, ?_, ?_, ?_, ?_, ?_, ?_⟩
  · intro worker batch event hbatch hevent
    exact htimely.leased_step htracks hbase hclock hbatch hevent
  · intro window hwindow
    cases hcame window hwindow with
    | opened worker clock event batch rest hlabel hphase hrest hwindow =>
      rw [hwindow]
      exact hnow
    | kept hold _ => exact (htimely.begun window hold).trans hnow
    | closed old hold _ hwindow =>
      rw [hwindow]
      exact (htimely.begun old hold).trans hnow
  · intro window hwindow
    refine Step.minted hbase ?_
    cases hcame window hwindow with
    | opened worker clock event batch rest hlabel hphase hrest hwindow =>
      rw [hwindow]
      exact htracks.owned worker batch (by rw [hphase]; rfl)
    | kept hold _ => exact htimely.minted window hold
    | closed old hold _ hwindow =>
      rw [hwindow]
      exact htimely.minted old hold
  · intro window ended hwindow hended
    cases hcame window hwindow with
    | opened worker clock event batch rest hlabel hphase hrest hwindow =>
      rw [hwindow] at hended
      cases hended
    | kept hold _ => exact (htimely.settled window ended hold hended).trans hnow
    | closed old hold _ hwindow =>
      rw [hwindow] at hended
      cases hended
      exact hnow
  · intro window hwindow hopen
    exact htimely.running_step htracks hmargin hbase hclock (hcame window hwindow) hopen
  · intro window batch hwindow hopen hbatch htoken
    exact htimely.inHand_step hbase (hcame window hwindow) hopen hbatch htoken
  · rw [hwindows]
    exact htimely.apart_step htracks hmargin hbase hclock

theorem reachable_base {state : TimedState Worker}
    (hreach : (timedSystem config offset).Reachable state) :
    (outboxSystem config).Reachable state.base := by
  let Inv : TimedState Worker -> Prop := fun state => (outboxSystem config).Reachable state.base
  have hstart : ∀ state, (timedSystem config offset).start state -> Inv state :=
    fun _ hstart => System.Reachable.ofStart hstart.1
  have hkeep : ∀ before label after, (timedSystem config offset).Reachable before ->
      Inv before -> (timedSystem config offset).step before label after -> Inv after :=
    fun _ _ _ _ hbase hstep => System.Reachable.step hbase hstep.1
  exact hreach.invariant hstart hkeep

/-- In every run on clocks, the windows of one event do not overlap. -/
theorem windows_apart (hmargin : 0 ≤ config.settings.settleMarginMs) {state : TimedState Worker}
    (hreach : (timedSystem config offset).Reachable state) : WindowsApart config state.windows := by
  have htimely : Timely config offset state :=
    hreach.invariant (fun _ hstart => Timely.start hstart)
      fun _ _ _ hbefore htimely hstep =>
        htimely.step (tracks_of_reachable (reachable_base hbefore)) hmargin hstep
  exact htimely.apart

theorem timed_cons {state : TimedState Worker} {labels : List (Label Worker)}
    {last : TimedState Worker} (hstep : Step config state.base label base)
    (hclock : OnTime config offset state.base label)
    (hrest : (timedSystem config offset).Run (TimedState.mk base (nextWindows state label))
      labels last) : (timedSystem config offset).Run state (label :: labels) last :=
  .cons ⟨hstep, hclock, rfl⟩ hrest

end

/-! ## A retry

The first worker's handler throws after a millisecond; the retry is due half a
second later, and the second worker starts it. -/

def retryConfig : Config :=
  { singleAttempt with outboxMaxAttempts := 12, outboxMaxAttempts_range := by decide }

def timedEmpty : TimedState Bool := { base := emptyState, windows := [] }

def retryOutcome : FailOutcome where
  retryDelayMs := 500
  error := "Error: busy"
  dead := false

theorem retryOutcome_eq :
    failureOutcome retryConfig (reflectClaimed 1 0) (.error "Error" "busy") 0 = retryOutcome := by
  have hdelay : computeBackoffMs 1 1000 1800000 0 = 500 := by decide +kernel
  have herror : errorSummary (.error "Error" "busy") = "Error: busy" := by decide +kernel
  have hverdict : decideFailure 1 12 false = .retry := rfl
  change FailOutcome.mk (computeBackoffMs 1 1000 1800000 0) (errorSummary _) false = _
  rw [hdelay, herror]
  rfl

def firstBatch : Batch := { token := 0, leaseDeadline := 60000, rest := [] }

def secondBatch : Batch := { token := 1, leaseDeadline := 60501, rest := [] }

def firstStarted : State Bool :=
  (queuedState.afterClaim retryConfig false 0 60000 ["hook.reflect"] (fun _ => false)
    true).afterStart false (reflectClaimed 1 0) firstBatch

def retryDue : State Bool :=
  let thrown := { firstStarted with now := 1 }.setPhase false
    (.failing (reflectClaimed 1 0) retryOutcome firstBatch)
  let failed := (thrown.exec (fail 0 0 retryOutcome 1) (failAct (false, 0) retryOutcome)).setPhase
    false (.delivering firstBatch)
  { failed with now := 501 }

def secondStarted : State Bool :=
  (retryDue.afterClaim retryConfig true 1 60501 ["hook.reflect"] (fun _ => false)
    true).afterStart true (reflectClaimed 2 501) secondBatch

def retriedState : TimedState Bool where
  base := secondStarted
  windows :=
    [{ id := 0, worker := true, token := 1, start := 501, ended := none },
      { id := 0, worker := false, token := 0, start := 0, ended := some 1 }]

def retryLabels : List (Label Bool) :=
  [.enqueue 0 reflectEvent,
    .claim false 0 60000 ["hook.reflect"] (fun _ => false) true,
    .start false 0,
    .tick 1,
    .threw false (.error "Error" "busy") 0,
    .fail false true,
    .tick 500,
    .claim true 1 60501 ["hook.reflect"] (fun _ => false) true,
    .start true 501]

theorem retriedState_run :
    (timedSystem retryConfig fun _ => 0).Run timedEmpty retryLabels retriedState := by
  refine timed_cons (.enqueue emptyState 0 reflectEvent rfl emptyState_fresh) trivial ?_
  refine timed_cons (.claim _ false 0 60000 _ _ true rfl (by decide) rfl)
    (show (60000 : Int) ≤ 0 + 0 + 60000 by decide) ?_
  refine timed_cons (.start _ false 0 (reflectClaimed 1 0)
    { token := 0, leaseDeadline := 60000, rest := [reflectClaimed 1 0] } [] rfl rfl (by decide))
    rfl ?_
  refine timed_cons (.tick _ 1) trivial ?_
  refine timed_cons (.threw _ false (.error "Error" "busy") 0 (reflectClaimed 1 0) firstBatch rfl)
    trivial ?_
  rw [retryOutcome_eq]
  refine timed_cons (.fail _ false true (reflectClaimed 1 0) retryOutcome firstBatch rfl) trivial ?_
  refine timed_cons (.tick _ 500) trivial ?_
  refine timed_cons (.claim retryDue true 1 60501 _ _ true rfl (by decide) rfl)
    (show (60501 : Int) ≤ 501 + 0 + 60000 by decide) ?_
  refine timed_cons (.start _ true 501 (reflectClaimed 2 501)
    { token := 1, leaseDeadline := 60501, rest := [reflectClaimed 2 501] } [] rfl rfl (by decide))
    rfl ?_
  exact .nil _

theorem retriedState_reachable : (timedSystem retryConfig fun _ => 0).Reachable retriedState := by
  have hstart : (timedSystem retryConfig fun _ => 0).start timedEmpty := ⟨emptyState_start, rfl⟩
  exact (System.Reachable.ofStart hstart).run retriedState_run

/-- The first handler's window ended when it threw. -/
theorem windows_apart_retry : WindowsApart retryConfig retriedState.windows :=
  windows_apart (by decide) retriedState_reachable

/-- The two full spans from a start to its time limit overlap. -/
theorem full_spans_overlap :
    ¬ ∀ (config : Config) (offset : Bool -> Int) (state : TimedState Bool),
      config.settings.handlerTimeoutMs < config.settings.leaseMs ->
      (timedSystem config offset).Reachable state ->
      ∀ left right, left ∈ state.windows -> right ∈ state.windows -> left.id = right.id ->
        left.worker ≠ right.worker ->
          left.start + config.settings.handlerTimeoutMs ≤ right.start \/
            right.start + config.settings.handlerTimeoutMs ≤ left.start := by
  intro hdisjoint
  have hspans := hdisjoint retryConfig (fun _ => 0) retriedState (by decide)
    retriedState_reachable { id := 0, worker := true, token := 1, start := 501, ended := none }
    { id := 0, worker := false, token := 0, start := 0, ended := some 1 }
    mem_cons_self (mem_cons_of_mem _ mem_cons_self) rfl (by decide)
  exact absurd hspans (by decide)

end AnchorMind.Outbox.Windows
