import AnchorMind.Session.SealedSessions

/-!
# Sessions that have ended

A session has ended once a rotation or a close of its id has returned.  Sealed ids stay
sealed, so the question is in which state an end is reached: when the last step of a
rotation or a close leaves the id sealed, it is never validated again.
-/

namespace AnchorMind.Session.Streamable

open Kernel.Transition Kernel.InsertionMap List Function

variable {Id : Type*}

def AfterClose.Ends : AfterClose Id -> Prop
  | .closeStreamableSession => True
  | .closeSessionsByKeyId _ _ _ => True
  | _ => False

variable [DecidableEq Id]

/-- The answer with which a rotation or a close returns finds no other request that holds
the session, the session in memory only where the end takes it out, and after it Redis
does not keep the record.  `others` are the other requests that wait. -/
def Waiting.Undisturbed (waiting : Waiting Id) (config : Config) (state : State Id)
    (others : List (Waiting Id)) (reply : Reply) : Prop :=
  match waiting with
  | .rotateDelete rotation oldSession =>
    reply = .done ->
      (oldSession = none -> state.memory.get rotation.oldSessionId = none) /\
        Alone others rotation.oldSessionId
  | .reflecting id preserveRedis next =>
    next.Ends -> (config.redisEnabled && !preserveRedis) = false ->
      (config.redisEnabled = true -> state.redis id = none) /\ Alone others id
  | .deleting id next =>
    next.Ends ->
      state.memory.get id = none /\ (reply.ran = true \/ state.redis id = none) /\
        Alone others id
  | _ => True

def Call.Undisturbed (call : Call Id) (config : Config) (state : State Id) : Prop :=
  match call with
  | .closeStreamableSession id _ =>
    state.memory.get id = none ->
      (config.redisEnabled = true -> state.redis id = none) /\ Alone state.waiting id
  | _ => True

def Undisturbed (config : Config) (state : State Id) (label : Label Id) : Prop :=
  match label with
  | .call call _ _ => call.Undisturbed config state
  | .answer index reply _ _ =>
    ∀ waiting, state.waiting[index]? = some waiting ->
      waiting.Undisturbed config state (state.waiting.eraseIdx index) reply
  | .lapse _ => True

section

omit [DecidableEq Id] in
instance (next : AfterClose Id) : Decidable next.Ends := by
  cases next <;> simp only [AfterClose.Ends] <;> infer_instance

instance (waiting : Waiting Id) (id : Id) : Decidable (waiting.Holds id) := by
  cases waiting <;> simp only [Waiting.Holds] <;> infer_instance

instance (waiting : List (Waiting Id)) (id : Id) : Decidable (Alone waiting id) :=
  inferInstanceAs (Decidable (∀ other ∈ waiting, Not (other.Holds id)))

instance (waiting : Waiting Id) (config : Config) (state : State Id) (others : List (Waiting Id))
    (reply : Reply) : Decidable (waiting.Undisturbed config state others reply) := by
  cases waiting <;> simp only [Waiting.Undisturbed] <;> infer_instance

instance (call : Call Id) (config : Config) (state : State Id) :
    Decidable (call.Undisturbed config state) := by
  cases call <;> simp only [Call.Undisturbed] <;> infer_instance

instance (config : Config) (state : State Id) (label : Label Id) :
    Decidable (Undisturbed config state label) := by
  cases label <;> simp only [Undisturbed] <;> infer_instance

end

section

variable {config : Config} {state : State Id} {id : Id}

def Seals (config : Config) (turn : Turn Id) : Prop :=
  ∀ event ∈ turn.2, ∀ id, event.Ends id -> Sealed config turn.1 id

theorem Seals.none {left : State Id} : Seals config (left, []) :=
  nofun

theorem Seals.single {left : State Id} {event : Event Id}
    (hends : ∀ id, event.Ends id -> Sealed config left id) : Seals config (left, [event]) := by
  intro other hother id hends'
  obtain rfl := mem_singleton.mp hother
  exact hends id hends'

omit [DecidableEq Id] in
theorem Idle.alone (hidle : Idle config state) (hredis : Not (config.redisEnabled = true))
    (id : Id) : Alone state.waiting id := by
  intro request hrequest hholds
  have hlocal := (hidle request hrequest).resolve_left hredis
  cases request with
  | reflecting => exact hholds
  | _ => exact hlocal

theorem closeEach_seals (keyId : String) (found : List (Id × Nat)) (closed : Nat)
    (hidle : Idle config state) : Seals config (closeEach config keyId found closed state) := by
  induction found generalizing closed state with
  | nil => exact Seals.single nofun
  | cons entry rest ih =>
    obtain ⟨id, session⟩ := entry
    simp only [closeEach]
    split
    · exact ih closed hidle
    · split
      · exact Seals.none
      · rename_i hredis
        have hleft : Idle config { state with memory := state.memory.delete id } := hidle
        intro event hevent other hends
        rcases mem_cons.mp hevent with rfl | hrest
        · obtain rfl : id = other := hends
          refine (closeEach_keeps keyId rest (closed + 1) _).stays id not_false ⟨?_, ?_, ?_⟩
          · rw [Map.get_delete, if_pos rfl]
          · exact fun henabled => absurd henabled hredis
          · exact hidle.alone hredis id
        · exact ih (closed + 1) hleft event hrest other hends

variable {next : AfterClose Id}

theorem afterClose_seals (hidle : Idle config state)
    (hsealed : next.Ends -> Sealed config state id) :
    Seals config (afterClose config state id next) := by
  cases next with
  | closeStreamableSession =>
    refine Seals.single fun other hends => ?_
    obtain rfl : id = other := hends
    exact hsealed trivial
  | validateStreamableSession => exact Seals.single nofun
  | rotateSession => exact Seals.single nofun
  | closeSessionsByKeyId keyId rest closed =>
    intro event hevent other hends
    rcases mem_cons.mp hevent with rfl | hrest
    · obtain rfl : id = other := hends
      exact (closeEach_keeps keyId rest (closed + 1) state).stays id not_false (hsealed trivial)
    · exact closeEach_seals keyId rest (closed + 1) hidle event hrest other hends

theorem closeStreamableSession_seals {preserveRedis : Bool} (hidle : Idle config state)
    (hsealed : next.Ends -> state.memory.get id = none -> Sealed config state id) :
    Seals config (closeStreamableSession config state id preserveRedis next) := by
  unfold closeStreamableSession
  split
  · rename_i hmemory
    exact afterClose_seals hidle fun hends => hsealed hends hmemory
  · exact Seals.none

variable {now : Nat}

theorem checkExpiry_seals {session : Nat} (hidle : Idle config state) :
    Seals config (checkExpiry config state id session now) := by
  simp only [checkExpiry]
  split
  · exact closeStreamableSession_seals hidle fun hends => False.elim hends
  · split
    · exact Seals.none
    · exact Seals.single fun _ hends => False.elim hends

theorem segmentFound_seals {session : Nat} :
    Seals config (segmentFound config state id session now) := by
  simp only [segmentFound]
  split
  · exact Seals.none
  · exact Seals.single fun _ hends => False.elim hends

theorem rotationDone_seals {rotation : Rotation Id} {oldSession : Option Nat}
    (hmemory : oldSession = none -> state.memory.get rotation.oldSessionId = none)
    (hredis : config.redisEnabled = true -> state.redis rotation.oldSessionId = none)
    (halone : Alone state.waiting rotation.oldSessionId) :
    Seals config (rotationDone state rotation oldSession) := by
  simp only [rotationDone]
  cases oldSession with
  | none =>
    refine Seals.single fun other hends => ?_
    obtain rfl : rotation.oldSessionId = other := hends
    exact ⟨hmemory rfl, hredis, halone⟩
  | some session =>
    refine Seals.single fun other hends => ?_
    obtain rfl : rotation.oldSessionId = other := hends
    refine ⟨?_, hredis, halone⟩
    rw [Map.get_delete, if_pos rfl]

variable {uuid : Id}

theorem rotateFound_seals {existing : Record} {options : RotateOptions} (hidle : Idle config state)
    (hmemory : config.redisEnabled = true \/ id ≠ uuid /\ state.memory.get id ≠ none) :
    Seals config (rotateFound config state id existing options now uuid) := by
  simp only [rotateFound]
  split
  · exact Seals.single fun _ hends => False.elim hends
  · split
    · exact closeStreamableSession_seals hidle fun hends => False.elim hends
    · split
      · exact Seals.none
      · rename_i hredis
        obtain ⟨hne, hthere⟩ := hmemory.resolve_left hredis
        refine rotationDone_seals (fun hnone => ?_) (fun henabled => absurd henabled hredis)
          (hidle.alone hredis id)
        change (state.memory.set uuid state.allocated).get id = none at hnone
        rw [Map.get_set, if_neg hne] at hnone
        exact absurd hnone hthere

theorem begin_seals {call : Call Id} (hidle : Idle config state) (hunused : state.Unused uuid)
    (hcall : Undisturbed config state (.call call now uuid)) :
    Seals config (begin config state call now uuid) := by
  cases call with
  | validateStreamableSession id requested =>
    simp only [begin, validateStreamableSession]
    split
    · exact checkExpiry_seals hidle
    · split
      · exact Seals.none
      · exact Seals.single fun _ hends => False.elim hends
  | currentSegmentId id =>
    simp only [begin, currentSegmentId]
    split
    · split
      · exact segmentFound_seals
      · split
        · exact Seals.none
        · exact Seals.single fun _ hends => False.elim hends
    · exact Seals.single fun _ hends => False.elim hends
  | rotateSession id options =>
    simp only [begin, rotateSession]
    split
    · rename_i session hsession
      refine rotateFound_seals hidle (Or.inr ⟨?_, by rw [hsession]; exact Option.some_ne_none _⟩)
      rintro rfl
      rw [hunused.1] at hsession
      cases hsession
    · split
      · exact Seals.none
      · exact Seals.single fun _ hends => False.elim hends
  | closeStreamableSession id preserveRedis =>
    refine closeStreamableSession_seals hidle fun _ hmemory => ?_
    obtain ⟨hredis, halone⟩ := hcall hmemory
    exact ⟨hmemory, hredis, halone⟩
  | closeSessionsByKeyId keyId =>
    simp only [begin, closeSessionsByKeyId]
    split
    · exact Seals.single fun _ hends => False.elim hends
    · exact closeEach_seals keyId _ 0 hidle

theorem goOn_seals {index : Nat} {waiting : Waiting Id} {reply : Reply} (hidle : Idle config state)
    (hwaiting : state.waiting[index]? = some waiting)
    (hanswer : Undisturbed config state (.answer index reply now uuid)) :
    Seals config (goOn config (state.without index) waiting reply now uuid) := by
  have hmem : waiting ∈ state.waiting := mem_of_getElem? hwaiting
  have hwaits := hidle waiting hmem
  have hless : Idle config (state.without index) :=
    fun request hrequest => hidle request (mem_of_mem_eraseIdx hrequest)
  have hsaved : ∀ id saved, Idle config (saveSessionToRedis (state.without index) id saved
      reply) := by
    intro id saved request hrequest
    rw [waiting_saveSessionToRedis] at hrequest
    exact hless request hrequest
  have hdeleted : ∀ id, Idle config (deleteSessionFromRedis (state.without index) id
      reply) := by
    intro id request hrequest
    rw [waiting_deleteSessionFromRedis] at hrequest
    exact hless request hrequest
  have hanswer := hanswer waiting hwaiting
  cases waiting with
  | validateRead id requested =>
    simp only [goOn, validateFound]
    split
    · exact Seals.single fun _ hends => False.elim hends
    · exact Seals.none
  | validateRestore id session saved => exact checkExpiry_seals (hsaved id saved)
  | validateSave id saved => exact Seals.single fun _ hends => False.elim hends
  | segmentRead id =>
    simp only [goOn]
    split
    · exact Seals.single fun _ hends => False.elim hends
    · exact segmentFound_seals
  | segmentSave id session saved => exact Seals.single fun _ hends => False.elim hends
  | rotateRead id options =>
    simp only [goOn]
    split
    · exact Seals.single fun _ hends => False.elim hends
    · exact rotateFound_seals hless (.inl (hwaits.resolve_right not_false))
  | rotateSave rotation saved =>
    simp only [goOn, rotateSaved]
    split
    · exact Seals.single fun _ hends => False.elim hends
    · exact Seals.none
  | rotateDelete rotation oldSession =>
    simp only [goOn, rotateDeleted]
    split
    · rename_i hdone
      obtain ⟨hmemory, halone⟩ := hanswer hdone
      simp only [deleteSessionFromRedis, hdone, Reply.ran, if_true]
      refine rotationDone_seals hmemory (fun _ => ?_) halone
      exact update_self _ _ _
    · exact Seals.none
  | rotateUndo rotation => exact Seals.single fun _ hends => False.elim hends
  | reflecting id preserveRedis next =>
    simp only [goOn, close]
    split
    · exact Seals.none
    · rename_i hkeeps
      refine afterClose_seals hless fun hends => ?_
      obtain ⟨hredis, halone⟩ := hanswer hends (Bool.eq_false_iff.mpr hkeeps)
      refine ⟨?_, hredis, halone⟩
      rw [Map.get_delete, if_pos rfl]
  | deleting id next =>
    refine afterClose_seals (hdeleted id) fun hends => ?_
    obtain ⟨hmemory, hredis, halone⟩ := hanswer hends
    unfold deleteSessionFromRedis
    split
    · exact ⟨hmemory, fun _ => update_self _ _ _, halone⟩
    · rename_i hran
      exact ⟨hmemory, fun _ => hredis.resolve_left hran, halone⟩

end

structure Final (config : Config) (state : State Id) : Prop where
  ended : ∀ event ∈ state.log, ∀ id, event.Ends id -> Sealed config state id
  sound : Sound state.log
  idle : Idle config state

section

variable {config : Config} {state : State Id}

omit [DecidableEq Id] in
theorem Event.Ends.names {event : Event Id} {id : Id} (hends : event.Ends id) : event.Names id := by
  cases event with
  | rotated rotation => exact .inl hends
  | closed other => exact hends
  | _ => exact hends.elim

omit [DecidableEq Id] in
theorem Event.Rotates.ends {event : Event Id} {id : Id} (hrotates : event.Rotates id) :
    event.Ends id := by
  cases event with
  | rotated rotation => exact hrotates
  | _ => exact hrotates.elim

theorem Final.record {turn : Turn Id} {uuid : Id} (hfinal : Final config state)
    (hunused : state.Unused uuid)
    (hkeeps : Keeps config (fun id => Not (Sealed config state id) \/ id = uuid) state turn)
    (hseals : Seals config turn) : Final config (record state turn) := by
  have hothers : ∀ event ∈ state.log, ∀ id, event.Ends id ->
      Not (Not (Sealed config state id) \/ id = uuid) := by
    rintro event hevent id hends (hopen | rfl)
    · exact hopen (hfinal.ended event hevent id hends)
    · exact hunused.2.2 event hevent hends.names
  refine { ended := ?_, sound := ⟨?_, ?_⟩, idle := hkeeps.idle hfinal.idle }
  · intro event hevent id hends
    rcases mem_append.mp hevent with hold | hnew
    · have hstill := hkeeps.stays id (hothers event hold id hends)
        (hfinal.ended event hold id hends)
      exact { hstill with }
    · exact { hseals event hnew id hends with }
  · refine pairwise_append.mpr ⟨hfinal.sound.neverAgain, hkeeps.sound.neverAgain, ?_⟩
    intro earlier hearlier later hlater id hends hvalidates
    exact hothers earlier hearlier id hends (hkeeps.only later hlater id (.inl hvalidates))
  · refine pairwise_append.mpr ⟨hfinal.sound.rotatedOnce, hkeeps.sound.rotatedOnce, ?_⟩
    intro earlier hearlier later hlater id hrotates hagain
    exact hothers earlier hearlier id hrotates.ends
      (hkeeps.only later hlater id (.inr hagain))

theorem Final.step {after : State Id} {label : Label Id} (hfinal : Final config state)
    (hstep : step config state label = some after) (hcalm : Undisturbed config state label) :
    Final config after := by
  cases label with
  | call call now uuid =>
    simp only [Streamable.step] at hstep
    split at hstep
    · rename_i hunused
      cases hstep
      exact hfinal.record hunused (begin_keeps state call now uuid)
        (begin_seals hfinal.idle hunused hcalm)
    · cases hstep
  | answer index reply now uuid =>
    simp only [Streamable.step] at hstep
    split at hstep
    · cases hstep
    · rename_i waiting hwaiting
      split at hstep
      · rename_i hunused
        cases hstep
        exact hfinal.record hunused (goOn_keeps hfinal.idle hwaiting reply now uuid)
          (goOn_seals hfinal.idle hwaiting hcalm)
      · cases hstep
  | lapse id =>
    cases hstep
    refine { ended := fun event hevent other hends => ?_, sound := hfinal.sound, idle :=
      hfinal.idle }
    have hsealed := hfinal.ended event hevent other hends
    refine { hsealed with redis := fun henabled => ?_ }
    change update state.redis id none other = none
    rcases eq_or_ne other id with rfl | hne
    · rw [update_self]
    · rw [update_of_ne hne]
      exact hsealed.redis henabled

theorem Final.start (hstarted : Started state) : Final config state where
  ended event hevent := by
    rw [hstarted.log] at hevent
    exact absurd hevent not_mem_nil
  sound := by
    rw [hstarted.log]
    exact ⟨Pairwise.nil, Pairwise.nil⟩
  idle waiting hwaiting := by
    rw [hstarted.waiting] at hwaiting
    exact absurd hwaiting not_mem_nil

end

def sampleConfig : Config where
  redisEnabled := true
  redisSessionFailClosed := false
  segmentEnabled := true
  sessionTtlMs := 1000
  idleMs := 500
  maxAgeMs := 5000
  supportedProtocolVersions := ["2025-03-26"]

def sampleSession : Record where
  authenticated := true
  isMaster := false
  keyId := some "k1"
  groupKeyIds := none
  permissions := none
  defaultWorkspace := none
  mode := none
  createdAt := some 0
  expiresAt := 1000
  lastAccessedAt := 0
  negotiatedVersion := some "2025-03-26"
  segmentSeq := some 1
  segmentStartedAt := some 0
  lastToolActivityAt := some 0

def sampleState : State String where
  memory := Map.empty.set "old" 0
  heap _ := sampleSession
  allocated := 1
  redis id := if id = "old" then some sampleSession else none
  waiting := []
  log := []

theorem sampleState_started : Started sampleState where
  allocated := by decide
  waiting := rfl
  log := rfl

def sampleOptions : RotateOptions where
  reason := "explicit_rotate"
  requesterIdentity := none
  trustedLocal := true

def sampleRotation (new : String) (now : Nat) : Rotation String where
  oldSessionId := "old"
  newSessionId := new
  expiresAt := now + 1000
  keyId := some "k1"
  workspace := none
  mode := none
  reason := "explicit_rotate"

def rotatedThenAsked : List (Label String) :=
  [ .call (.rotateSession "old" sampleOptions) 10 "new",
    .answer 0 .done 11 "spare", .answer 0 .done 12 "spare",
    .call (.validateStreamableSession "old" none) 20 "spare", .answer 0 .done 21 "spare" ]

/-- A validation saves the record after the rotation has deleted it, and the old id is
valid again for a request that comes later. -/
def savedAfterDelete : List (Label String) :=
  [ .call (.rotateSession "old" sampleOptions) 10 "new", .answer 0 .done 11 "spare",
    .call (.validateStreamableSession "old" none) 12 "spare",
    .answer 0 .done 13 "spare", .answer 0 .done 14 "spare",
    .call (.validateStreamableSession "old" none) 20 "spare",
    .answer 0 .done 21 "spare", .answer 0 .done 22 "spare", .answer 0 .done 23 "spare" ]

/-- Two rotations pass their checks before either deletes the old record. -/
def rotatedTwice : List (Label String) :=
  [ .call (.rotateSession "old" sampleOptions) 10 "new",
    .call (.rotateSession "old" sampleOptions) 11 "newer",
    .answer 0 .done 12 "spare", .answer 0 .done 13 "spare",
    .answer 0 .done 14 "spare", .answer 0 .done 15 "spare" ]

end AnchorMind.Session.Streamable
