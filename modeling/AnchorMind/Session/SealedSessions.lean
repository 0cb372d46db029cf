import AnchorMind.Session.StreamableSessions

/-!
# Sealed sessions

An id is sealed when neither the process nor Redis holds its session and no request works
with a copy of it.  Whatever a request does, the ids that are sealed stay sealed, unless
one is drawn for a new session, and a request validates and rotates only ids that are
not.
-/

namespace AnchorMind.Session.Streamable

open Kernel.InsertionMap List

variable {Id : Type*}

def Event.Ends (event : Event Id) (id : Id) : Prop :=
  match event with
  | .rotated rotation => rotation.oldSessionId = id
  | .closed other => other = id
  | _ => False

def Event.Validates (event : Event Id) (id : Id) : Prop :=
  match event with
  | .valid other => other = id
  | _ => False

def Event.Rotates (event : Event Id) (id : Id) : Prop :=
  match event with
  | .rotated rotation => rotation.oldSessionId = id
  | _ => False

structure Sound (log : List (Event Id)) : Prop where
  neverAgain : log.Pairwise fun earlier later =>
    ∀ id, earlier.Ends id -> Not (later.Validates id)
  rotatedOnce : log.Pairwise fun earlier later =>
    ∀ id, earlier.Rotates id -> Not (later.Rotates id)

/-- The request works with a session of this id: it will save the record, or it is a
rotation past its checks. -/
def Waiting.Holds (waiting : Waiting Id) (id : Id) : Prop :=
  match waiting with
  | .validateRestore other _ _ => other = id
  | .validateSave other _ => other = id
  | .segmentSave other _ _ => other = id
  | .rotateSave rotation _ => rotation.oldSessionId = id \/ rotation.newSessionId = id
  | .rotateDelete rotation _ => rotation.oldSessionId = id
  | _ => False

def Waiting.Local (waiting : Waiting Id) : Prop :=
  match waiting with
  | .reflecting _ _ _ => True
  | _ => False

def Alone (waiting : List (Waiting Id)) (id : Id) : Prop :=
  ∀ other ∈ waiting, Not (other.Holds id)

variable [DecidableEq Id]

/-- Nothing is left of the session, and nobody can bring it back. -/
structure Sealed (config : Config) (state : State Id) (id : Id) : Prop where
  memory : state.memory.get id = none
  redis : config.redisEnabled = true -> state.redis id = none
  alone : Alone state.waiting id

/-- Without Redis a request waits for `autoReflect` alone. -/
def Idle (config : Config) (state : State Id) : Prop :=
  ∀ waiting ∈ state.waiting, config.redisEnabled = true \/ waiting.Local

/-- What a request does with the sessions of the ids in `own`: all other ids stay sealed,
and it validates and rotates only its own. -/
structure Keeps (config : Config) (own : Id -> Prop) (state : State Id) (turn : Turn Id) :
    Prop where
  stays : ∀ id, Not (own id) -> Sealed config state id -> Sealed config turn.1 id
  only : ∀ event ∈ turn.2, ∀ id, event.Validates id \/ event.Rotates id -> own id
  sound : Sound turn.2
  idle : Idle config state -> Idle config turn.1

section

variable {config : Config} {state : State Id} {id other : Id}

omit [DecidableEq Id] in
theorem Alone.append {requests : List (Waiting Id)} {waiting : Waiting Id}
    (halone : Alone requests id) (hfree : Not (waiting.Holds id)) :
    Alone (requests ++ [waiting]) id := by
  intro request hrequest
  rcases mem_append.mp hrequest with hold | hnew
  · exact halone request hold
  · obtain rfl := mem_singleton.mp hnew
    exact hfree

section

variable (hsealed : Sealed config state id)
include hsealed

theorem Sealed.wait {waiting : Waiting Id} (hfree : Not (waiting.Holds id)) :
    Sealed config (state.wait waiting).1 id :=
  { hsealed with alone := hsealed.alone.append hfree }

theorem Sealed.update {session : Nat} {record : Record} :
    Sealed config (state.update session record) id := { hsealed with }

theorem Sealed.allocate {record : Record} :
    Sealed config (state.allocate record) id := { hsealed with }

theorem Sealed.delete : Sealed config { state with memory := state.memory.delete other } id := by
  refine { hsealed with memory := ?_ }
  rw [Map.get_delete, hsealed.memory, ite_self]

theorem Sealed.set {session : Nat} (hne : id ≠ other) :
    Sealed config { state with memory := state.memory.set other session } id := by
  refine { hsealed with memory := ?_ }
  rw [Map.get_set, if_neg hne, hsealed.memory]

theorem Sealed.save {saved : Record} {reply : Reply} (hne : id ≠ other) :
    Sealed config (saveSessionToRedis state other saved reply) id := by
  unfold saveSessionToRedis
  split
  · refine { hsealed with redis := fun henabled => ?_ }
    change Function.update state.redis other (some saved) id = none
    rw [Function.update_of_ne hne]
    exact hsealed.redis henabled
  · exact hsealed

theorem Sealed.deleteFromRedis {reply : Reply} :
    Sealed config (deleteSessionFromRedis state other reply) id := by
  unfold deleteSessionFromRedis
  split
  · refine { hsealed with redis := fun henabled => ?_ }
    change Function.update state.redis other none id = none
    rcases eq_or_ne id other with rfl | hne
    · rw [Function.update_self]
    · rw [Function.update_of_ne hne]
      exact hsealed.redis henabled
  · exact hsealed

theorem Sealed.without {index : Nat} : Sealed config (state.without index) id :=
  { hsealed with
    alone := fun request hrequest => hsealed.alone request (mem_of_mem_eraseIdx hrequest) }

end

omit [DecidableEq Id] in
theorem Sound.of_quiet {events : List (Event Id)}
    (hquiet : ∀ event ∈ events, ∀ id, Not (event.Validates id) /\ Not (event.Rotates id)) :
    Sound events where
  neverAgain := pairwise_of_forall_mem_list fun _ _ later hlater id _ =>
    (hquiet later hlater id).1
  rotatedOnce := pairwise_of_forall_mem_list fun _ _ later hlater id _ =>
    (hquiet later hlater id).2

omit [DecidableEq Id] in
theorem Sound.single (event : Event Id) : Sound [event] where
  neverAgain := pairwise_singleton _ _
  rotatedOnce := pairwise_singleton _ _

end

variable {config : Config} {state middle : State Id} {turn : Turn Id} {own : Id -> Prop} {id : Id}

theorem Keeps.mono {wider : Id -> Prop} (hkeeps : Keeps config own state turn)
    (howns : ∀ id, own id -> wider id) : Keeps config wider state turn where
  stays id hother := hkeeps.stays id fun hown => hother (howns id hown)
  only event hevent id hdoes := howns id (hkeeps.only event hevent id hdoes)
  sound := hkeeps.sound
  idle := hkeeps.idle

theorem Keeps.after (hkeeps : Keeps config own middle turn)
    (hstays : ∀ id, Not (own id) -> Sealed config state id -> Sealed config middle id)
    (hwaiting : middle.waiting ⊆ state.waiting) : Keeps config own state turn where
  stays id hother hsealed := hkeeps.stays id hother (hstays id hother hsealed)
  only := hkeeps.only
  sound := hkeeps.sound
  idle hidle := hkeeps.idle fun request hrequest => hidle request (hwaiting hrequest)

theorem Keeps.return {event : Event Id}
    (hevent : ∀ id, event.Validates id \/ event.Rotates id -> own id) :
    Keeps config own state (state, [event]) where
  stays _ _ hsealed := hsealed
  only other hother id hdoes := by
    obtain rfl := mem_singleton.mp hother
    exact hevent id hdoes
  sound := Sound.single event
  idle hidle := hidle

variable {waiting : Waiting Id}

theorem Keeps.wait (hholds : ∀ id, waiting.Holds id -> own id)
    (hwaits : config.redisEnabled = true \/ waiting.Local) :
    Keeps config own state (state.wait waiting) where
  stays id hother hsealed := hsealed.wait fun hheld => hother (hholds id hheld)
  only event hevent := absurd hevent not_mem_nil
  sound := ⟨Pairwise.nil, Pairwise.nil⟩
  idle hidle request hrequest := by
    rcases mem_append.mp hrequest with hold | hnew
    · exact hidle request hold
    · obtain rfl := mem_singleton.mp hnew
      exact hwaits

theorem Keeps.closed (hkeeps : Keeps config (fun _ => False) state turn) :
    Keeps config (fun _ => False) state (turn.1, .closed id :: turn.2) where
  stays := hkeeps.stays
  only event hevent other hdoes := by
    rcases mem_cons.mp hevent with rfl | hrest
    · exact hdoes.elim (fun hvalid => hvalid) (fun hrotates => hrotates)
    · exact hkeeps.only event hrest other hdoes
  sound := by
    refine Sound.of_quiet fun event hevent other => ?_
    rcases mem_cons.mp hevent with rfl | hrest
    · exact ⟨fun hvalid => hvalid, fun hrotates => hrotates⟩
    · exact ⟨fun hvalid => hkeeps.only event hrest other (.inl hvalid),
        fun hrotates => hkeeps.only event hrest other (.inr hrotates)⟩
  idle := hkeeps.idle

theorem closeEach_keeps (keyId : String) (found : List (Id × Nat)) (closed : Nat)
    (state : State Id) :
    Keeps config (fun _ => False) state (closeEach config keyId found closed state) := by
  induction found generalizing closed state with
  | nil => exact Keeps.return fun id hdoes => hdoes.elim (fun hvalid => hvalid) (fun hrot => hrot)
  | cons entry rest ih =>
    obtain ⟨id, session⟩ := entry
    simp only [closeEach]
    split
    · exact ih closed state
    · have hleft : ∀ other, Not False -> Sealed config state other ->
          Sealed config { state with memory := state.memory.delete id } other :=
        fun other _ hsealed => hsealed.delete
      split
      · rename_i hredis
        refine Keeps.after (Keeps.wait ?_ (.inl hredis)) hleft (Subset.refl _)
        exact fun other hholds => hholds
      · exact (ih (closed + 1) _).closed.after hleft (Subset.refl _)

theorem afterClose_keeps (state : State Id) (id : Id) (next : AfterClose Id) :
    Keeps config (fun _ => False) state (afterClose config state id next) := by
  cases next with
  | closeSessionsByKeyId keyId rest closed =>
    exact (closeEach_keeps keyId rest (closed + 1) state).closed
  | closeStreamableSession =>
    exact Keeps.return fun id hdoes => hdoes.elim (fun hvalid => hvalid) (fun hrot => hrot)
  | validateStreamableSession =>
    exact Keeps.return fun id hdoes => hdoes.elim (fun hvalid => hvalid) (fun hrot => hrot)
  | rotateSession =>
    exact Keeps.return fun id hdoes => hdoes.elim (fun hvalid => hvalid) (fun hrot => hrot)

theorem close_keeps (state : State Id) (id : Id) (preserveRedis : Bool) (next : AfterClose Id) :
    Keeps config (fun _ => False) state (close config state id preserveRedis next) := by
  have hleft : ∀ other, Not False -> Sealed config state other ->
      Sealed config { state with memory := state.memory.delete id } other :=
    fun other _ hsealed => hsealed.delete
  simp only [close]
  split
  · rename_i hdeletes
    have hredis : config.redisEnabled = true := (Bool.and_eq_true_iff.mp hdeletes).1
    refine Keeps.after (Keeps.wait ?_ (.inl hredis)) hleft (Subset.refl _)
    exact fun other hholds => hholds
  · exact (afterClose_keeps _ id next).after hleft (Subset.refl _)

theorem closeStreamableSession_keeps (state : State Id) (id : Id) (preserveRedis : Bool)
    (next : AfterClose Id) :
    Keeps config (fun _ => False) state
      (closeStreamableSession config state id preserveRedis next) := by
  unfold closeStreamableSession
  split
  · exact afterClose_keeps state id next
  · exact Keeps.wait (nofun) (.inr trivial)

theorem checkExpiry_keeps (state : State Id) (id : Id) (session now : Nat) :
    Keeps config (fun other => other = id) state (checkExpiry config state id session now) := by
  simp only [checkExpiry]
  split
  · exact (closeStreamableSession_keeps state id false _).mono nofun
  · split
    · rename_i hredis
      refine Keeps.after (Keeps.wait ?_ (.inl hredis)) (fun other _ hsealed => hsealed.update)
        (Subset.refl _)
      exact fun other hholds => hholds.symm
    · refine Keeps.after (Keeps.return fun other hdoes => ?_)
        (fun other _ hsealed => hsealed.update) (Subset.refl _)
      exact hdoes.elim (fun hvalid => hvalid.symm) (nofun)

theorem segmentFound_keeps (state : State Id) (id : Id) (session now : Nat) :
    Keeps config (fun other => other = id) state (segmentFound config state id session now) := by
  simp only [segmentFound]
  split
  · rename_i hredis
    refine Keeps.after (Keeps.wait ?_ (.inl hredis)) (fun other _ hsealed => hsealed.update)
      (Subset.refl _)
    exact fun other hholds => hholds.symm
  · exact Keeps.after (Keeps.return fun other hdoes =>
      absurd (hdoes.elim (fun hvalid => hvalid) (fun hrotates => hrotates)) not_false)
      (fun other _ hsealed => hsealed.update) (Subset.refl _)

theorem rotationDone_keeps (state : State Id) (rotation : Rotation Id) (oldSession : Option Nat) :
    Keeps config (fun other => other = rotation.oldSessionId) state
      (rotationDone state rotation oldSession) := by
  have hreturn : ∀ left : State Id, ∀ expiresAt : Nat,
      Keeps config (fun other => other = rotation.oldSessionId) left
        (left, [.rotated { rotation with expiresAt := expiresAt }]) := by
    intro left expiresAt
    refine Keeps.return fun other hdoes => ?_
    exact hdoes.elim (nofun) (fun hrotates => hrotates.symm)
  simp only [rotationDone]
  cases oldSession with
  | none => exact hreturn state _
  | some session =>
    exact (hreturn _ _).after (fun other _ hsealed => hsealed.delete) (Subset.refl _)

theorem rotateFound_keeps (state : State Id) (id : Id) (existing : Record) (options : RotateOptions)
    (now : Nat) (uuid : Id) :
    Keeps config (fun other => other = id \/ other = uuid) state
      (rotateFound config state id existing options now uuid) := by
  simp only [rotateFound]
  split
  · exact Keeps.return fun other hdoes =>
      absurd (hdoes.elim (fun hvalid => hvalid) (fun hrotates => hrotates)) not_false
  · split
    · exact (closeStreamableSession_keeps state id false _).mono
        fun _ hnone => False.elim hnone
    · have hcreated : ∀ other, Not (other = id \/ other = uuid) ->
          Sealed config state other ->
            Sealed config { state.allocate (newRecord config (freshIdentity options existing)
              existing now) with memory := state.memory.set uuid state.allocated } other := by
        intro other hother hsealed
        exact (hsealed.allocate).set fun heq => hother (.inr heq)
      split
      · rename_i hredis
        refine Keeps.after (Keeps.wait (fun other hholds => ?_) (.inl hredis)) hcreated
          (Subset.refl _)
        exact hholds.imp Eq.symm Eq.symm
      · refine Keeps.after ?_ hcreated (Subset.refl _)
        exact (rotationDone_keeps _ _ _).mono fun other heq => .inl heq

theorem waiting_saveSessionToRedis (state : State Id) (id : Id) (saved : Record) (reply : Reply) :
    (saveSessionToRedis state id saved reply).waiting = state.waiting := by
  unfold saveSessionToRedis
  split <;> rfl

theorem waiting_deleteSessionFromRedis (state : State Id) (id : Id) (reply : Reply) :
    (deleteSessionFromRedis state id reply).waiting = state.waiting := by
  unfold deleteSessionFromRedis
  split <;> rfl

/-- A new request works with sessions that are not sealed, or with the new one. -/
theorem begin_keeps (state : State Id) (call : Call Id) (now : Nat) (uuid : Id) :
    Keeps config (fun id => Not (Sealed config state id) \/ id = uuid) state
      (begin config state call now uuid) := by
  have hopen : ∀ id session, state.memory.get id = some session ->
      Not (Sealed config state id) := by
    intro id session hsession hsealed
    rw [hsealed.memory] at hsession
    cases hsession
  have hquiet : ∀ {event : Event Id}, (∀ id, Not (event.Validates id)) ->
      (∀ id, Not (event.Rotates id)) ->
        Keeps config (fun id => Not (Sealed config state id) \/ id = uuid) state
          (state, [event]) := by
    intro event hvalid hrotates
    exact Keeps.return fun id hdoes => absurd hdoes (not_or.mpr ⟨hvalid id, hrotates id⟩)
  cases call with
  | validateStreamableSession id requested =>
    simp only [begin, validateStreamableSession]
    split
    · rename_i session hsession
      refine (checkExpiry_keeps state id session now).mono ?_
      rintro other rfl
      exact .inl (hopen other session hsession)
    · split
      · rename_i hredis
        exact Keeps.wait (fun _ hholds => False.elim hholds) (.inl hredis)
      · exact hquiet (fun _ => not_false) (fun _ => not_false)
  | currentSegmentId id =>
    simp only [begin, currentSegmentId]
    split
    · split
      · rename_i session hsession
        refine (segmentFound_keeps state id session now).mono ?_
        rintro other rfl
        exact .inl (hopen other session hsession)
      · split
        · rename_i hredis
          exact Keeps.wait (fun _ hholds => False.elim hholds) (.inl hredis)
        · exact hquiet (fun _ => not_false) (fun _ => not_false)
    · exact hquiet (fun _ => not_false) (fun _ => not_false)
  | rotateSession id options =>
    simp only [begin, rotateSession]
    split
    · rename_i session hsession
      refine (rotateFound_keeps state id _ options now uuid).mono ?_
      rintro other (rfl | rfl)
      · exact .inl (hopen other session hsession)
      · exact .inr rfl
    · split
      · rename_i hredis
        exact Keeps.wait (fun _ hholds => False.elim hholds) (.inl hredis)
      · exact hquiet (fun _ => not_false) (fun _ => not_false)
  | closeStreamableSession id preserveRedis =>
    exact (closeStreamableSession_keeps state id preserveRedis _).mono
      fun _ hnone => False.elim hnone
  | closeSessionsByKeyId keyId =>
    simp only [begin, closeSessionsByKeyId]
    split
    · exact hquiet (fun _ => not_false) (fun _ => not_false)
    · exact (closeEach_keeps keyId _ 0 state).mono fun _ hnone => False.elim hnone

/-- A request that goes on works with sessions it held, or that Redis still had. -/
theorem goOn_keeps {state : State Id} {index : Nat} (hidle : Idle config state)
    (hwaiting : state.waiting[index]? = some waiting) (reply : Reply) (now : Nat) (uuid : Id) :
    Keeps config (fun id => Not (Sealed config state id) \/ id = uuid) state
      (goOn config (state.without index) waiting reply now uuid) := by
  have hmem : waiting ∈ state.waiting := mem_of_getElem? hwaiting
  have hheld : ∀ id, waiting.Holds id -> Not (Sealed config state id) \/ id = uuid :=
    fun id hholds => .inl fun hsealed => hsealed.alone waiting hmem hholds
  have hless : (state.without index).waiting ⊆ state.waiting :=
    fun request hrequest => mem_of_mem_eraseIdx hrequest
  have hstill : ∀ id, Not (Not (Sealed config state id) \/ id = uuid) ->
      Sealed config state id -> Sealed config (state.without index) id :=
    fun id _ hsealed => hsealed.without
  have hquiet : ∀ {event : Event Id} {left : State Id},
      (∀ id, Not (event.Validates id)) -> (∀ id, Not (event.Rotates id)) ->
        Keeps config (fun id => Not (Sealed config state id) \/ id = uuid) left (left, [event]) :=
          by
    intro event left hvalid hrotates
    exact Keeps.return fun id hdoes => absurd hdoes (not_or.mpr ⟨hvalid id, hrotates id⟩)
  have hsaved : ∀ id saved, (Not (Sealed config state id) \/ id = uuid) ->
      ∀ other, Not (Not (Sealed config state other) \/ other = uuid) ->
        Sealed config state other ->
          Sealed config (saveSessionToRedis (state.without index) id saved reply) other := by
    intro id saved hown other hother hsealed
    refine hsealed.without.save ?_
    rintro rfl
    exact hother hown
  have hfound : ∀ id record, config.redisEnabled = true ->
      getSessionFromRedis (state.without index) id reply = some record ->
        Not (Sealed config state id) \/ id = uuid := by
    intro id record hredis hrecord
    refine .inl fun hsealed => ?_
    unfold getSessionFromRedis at hrecord
    split at hrecord
    · change state.redis id = some record at hrecord
      rw [hsealed.redis hredis] at hrecord
      cases hrecord
    · cases hrecord
  have hredis := hidle waiting hmem
  cases waiting with
  | validateRead id requested =>
    have henabled := hredis.resolve_right not_false
    simp only [goOn, validateFound]
    split
    · refine Keeps.after (hquiet ?_ ?_) hstill hless <;> exact fun _ => not_false
    · rename_i record hrecord
      refine Keeps.after (Keeps.wait (fun other hholds => ?_) (.inl henabled)) ?_ hless
      · obtain rfl : id = other := hholds
        exact hfound id record henabled hrecord
      · intro other hother hsealed
        refine (hsealed.without.allocate).set ?_
        rintro rfl
        exact hother (hfound other record henabled hrecord)
  | validateRestore id session saved =>
    refine Keeps.after ((checkExpiry_keeps _ id session now).mono ?_)
      (hsaved id saved (hheld id rfl)) ?_
    · rintro other rfl
      exact hheld other rfl
    · rw [waiting_saveSessionToRedis]
      exact hless
  | validateSave id saved =>
    refine Keeps.after (Keeps.return fun other hdoes => ?_) (hsaved id saved (hheld id rfl)) ?_
    · obtain rfl : id = other := hdoes.resolve_right not_false
      exact hheld id rfl
    · rw [waiting_saveSessionToRedis]
      exact hless
  | segmentRead id =>
    have henabled := hredis.resolve_right not_false
    simp only [goOn]
    split
    · refine Keeps.after (hquiet ?_ ?_) hstill hless <;> exact fun _ => not_false
    · rename_i record hrecord
      refine Keeps.after ((segmentFound_keeps _ id _ now).mono ?_)
        (fun other hother hsealed => hsealed.without.allocate) hless
      rintro other rfl
      exact hfound other record henabled hrecord
  | segmentSave id session saved =>
    refine Keeps.after (hquiet ?_ ?_) (hsaved id saved (hheld id rfl)) ?_
    · exact fun _ => not_false
    · exact fun _ => not_false
    · rw [waiting_saveSessionToRedis]
      exact hless
  | rotateRead id options =>
    have henabled := hredis.resolve_right not_false
    simp only [goOn]
    split
    · refine Keeps.after (hquiet ?_ ?_) hstill hless <;> exact fun _ => not_false
    · rename_i record hrecord
      refine Keeps.after ((rotateFound_keeps _ id record options now uuid).mono ?_) hstill hless
      rintro other (rfl | rfl)
      · exact hfound other record henabled hrecord
      · exact .inr rfl
  | rotateSave rotation saved =>
    have hsub : (saveSessionToRedis (state.without index) rotation.newSessionId saved
        reply).waiting ⊆ state.waiting := by
      rw [waiting_saveSessionToRedis]
      exact hless
    have hstays := hsaved rotation.newSessionId saved (hheld _ (.inr rfl))
    simp only [goOn, rotateSaved]
    split
    · refine Keeps.after (hquiet ?_ ?_)
        (fun other hother hsealed => (hstays other hother hsealed).delete) hsub <;>
          exact fun _ => not_false
    · refine Keeps.after (Keeps.wait (fun other hholds => ?_) ?_) hstays hsub
      · exact hheld other (.inl hholds)
      · exact .inl (hredis.resolve_right not_false)
  | rotateDelete rotation oldSession =>
    have hsub : (deleteSessionFromRedis (state.without index) rotation.oldSessionId
        reply).waiting ⊆ state.waiting := by
      rw [waiting_deleteSessionFromRedis]
      exact hless
    simp only [goOn, rotateDeleted]
    split
    · refine Keeps.after ((rotationDone_keeps _ rotation oldSession).mono ?_)
        (fun other _ hsealed => hsealed.without.deleteFromRedis) hsub
      rintro other rfl
      exact hheld _ rfl
    · refine Keeps.after (Keeps.wait ?_ (.inl (hredis.resolve_right not_false)))
        (fun other _ hsealed => hsealed.without.deleteFromRedis.delete) hsub
      exact fun _ hholds => False.elim hholds
  | rotateUndo rotation =>
    refine Keeps.after (hquiet ?_ ?_) (fun other _ hsealed => hsealed.without.deleteFromRedis) ?_
    · exact fun _ => not_false
    · exact fun _ => not_false
    · rw [waiting_deleteSessionFromRedis]
      exact hless
  | reflecting id preserveRedis next =>
    exact ((close_keeps _ id preserveRedis next).mono
      fun _ hnone => False.elim hnone).after hstill hless
  | deleting id next =>
    refine ((afterClose_keeps _ id next).mono fun _ hnone => False.elim hnone).after
      (fun other _ hsealed => hsealed.without.deleteFromRedis) ?_
    rw [waiting_deleteSessionFromRedis]
    exact hless

end AnchorMind.Session.Streamable
