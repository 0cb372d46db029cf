import AnchorMind.Kernel.InsertionMap
import AnchorMind.Kernel.Transition

/-!
# Streamable sessions

One process keeps its sessions in a map and a copy of each record in Redis.  A request
runs until it waits for Redis or for `autoReflect`, and goes on when the answer is there;
between two waits no other request runs.  A session object is shared by all requests
that hold it.
-/

namespace AnchorMind.Session.Streamable

open Kernel.Transition Kernel.InsertionMap

structure Config where
  redisEnabled : Bool
  redisSessionFailClosed : Bool
  segmentEnabled : Bool
  sessionTtlMs : Nat
  idleMs : Nat
  maxAgeMs : Nat
  supportedProtocolVersions : List String

/-- The fields of a session that are saved. -/
structure Record where
  authenticated : Bool
  isMaster : Bool
  keyId : Option String
  groupKeyIds : Option (List String)
  permissions : Option (List String)
  defaultWorkspace : Option String
  mode : Option String
  createdAt : Option Nat
  expiresAt : Nat
  lastAccessedAt : Nat
  negotiatedVersion : Option String
  segmentSeq : Option Nat
  segmentStartedAt : Option Nat
  lastToolActivityAt : Option Nat
  deriving DecidableEq

structure Identity where
  keyId : Option String
  isMaster : Bool
  groupKeyIds : Option (List String)
  permissions : Option (List String)
  deriving DecidableEq

structure RotateOptions where
  reason : String
  requesterIdentity : Option Identity
  trustedLocal : Bool
  deriving DecidableEq

/-- What `rotateSession` returns. -/
structure Rotation (Id : Type*) where
  oldSessionId : Id
  newSessionId : Id
  expiresAt : Nat
  keyId : Option String
  workspace : Option String
  mode : Option String
  reason : String
  deriving DecidableEq

/-- What a request has returned. -/
inductive Event (Id : Type*) where
  | valid (id : Id)
  | invalid (id : Id) (reason : String)
  /-- The number of the segment, if the session has one. -/
  | segment (id : Id) (seq : Option Nat)
  | rotated (rotation : Rotation Id)
  | notRotated (id : Id) (statusCode : Nat) (message : String)
  | closed (id : Id)
  | closedByKeyId (keyId : String) (count : Nat)
  deriving DecidableEq

inductive AfterClose (Id : Type*) where
  | closeStreamableSession
  | validateStreamableSession
  | rotateSession
  | closeSessionsByKeyId (keyId : String) (rest : List (Id × Nat)) (closed : Nat)
  deriving DecidableEq

inductive Waiting (Id : Type*) where
  | validateRead (id : Id) (requestedProtocolVersion : Option String)
  | validateRestore (id : Id) (session : Nat) (saved : Record)
  | validateSave (id : Id) (saved : Record)
  | segmentRead (id : Id)
  | segmentSave (id : Id) (session : Nat) (saved : Record)
  | rotateRead (id : Id) (options : RotateOptions)
  | rotateSave (rotation : Rotation Id) (saved : Record)
  | rotateDelete (rotation : Rotation Id) (oldSession : Option Nat)
  | rotateUndo (rotation : Rotation Id)
  | reflecting (id : Id) (preserveRedis : Bool) (next : AfterClose Id)
  | deleting (id : Id) (next : AfterClose Id)
  deriving DecidableEq

/-- What becomes of a command: Redis runs it and answers, runs it but the answer is lost,
or does not run it. -/
inductive Reply where
  | done
  | lost
  | failed
  deriving DecidableEq

def Reply.ran : Reply -> Bool
  | .failed => false
  | _ => true

structure State (Id : Type*) where
  /-- `streamableSessions` -/
  memory : Map Id Nat
  heap : Nat -> Record
  allocated : Nat
  redis : Id -> Option Record
  waiting : List (Waiting Id)
  log : List (Event Id)

abbrev Turn (Id : Type*) := State Id × List (Event Id)

section

variable {Id : Type*} [DecidableEq Id] (config : Config)

def State.wait (state : State Id) (waiting : Waiting Id) : Turn Id :=
  ({ state with waiting := state.waiting ++ [waiting] }, [])

def State.update (state : State Id) (session : Nat) (record : Record) : State Id :=
  { state with heap := Function.update state.heap session record }

/-- A new session object. -/
def State.allocate (state : State Id) (record : Record) : State Id :=
  { state.update state.allocated record with allocated := state.allocated + 1 }

def saveSessionToRedis (state : State Id) (id : Id) (saved : Record) (reply : Reply) : State Id :=
  if reply.ran then { state with redis := Function.update state.redis id (some saved) } else state

def getSessionFromRedis (state : State Id) (id : Id) (reply : Reply) : Option Record :=
  if reply = .done then state.redis id else none

def deleteSessionFromRedis (state : State Id) (id : Id) (reply : Reply) : State Id :=
  if reply.ran then { state with redis := Function.update state.redis id none } else state

/-- The loop of `closeSessionsByKeyId` over the sessions there were. -/
def closeEach (keyId : String) : List (Id × Nat) -> Nat -> State Id -> Turn Id
  | [], closed, state => (state, [.closedByKeyId keyId closed])
  | (id, session) :: rest, closed, state =>
    if (state.heap session).keyId ≠ some keyId then closeEach keyId rest closed state
    else
      let left := { state with memory := state.memory.delete id }
      if config.redisEnabled then
        left.wait (.deleting id (.closeSessionsByKeyId keyId rest closed))
      else
        let turn := closeEach keyId rest (closed + 1) left
        (turn.1, .closed id :: turn.2)

def afterClose (state : State Id) (id : Id) : AfterClose Id -> Turn Id
  | .closeStreamableSession => (state, [.closed id])
  | .validateStreamableSession => (state, [.invalid id "Session expired"])
  | .rotateSession => (state, [.notRotated id 401 "Session expired"])
  | .closeSessionsByKeyId keyId rest closed =>
    let turn := closeEach config keyId rest (closed + 1) state
    (turn.1, .closed id :: turn.2)

/-- `session.close` -/
def close (state : State Id) (id : Id) (preserveRedis : Bool) (next : AfterClose Id) : Turn Id :=
  let left := { state with memory := state.memory.delete id }
  if config.redisEnabled && !preserveRedis then left.wait (.deleting id next)
  else afterClose config left id next

def closeStreamableSession (state : State Id) (id : Id) (preserveRedis : Bool)
    (next : AfterClose Id) : Turn Id :=
  match state.memory.get id with
  | none => afterClose config state id next
  | some _ => state.wait (.reflecting id preserveRedis next)

def closeSessionsByKeyId (state : State Id) (keyId : String) : Turn Id :=
  if keyId = "" then (state, [.closedByKeyId keyId 0])
  else closeEach config keyId state.memory.entries 0 state

def checkExpiry (state : State Id) (id : Id) (session now : Nat) : Turn Id :=
  let record := state.heap session
  if now > record.expiresAt then
    closeStreamableSession config state id false .validateStreamableSession
  else
    let kept := { record with
      lastAccessedAt := now
      expiresAt := now + config.sessionTtlMs }
    let touched := state.update session kept
    if config.redisEnabled then touched.wait (.validateSave id kept) else (touched, [.valid id])

def reanchored (requestedProtocolVersion negotiatedVersion : Option String) : Option String :=
  match requestedProtocolVersion with
  | some version =>
    if version ∈ config.supportedProtocolVersions then some version else negotiatedVersion
  | none => negotiatedVersion

def restored (record : Record) (requestedProtocolVersion : Option String) (now : Nat) : Record :=
  { record with
    lastAccessedAt := now
    expiresAt := now + config.sessionTtlMs
    negotiatedVersion := reanchored config requestedProtocolVersion record.negotiatedVersion }

def validateStreamableSession (state : State Id) (id : Id)
    (requestedProtocolVersion : Option String) (now : Nat) : Turn Id :=
  match state.memory.get id with
  | some session => checkExpiry config state id session now
  | none =>
    if config.redisEnabled then state.wait (.validateRead id requestedProtocolVersion)
    else (state, [.invalid id "Session not found"])

/-- After the look-up in Redis. -/
def validateFound (state : State Id) (id : Id) (requestedProtocolVersion : Option String)
    (found : Option Record) (now : Nat) : Turn Id :=
  match found with
  | none => (state, [.invalid id "Session not found"])
  | some record =>
    let session := restored config record requestedProtocolVersion now
    let there := { state.allocate session with
      memory := state.memory.set id state.allocated }
    there.wait (.validateRestore id state.allocated session)

def advanceSegment (session : Record) (now : Nat) : Record :=
  let segmentSeq := session.segmentSeq.getD 1
  let segmentStartedAt := session.segmentStartedAt.getD (session.createdAt.getD now)
  let lastToolActivityAt := session.lastToolActivityAt.getD segmentStartedAt
  let idleExpired := lastToolActivityAt + config.idleMs < now
  let ageExpired := segmentStartedAt + config.maxAgeMs < now
  if idleExpired || ageExpired then
    { session with
      segmentSeq := some (segmentSeq + 1)
      segmentStartedAt := some now
      lastToolActivityAt := some now }
  else
    { session with
      segmentSeq := some segmentSeq
      segmentStartedAt := some segmentStartedAt
      lastToolActivityAt := some now }

def segmentFound (state : State Id) (id : Id) (session now : Nat) : Turn Id :=
  let advanced := advanceSegment config (state.heap session) now
  let kept := state.update session advanced
  if config.redisEnabled then kept.wait (.segmentSave id session advanced)
  else (kept, [.segment id advanced.segmentSeq])

def currentSegmentId (state : State Id) (id : Id) (now : Nat) : Turn Id :=
  if config.segmentEnabled then
    match state.memory.get id with
    | some session => segmentFound config state id session now
    | none =>
      if config.redisEnabled then state.wait (.segmentRead id) else (state, [.segment id none])
  else (state, [.segment id none])

def sameIdentity (requesterIdentity : Option Identity) (existing : Record) : Bool :=
  match requesterIdentity with
  | none => false
  | some identity =>
    identity.keyId = existing.keyId && identity.isMaster = existing.isMaster &&
      (identity.isMaster || identity.keyId.isSome)

/-- Whose rights the new session gets. -/
def freshIdentity (options : RotateOptions) (existing : Record) : Identity :=
  match options.trustedLocal, options.requesterIdentity with
  | false, some identity => identity
  | _, _ =>
    { keyId := existing.keyId
      isMaster := existing.isMaster
      groupKeyIds := existing.groupKeyIds
      permissions := existing.permissions }

/-- The record of `createStreamableSessionWithId`. -/
def newRecord (identity : Identity) (existing : Record) (now : Nat) : Record where
  authenticated := existing.authenticated
  isMaster := identity.isMaster
  keyId := identity.keyId
  groupKeyIds := identity.groupKeyIds
  permissions := identity.permissions
  defaultWorkspace := existing.defaultWorkspace
  mode := existing.mode
  createdAt := some now
  expiresAt := now + config.sessionTtlMs
  lastAccessedAt := now
  negotiatedVersion := none
  segmentSeq := some 1
  segmentStartedAt := some now
  lastToolActivityAt := some now

def rotationDone (state : State Id) (rotation : Rotation Id) (oldSession : Option Nat) : Turn Id :=
  let left :=
    match oldSession with
    | some _ => { state with memory := state.memory.delete rotation.oldSessionId }
    | none => state
  let expiresAt :=
    match left.memory.get rotation.newSessionId with
    | some session => (left.heap session).expiresAt
    | none => rotation.expiresAt
  (left, [.rotated { rotation with expiresAt := expiresAt }])

def rotateFound (state : State Id) (id : Id) (existing : Record) (options : RotateOptions)
    (now : Nat) (uuid : Id) : Turn Id :=
  if !options.trustedLocal && !sameIdentity options.requesterIdentity existing then
    (state, [.notRotated id 403 "Session identity mismatch"])
  else if now > existing.expiresAt then
    closeStreamableSession config state id false .rotateSession
  else
    let identity := freshIdentity options existing
    let record := newRecord config identity existing now
    let rotation : Rotation Id :=
      { oldSessionId := id
        newSessionId := uuid
        expiresAt := now + config.sessionTtlMs
        keyId := identity.keyId
        workspace := existing.defaultWorkspace
        mode := existing.mode
        reason := options.reason }
    let created := { state.allocate record with memory := state.memory.set uuid state.allocated }
    if config.redisEnabled then created.wait (.rotateSave rotation record)
    else rotationDone created rotation (created.memory.get id)

def rotateSession (state : State Id) (id : Id) (options : RotateOptions) (now : Nat)
    (uuid : Id) : Turn Id :=
  match state.memory.get id with
  | some session => rotateFound config state id (state.heap session) options now uuid
  | none =>
    if config.redisEnabled then state.wait (.rotateRead id options)
    else (state, [.notRotated id 404 "Session not found"])

def rotateSaved (state : State Id) (rotation : Rotation Id) (reply : Reply) : Turn Id :=
  if reply ≠ .done && config.redisSessionFailClosed then
    ({ state with memory := state.memory.delete rotation.newSessionId },
      [.notRotated rotation.oldSessionId 503 "Session persistence failed"])
  else state.wait (.rotateDelete rotation (state.memory.get rotation.oldSessionId))

def rotateDeleted (state : State Id) (rotation : Rotation Id) (oldSession : Option Nat)
    (reply : Reply) : Turn Id :=
  if reply = .done then rotationDone state rotation oldSession
  else
    let left := { state with memory := state.memory.delete rotation.newSessionId }
    left.wait (.rotateUndo rotation)

inductive Call (Id : Type*) where
  | validateStreamableSession (id : Id) (requestedProtocolVersion : Option String)
  | currentSegmentId (id : Id)
  | rotateSession (id : Id) (options : RotateOptions)
  | closeStreamableSession (id : Id) (preserveRedis : Bool)
  | closeSessionsByKeyId (keyId : String)
  deriving DecidableEq

/-- A new request, or the answer a waiting one gets; with the time and the id that is
drawn if one is.  A record may also run out in Redis. -/
inductive Label (Id : Type*) where
  | call (call : Call Id) (now : Nat) (uuid : Id)
  | answer (index : Nat) (reply : Reply) (now : Nat) (uuid : Id)
  | lapse (id : Id)
  deriving DecidableEq

def begin (state : State Id) (call : Call Id) (now : Nat) (uuid : Id) : Turn Id :=
  match call with
  | .validateStreamableSession id requested =>
    validateStreamableSession config state id requested now
  | .currentSegmentId id => currentSegmentId config state id now
  | .rotateSession id options => rotateSession config state id options now uuid
  | .closeStreamableSession id preserveRedis =>
    closeStreamableSession config state id preserveRedis .closeStreamableSession
  | .closeSessionsByKeyId keyId => closeSessionsByKeyId config state keyId

def goOn (state : State Id) (waiting : Waiting Id) (reply : Reply) (now : Nat) (uuid : Id) :
    Turn Id :=
  match waiting with
  | .validateRead id requested =>
    validateFound config state id requested (getSessionFromRedis state id reply) now
  | .validateRestore id session saved =>
    checkExpiry config (saveSessionToRedis state id saved reply) id session now
  | .validateSave id saved => (saveSessionToRedis state id saved reply, [.valid id])
  | .segmentRead id =>
    match getSessionFromRedis state id reply with
    | none => (state, [.segment id none])
    | some record => segmentFound config (state.allocate record) id state.allocated now
  | .segmentSave id session saved =>
    (saveSessionToRedis state id saved reply, [.segment id (state.heap session).segmentSeq])
  | .rotateRead id options =>
    match getSessionFromRedis state id reply with
    | none => (state, [.notRotated id 404 "Session not found"])
    | some record => rotateFound config state id record options now uuid
  | .rotateSave rotation saved =>
    rotateSaved config (saveSessionToRedis state rotation.newSessionId saved reply) rotation reply
  | .rotateDelete rotation oldSession =>
    rotateDeleted (deleteSessionFromRedis state rotation.oldSessionId reply) rotation
      oldSession reply
  | .rotateUndo rotation =>
    (deleteSessionFromRedis state rotation.newSessionId reply,
      [.notRotated rotation.oldSessionId 503 "Session rotation persistence failed"])
  | .reflecting id preserveRedis next => close config state id preserveRedis next
  | .deleting id next => afterClose config (deleteSessionFromRedis state id reply) id next

def Event.Names (event : Event Id) (id : Id) : Prop :=
  match event with
  | .valid other => other = id
  | .invalid other _ => other = id
  | .segment other _ => other = id
  | .rotated rotation => rotation.oldSessionId = id \/ rotation.newSessionId = id
  | .notRotated other _ _ => other = id
  | .closed other => other = id
  | .closedByKeyId _ _ => False

instance (event : Event Id) (id : Id) : Decidable (event.Names id) := by
  cases event <;> simp only [Event.Names] <;> infer_instance

/-- An id no session has and no request was about: what `randomUUID` draws. -/
def State.Unused (state : State Id) (id : Id) : Prop :=
  state.memory.get id = none /\ state.redis id = none /\
    ∀ event ∈ state.log, Not (event.Names id)

instance (state : State Id) (id : Id) : Decidable (state.Unused id) :=
  inferInstanceAs (Decidable (_ /\ _ /\ _))

def record (state : State Id) (turn : Turn Id) : State Id :=
  { turn.1 with log := state.log ++ turn.2 }

def State.without (state : State Id) (index : Nat) : State Id :=
  { state with waiting := state.waiting.eraseIdx index }

def step (state : State Id) : Label Id -> Option (State Id)
  | .call call now uuid =>
    if state.Unused uuid then some (record state (begin config state call now uuid)) else none
  | .answer index reply now uuid =>
    match state.waiting[index]? with
    | none => none
    | some waiting =>
      if state.Unused uuid then
        some (record state (goOn config (state.without index) waiting reply now uuid))
      else none
  | .lapse id => some { state with redis := Function.update state.redis id none }

structure Started (state : State Id) : Prop where
  allocated : ∀ entry ∈ state.memory.entries, entry.2 < state.allocated
  waiting : state.waiting = []
  log : state.log = []

def sessions : System (State Id) (Label Id) where
  start := Started
  step before label after := step config before label = some after

end

end AnchorMind.Session.Streamable
