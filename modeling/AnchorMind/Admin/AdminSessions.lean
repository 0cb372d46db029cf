import AnchorMind.Kernel.Transition
import Mathlib.Logic.Function.Basic

/-!
# The sessions of administrator accounts

A login starts a family of sessions; a rotation revokes a session and inserts the next one
of its family.  A revocation is one `UPDATE` over the rows that were there when it started,
and its effect is seen when it commits.  The store rotates in one transaction; a request
that changes its own account rotates its own session with two statements of their own.
-/

namespace AnchorMind.Admin.AdminSessions

open Kernel.Transition

inductive RevokeReason where
  | rotated
  | rotatedTokenReused
  | replacedByLogin
  | logout
  | userDisabled
  | passwordChanged
  | privilegeChanged
  | totpReset
  | adminRevoked
  | emergencyRecover
  deriving DecidableEq

/-- A row of `admin_sessions`; rows are numbered as they are inserted. -/
structure Session where
  familyId : Nat
  userId : Nat
  createdAt : Nat
  lastSeenAt : Nat
  absoluteExpiresAt : Nat
  /-- `revoke_reason`, set together with `revoked_at`. -/
  revoked : Option RevokeReason
  /-- The session whose rotation inserted this one. -/
  continues : Option Nat
  /-- The role changes by whose rotation of the caller's own session it came about. -/
  excepted : List Nat
  deriving DecidableEq

inductive SessionStatus where
  | active
  | revoked
  | expiredAbsolute
  | expiredIdle
  deriving DecidableEq

def sessionAbsoluteTtlMs : Nat := 12 * 60 * 60 * 1000

def sessionIdleTtlMs : Nat := 30 * 60 * 1000

def sessionStatus (session : Session) (now : Nat) : SessionStatus :=
  if session.revoked.isSome then .revoked
  else if session.absoluteExpiresAt ≤ now then .expiredAbsolute
  else if session.lastSeenAt + sessionIdleTtlMs ≤ now then .expiredIdle
  else .active

/-- `newSessionValues`: the family is named after its first session. -/
def newSession (id userId now : Nat) : Session where
  familyId := id
  userId := userId
  createdAt := now
  lastSeenAt := now
  absoluteExpiresAt := now + sessionAbsoluteTtlMs
  revoked := none
  continues := none
  excepted := []

/-- `rotatedSessionValues`: the same family and the same absolute end. -/
def rotatedSession (old familyId userId absoluteExpiresAt now : Nat) (excepted : List Nat) :
    Session where
  familyId := familyId
  userId := userId
  createdAt := now
  lastSeenAt := now
  absoluteExpiresAt := absoluteExpiresAt
  revoked := none
  continues := some old
  excepted := excepted

/-- The `WHERE` of a revocation. -/
inductive Scope where
  | family (familyId : Nat)
  | account (userId : Nat)
  | everyone
  deriving DecidableEq

def Scope.matches (scope : Scope) (session : Session) : Bool :=
  match scope with
  | .family familyId => session.familyId == familyId
  | .account userId => session.userId == userId
  | .everyone => true

/-- `updateUser`, with the new status and whether a password is given, and `setRoles`. -/
inductive AccountChange where
  | updateUser (status : Option Bool) (password : Bool)
  | setRoles
  deriving DecidableEq

def AccountChange.reason : AccountChange -> Option RevokeReason
  | .updateUser status password =>
    if status = some false then some .userDisabled
    else if password then some .passwordChanged
    else none
  | .setRoles => some .privilegeChanged

/-- Whether `rotateIfSelf` follows. -/
def AccountChange.rotatesOwn : AccountChange -> Bool
  | .updateUser _ password => password
  | .setRoles => true

def AccountChange.status : AccountChange -> Option Bool
  | .updateUser status _ => status
  | .setRoles => none

inductive JobState where
  | running
  | committed
  | aborted
  deriving DecidableEq

/-- A revocation whose `UPDATE` has started. -/
structure Job where
  scope : Scope
  reason : RevokeReason
  /-- The rows that were there when it started. -/
  visible : Nat
  /-- The families that had a row in its scope then. -/
  covered : List Nat
  /-- The change of an account it is part of. -/
  change : Option (Nat × AccountChange)
  /-- The request that waits for it. -/
  request : Option Nat
  state : JobState

def Job.revoke (job : Job) (place : Nat) (session : Session) : Session :=
  if place < job.visible ∧ job.scope.matches session = true ∧ session.revoked = none then
    { session with revoked := some job.reason }
  else session

structure Principal where
  sessionId : Nat
  familyId : Nat
  userId : Nat
  absoluteExpiresAt : Nat
  deriving DecidableEq

/-- Where a request has come to. -/
inductive Point where
  | resolved
  | changing
  /-- Before `revokeSession(principal.session.id, "rotated")`. -/
  | marking (job : Nat) (change : AccountChange)
  /-- Before `insertSession`. -/
  | inserting (job : Nat) (change : AccountChange)
  | closed
  deriving DecidableEq

structure Request where
  principal : Principal
  point : Point
  deriving DecidableEq

structure State where
  sessions : List Session
  /-- Whether the `status` of an account is active. -/
  active : Nat -> Bool
  requests : List Request
  jobs : List Job

inductive Label where
  | login (userId now : Nat)
  | resolve (session now : Nat)
  | touch (session now : Nat)
  | rotate (session now : Nat)
  | revoke (scope : Scope) (reason : RevokeReason)
  | change (request : Option Nat) (userId : Nat) (change : AccountChange)
  | commit (job : Nat)
  | abort (job : Nat)
  | mark (request : Nat)
  | insert (request now : Nat)

/-- The revocation that starts now. -/
def State.jobFor (state : State) (scope : Scope) (reason : RevokeReason)
    (change : Option (Nat × AccountChange)) (request : Option Nat) : Job where
  scope := scope
  reason := reason
  visible := state.sessions.length
  covered := (state.sessions.filter scope.matches).map Session.familyId
  change := change
  request := request
  state := .running

/-- An account change holds the advisory lock of the accounts from before its `UPDATE` to
its end. -/
def State.accountsLocked (state : State) : Bool :=
  state.jobs.any fun job => job.change.isSome && decide (job.state = .running)

def State.setPoint (state : State) (request : Nat) (point : Point) : State :=
  { state with requests := state.requests.modify request fun made => { made with point := point } }

def pointAfter (principal : Principal) (job userId : Nat) (change : AccountChange) : Point :=
  if change.rotatesOwn ∧ principal.userId = userId then .marking job change else .closed

def State.wake (state : State) (job : Nat) (made : Job) : State :=
  match made.request, made.change with
  | some request, some (userId, change) =>
    match state.requests[request]? with
    | some waiting => state.setPoint request (pointAfter waiting.principal job userId change)
    | none => state
  | _, _ => state

def State.applyStatus (state : State) (made : Job) : State :=
  match made.change with
  | some (userId, change) =>
    match change.status with
    | some status => { state with active := Function.update state.active userId status }
    | none => state
  | none => state

def State.finish (state : State) (job : Nat) (made : Job) : State :=
  { state with
    sessions := state.sessions.mapIdx made.revoke
    jobs := state.jobs.set job { made with state := .committed } }

def markRotated (session : Session) : Session :=
  if session.revoked = none then { session with revoked := some .rotated } else session

def State.excepted (state : State) (session : Nat) : List Nat :=
  (state.sessions[session]?.map Session.excepted).getD []

/-- The row `rotateOwnSession` inserts; the rotation of a role change is noted on it. -/
def State.ownRotation (state : State) (principal : Principal) (job : Nat) (change : AccountChange)
    (now : Nat) : Session :=
  rotatedSession principal.sessionId principal.familyId principal.userId
    principal.absoluteExpiresAt now
    ((if change = .setRoles then [job] else []) ++ state.excepted principal.sessionId)

def step (state : State) : Label -> Option State
  | .login userId now =>
    some { state with
      sessions := state.sessions ++ [newSession state.sessions.length userId now] }
  | .resolve session now =>
    match state.sessions[session]? with
    | none => none
    | some row =>
      if sessionStatus row now = .active ∧ state.active row.userId = true then
        some { state with
          requests := state.requests ++
            [{ principal :=
                 { sessionId := session, familyId := row.familyId, userId := row.userId
                   absoluteExpiresAt := row.absoluteExpiresAt }
               point := .resolved }] }
      else none
  | .touch session now =>
    some { state with
      sessions := state.sessions.modify session fun row =>
        if row.revoked = none then { row with lastSeenAt := now } else row }
  | .rotate session now =>
    match state.sessions[session]? with
    | none => none
    | some row =>
      if row.revoked = none then
        some { state with
          sessions := state.sessions.modify session markRotated ++
            [rotatedSession session row.familyId row.userId row.absoluteExpiresAt now
              row.excepted] }
      else none
  | .revoke scope reason =>
    some { state with jobs := state.jobs ++ [state.jobFor scope reason none none] }
  | .change request userId change =>
    if state.accountsLocked then none
    else
      match change.reason with
      | none =>
        match change.status with
        | some status => some { state with active := Function.update state.active userId status }
        | none => some state
      | some reason =>
        match request with
        | none =>
          some { state with
            jobs := state.jobs ++
              [state.jobFor (.account userId) reason (some (userId, change)) none] }
        | some caller =>
          match state.requests[caller]? with
          | some { principal := _, point := .resolved } =>
            some ({ state with
              jobs := state.jobs ++
                [state.jobFor (.account userId) reason (some (userId, change))
                  (some caller)] }.setPoint caller .changing)
          | _ => none
  | .commit job =>
    match state.jobs[job]? with
    | none => none
    | some made =>
      if made.state = .running then some (((state.finish job made).applyStatus made).wake job made)
      else none
  | .abort job =>
    match state.jobs[job]? with
    | none => none
    | some made =>
      if made.state = .running then
        some { state with jobs := state.jobs.set job { made with state := .aborted } }
      else none
  | .mark request =>
    match state.requests[request]? with
    | some { principal, point := .marking job change } =>
      some ({ state with
        sessions := state.sessions.modify principal.sessionId markRotated }.setPoint request
          (.inserting job change))
    | _ => none
  | .insert request now =>
    match state.requests[request]? with
    | some { principal, point := .inserting job change } =>
      some ({ state with
        sessions := state.sessions ++ [state.ownRotation principal job change now] }.setPoint
          request .closed)
    | _ => none

/-- Accounts, and no session yet. -/
structure Started (state : State) : Prop where
  sessions : state.sessions = []
  requests : state.requests = []
  jobs : state.jobs = []

def adminSessions : System State Label where
  start := Started
  step before label after := step before label = some after

/-- What is promised of the sessions: none that continues a revoked one is active, except by
the rotation of a role change, and none has two active successors. -/
structure Safe (state : State) : Prop where
  revoked : ∀ (k : Nat) (job : Job), state.jobs[k]? = some job -> job.state = .committed ->
    ∀ session ∈ state.sessions, session.familyId ∈ job.covered ->
      ∀ now, sessionStatus session now = .active -> k ∈ session.excepted
  single : ∀ (i j : Nat) (first second : Session) (old : Nat),
    state.sessions[i]? = some first -> state.sessions[j]? = some second ->
      first.continues = some old -> second.continues = some old ->
        ∀ now, sessionStatus first now = .active -> sessionStatus second now = .active -> i = j

def InsertGuarded (state : State) (waiting : Request) : Prop :=
  match waiting.point with
  | .inserting job change =>
    change = .setRoles /\
      (∀ entry ∈ state.jobs.zipIdx, entry.1.state = .committed ->
        waiting.principal.familyId ∈ entry.1.covered ->
          entry.2 = job \/ entry.2 ∈ state.excepted waiting.principal.sessionId) /\
      ∀ session ∈ state.sessions,
        session.continues = some waiting.principal.sessionId -> session.revoked.isSome = true
  | _ => True

instance (state : State) (waiting : Request) : Decidable (InsertGuarded state waiting) := by
  unfold InsertGuarded
  split <;> infer_instance

/-- A revocation commits only when it sees every standing session of the families it
covers. -/
def CommitGuarded (state : State) (made : Job) : Prop :=
  ∀ entry ∈ state.sessions.zipIdx, entry.1.revoked = none ->
    entry.1.familyId ∈ made.covered -> entry.2 < made.visible

instance (state : State) (made : Job) : Decidable (CommitGuarded state made) := by
  unfold CommitGuarded
  infer_instance

/-- The steps after which the promise stands. -/
def Guarded (state : State) : Label -> Prop
  | .insert request _ =>
    ∀ waiting, state.requests[request]? = some waiting -> InsertGuarded state waiting
  | .commit job => ∀ made, state.jobs[job]? = some made -> CommitGuarded state made
  | _ => True

instance (state : State) (label : Label) : Decidable (Guarded state label) := by
  cases label <;> simp only [Guarded] <;> infer_instance

end AnchorMind.Admin.AdminSessions
