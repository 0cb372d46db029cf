import AnchorMind.Kernel.Locks
import AnchorMind.Kernel.Transition
import AnchorMind.Kernel.UniqueIndex

/-!
# Review decisions

A pending fragment is approved or rejected by a call, or rejected by the batch expiry, while
other transactions close fragments or remove them.  Every transaction locks the rows it
changes and keeps its writes until it commits.  The lock of the key row is left out: it only
delays.
-/

namespace AnchorMind.Admin.ReviewDecisions

open Kernel.Locks Kernel.RowLocks Kernel.Transition Kernel

inductive ReviewState where
  | pending
  | approved
  | rejected
  deriving DecidableEq

inductive Decision where
  | approve
  | reject
  | autoReject
  deriving DecidableEq

structure Fragment where
  keyId : Option String
  reviewState : Option ReviewState
  reviewReason : Option String
  isAnchor : Bool
  validTo : Option Int
  createdAt : Int

/-- A row of `memory_review_decisions`. -/
structure DecisionRow where
  id : Nat
  fragmentId : String
  decision : Decision
  reviewer : String
  note : Option String
  idempotencyKey : Option String
  keyId : Option String
  reviewReason : Option String
  decidedAt : Int
  deriving DecidableEq

structure Anchor where
  applied : Bool
  reason : String

structure Answer where
  decisionId : Nat
  fragmentId : String
  decision : Decision
  reviewer : String
  keyId : Option String
  decidedAt : Int
  replayed : Bool
  anchor : Option Anchor

inductive ReviewError where
  | notFound
  | state (state : Option ReviewState)
  | idempotencyConflict
  | failed

def decisionResult (row : DecisionRow) (replayed : Bool) : Answer where
  decisionId := row.id
  fragmentId := row.fragmentId
  decision := row.decision
  reviewer := row.reviewer
  keyId := row.keyId
  decidedAt := row.decidedAt
  replayed := replayed
  anchor := none

def findReplay (decisions : List DecisionRow) (idempotencyKey : Option String)
    (fragmentId : String) (decision : Decision) : Except ReviewError (Option Answer) :=
  match idempotencyKey with
  | none => .ok none
  | some key =>
    match decisions.find? fun row => row.idempotencyKey == some key with
    | none => .ok none
    | some row =>
      if row.fragmentId ≠ fragmentId ∨ row.decision ≠ decision then
        .error .idempotencyConflict
      else .ok (some (decisionResult row true))

def anchorRequestMark : String := "anchor_requested"

def anchorUnauthorized : String := "anchor_unauthorized"

def storedOrder : List String :=
  ["instruction_override", "low_trust_directive", anchorUnauthorized, "mode_all",
    anchorRequestMark]

def parseReviewReason (stored : Option String) : List String :=
  match stored with
  | none => []
  | some text => (text.splitOn ",").filter fun part => storedOrder.contains part

/-- `check` is the judgement of the anchor at the time of the decision; its argument is
`explicit`. -/
def resolveHeldAnchor (current : Fragment) (applyAnchor : Option Bool) (check : Bool -> Anchor) :
    Anchor :=
  let marks := parseReviewReason current.reviewReason
  if ¬ marks.contains anchorRequestMark then ⟨false, "not_requested"⟩
  else if applyAnchor = some false then ⟨false, "declined"⟩
  else if marks.contains anchorUnauthorized then
    if applyAnchor ≠ some true then ⟨false, "explicit_required"⟩
    else if (check true).applied then ⟨true, "explicit"⟩
    else ⟨false, (check true).reason⟩
  else check false

structure Input where
  fragmentId : String
  decision : Decision
  reviewer : String
  note : Option String
  idempotencyKey : Option String
  applyAnchor : Option Bool

inductive Work where
  | decideReview (input : Input)
  | expireStaleReviews (days : Nat) (limit : Nat)
  /-- Any transaction that closes fragments or removes them. -/
  | closing

inductive Point where
  | begun
  | locked (found : Option Fragment)
  | checked (current : Fragment)
  | updated (current : Fragment) (anchor : Anchor)
  /-- Only the commit is left. -/
  | answered (answer : Answer)
  /-- The insert met a decision with the same key, and its transaction was rolled back. -/
  | violated
  | scanning (now : Int) (candidates : List String) (ids : List String)
  | rejected
  | ended

structure Call where
  work : Work
  point : Point
  writes : Writes String Fragment
  inserted : List DecisionRow

structure State where
  fragments : Table String Fragment
  decisions : List DecisionRow
  locks : LockTable String Nat
  nextId : Nat
  calls : List Call
  /-- What the calls of `decideReview` have returned, under their idempotency keys. -/
  results : List (Option String × Except ReviewError Answer)

inductive Label where
  | begin (work : Work)
  | lock (place : Nat)
  | replay (place : Nat)
  | update (place : Nat) (now : Int) (check : Bool -> Anchor)
  | insert (place : Nat) (now : Int)
  | lookup (place : Nat)
  /-- The ids are those of rows the statement selects, in its order. -/
  | scan (place : Nat) (now : Int) (candidates : List String)
  | lockNext (place : Nat)
  | reject (place : Nat)
  | close (place : Nat) (id : String) (now : Int)
  | remove (place : Nat) (id : String)
  | commit (place : Nat) (delivered : Bool)
  | fail (place : Nat)

def Fragment.awaiting (row : Fragment) : Bool :=
  row.reviewState == some .pending && row.validTo.isNone

def Fragment.reject (row : Fragment) (now : Int) : Fragment :=
  { row with reviewState := some .rejected, validTo := some now }

def Fragment.decided (row : Fragment) (decision : Decision) (anchor : Anchor) (now : Int) :
    Fragment :=
  match decision with
  | .approve =>
    { row with reviewState := some .approved, isAnchor := row.isAnchor || anchor.applied }
  | _ => row.reject now

def dayMs : Int := 86400000

def Fragment.stale (row : Fragment) (days : Nat) (now : Int) : Bool :=
  row.awaiting && decide (row.createdAt < now - days * dayMs)

def Input.row (input : Input) (id : Nat) (current : Fragment) (now : Int) : DecisionRow where
  id := id
  fragmentId := input.fragmentId
  decision := input.decision
  reviewer := input.reviewer
  note := input.note
  idempotencyKey := input.idempotencyKey
  keyId := current.keyId
  reviewReason := current.reviewReason
  decidedAt := now

def autoRejections (now : Int) : Nat -> List (String × Fragment) -> List DecisionRow
  | _, [] => []
  | id, (fragmentId, row) :: rest =>
    { id := id, fragmentId := fragmentId, decision := .autoReject, reviewer := "system",
      note := none, idempotencyKey := none, keyId := row.keyId,
      reviewReason := row.reviewReason, decidedAt := now } :: autoRejections now (id + 1) rest

def Work.answer (work : Work) (result : Except ReviewError Answer)
    (results : List (Option String × Except ReviewError Answer)) :
    List (Option String × Except ReviewError Answer) :=
  match work with
  | .decideReview input => (input.idempotencyKey, result) :: results
  | _ => results

def State.setCall (state : State) (place : Nat) (call : Call) : State :=
  { state with calls := state.calls.set place call }

def Call.finished (call : Call) (point : Point) : Call :=
  { call with point := point, writes := [], inserted := [] }

def State.rollback (state : State) (place : Nat) (call : Call) (point : Point) : State :=
  { state.setCall place (call.finished point) with locks := release state.locks place }

def State.commit (state : State) (place : Nat) (call : Call) : State :=
  { state.rollback place call .ended with
    fragments := overlay call.writes state.fragments
    decisions := state.decisions ++ call.inserted }

def State.refuse (state : State) (place : Nat) (call : Call) (error : ReviewError) : State :=
  { state.rollback place call .ended with
    results := call.work.answer (.error error) state.results }

def hasKey (key : Option String) (rows : List DecisionRow) : Bool :=
  key.isSome && rows.any fun row => row.idempotencyKey == key

/-- `REVIEW_DECISIONS.includes` -/
def Work.accepted : Work -> Bool
  | .decideReview input => input.decision != .autoReject
  | _ => true

def State.resolve (state : State) (place : Nat) (call : Call) (input : Input)
    (found : Option Fragment) : State :=
  match findReplay state.decisions input.idempotencyKey input.fragmentId input.decision with
  | .error error => state.refuse place call error
  | .ok (some answer) => state.setCall place { call with point := .answered answer }
  | .ok none =>
    match found with
    | none => state.refuse place call .notFound
    | some current =>
      if current.awaiting then state.setCall place { call with point := .checked current }
      else state.refuse place call (.state current.reviewState)

def State.insertDecision (state : State) (place : Nat) (call : Call) (input : Input)
    (current : Fragment) (anchor : Anchor) (now : Int) : Option State :=
  if hasKey input.idempotencyKey state.decisions then some (state.rollback place call .violated)
  else if state.calls.any fun other => hasKey input.idempotencyKey other.inserted then none
  else
    let row := input.row state.nextId current now
    let answer := { decisionResult row false with anchor := some anchor }
    some { state.setCall place
        { call with point := .answered answer, inserted := [row] } with
      nextId := state.nextId + 1 }

def State.finish (state : State) (place : Nat) (call : Call) (delivered : Bool) : Option State :=
  match call.work, call.point with
  | .decideReview _, .answered answer =>
    some { state.commit place call with
      results := call.work.answer (if delivered then .ok answer else .error .failed)
        state.results }
  | .expireStaleReviews _ _, .rejected => some (state.commit place call)
  | .closing, .begun => some (state.commit place call)
  | _, _ => none

def step (state : State) : Label -> Option State
  | .begin work =>
    if work.accepted then
      let call : Call := { work := work, point := .begun, writes := [], inserted := [] }
      some { state with calls := state.calls ++ [call] }
    else none
  | .lock place =>
    match state.calls[place]? with
    | some { work := .decideReview input, point := .begun, writes, inserted } =>
      let call : Call :=
        { work := .decideReview input, point := .locked (state.fragments input.fragmentId),
          writes := writes, inserted := inserted }
      match state.fragments input.fragmentId, state.locks input.fragmentId with
      | none, _ => some (state.setCall place call)
      | some _, none =>
        some { state.setCall place call with
          locks := acquire state.locks place input.fragmentId }
      | some _, some _ => none
    | _ => none
  | .replay place =>
    match state.calls[place]? with
    | some { work := .decideReview input, point := .locked found, writes, inserted } =>
      some (state.resolve place
        { work := .decideReview input, point := .locked found, writes := writes,
          inserted := inserted } input found)
    | _ => none
  | .update place now check =>
    match state.calls[place]? with
    | some { work := .decideReview input, point := .checked current, writes, inserted } =>
      let anchor :=
        if input.decision = .approve then resolveHeldAnchor current input.applyAnchor check
        else ⟨false, "not_requested"⟩
      some (state.setCall place
        { work := .decideReview input, point := .updated current anchor,
          writes :=
            (input.fragmentId, some (current.decided input.decision anchor now)) :: writes,
          inserted := inserted })
    | _ => none
  | .insert place now =>
    match state.calls[place]? with
    | some { work := .decideReview input, point := .updated current anchor, writes, inserted } =>
      state.insertDecision place
        { work := .decideReview input, point := .updated current anchor, writes := writes,
          inserted := inserted } input current anchor now
    | _ => none
  | .lookup place =>
    match state.calls[place]? with
    | some { work := .decideReview input, point := .violated, writes, inserted } =>
      let call : Call :=
        { work := .decideReview input, point := .violated, writes := writes,
          inserted := inserted }
      match findReplay state.decisions input.idempotencyKey input.fragmentId
          input.decision with
      | .error error => some (state.refuse place call error)
      | .ok none => some (state.refuse place call .failed)
      | .ok (some answer) =>
        some { state.rollback place call .ended with
          results := call.work.answer (.ok answer) state.results }
    | _ => none
  | .scan place now candidates =>
    match state.calls[place]? with
    | some { work := .expireStaleReviews days limit, point := .begun, writes, inserted } =>
      if candidates.all fun id =>
          (state.fragments id).any fun row => row.stale days now then
        some (state.setCall place
          { work := .expireStaleReviews days limit, point := .scanning now candidates [],
            writes := writes, inserted := inserted })
      else none
    | _ => none
  | .lockNext place =>
    match state.calls[place]? with
    | some { work := .expireStaleReviews days limit, point := .scanning now (id :: rest) ids,
             writes, inserted } =>
        if limit ≤ ids.length then none
        else
          let call : List String -> Call := fun ids =>
            { work := .expireStaleReviews days limit, point := .scanning now rest ids,
              writes := writes, inserted := inserted }
          -- a locked row is skipped, and a free one is looked at again under its lock
          if state.locks id = none ∧
              (state.fragments id).any (fun row => row.stale days now) = true then
            some { state.setCall place (call (ids ++ [id])) with
              locks := acquire state.locks place id }
          else some (state.setCall place (call ids))
    | _ => none
  | .reject place =>
    match state.calls[place]? with
    | some { work := .expireStaleReviews days limit, point := .scanning now candidates ids,
             writes, inserted } =>
        if candidates ≠ [] ∧ ids.length < limit then none
        else
          let returned := ids.filterMap fun id =>
            (state.fragments id).map fun row => (id, row)
          some { state.setCall place
              { work := .expireStaleReviews days limit, point := .rejected,
                writes :=
                  (returned.map fun entry => (entry.1, some (entry.2.reject now))) ++ writes,
                inserted := autoRejections now state.nextId returned ++ inserted } with
            nextId := state.nextId + returned.length }
    | _ => none
  | .close place id now =>
    match state.calls[place]? with
    | some { work := .closing, point := .begun, writes, inserted } =>
      match overlay writes state.fragments id with
      | none => none
      | some row =>
        if state.locks id = none ∨ state.locks id = some place then
          some { state.setCall place
              { work := .closing, point := .begun,
                writes := (id, some { row with validTo := some now }) :: writes,
                inserted := inserted } with
            locks := acquire state.locks place id }
        else none
    | _ => none
  | .remove place id =>
    match state.calls[place]? with
    | some { work := .closing, point := .begun, writes, inserted } =>
      if state.locks id = none ∨ state.locks id = some place then
        some { state.setCall place
            { work := .closing, point := .begun, writes := (id, none) :: writes,
              inserted := inserted } with
          locks := acquire state.locks place id }
      else none
    | _ => none
  | .commit place delivered =>
    match state.calls[place]? with
    | some call => state.finish place call delivered
    | none => none
  | .fail place =>
    match state.calls[place]? with
    | some call =>
      match call.point with
      | .ended => none
      | _ => some (state.refuse place call .failed)
    | none => none

structure Started (state : State) : Prop where
  keys : UniqueIndex.Unique DecisionRow.idempotencyKey state.decisions
  locks : ∀ id, state.locks id = none
  calls : state.calls = []
  results : state.results = []

def reviews : System State Label where
  start := Started
  step before label after := step before label = some after

end AnchorMind.Admin.ReviewDecisions
