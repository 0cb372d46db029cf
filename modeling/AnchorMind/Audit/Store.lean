import AnchorMind.Audit.Chain
import AnchorMind.Kernel.Transition

/-!
# The audit store

Appending and cleaning up run in transactions under a lock of the table, so each is one
step.  A verification takes no lock: it reads the smallest number, then what it starts
from, then the rows in chunks, each with a query of its own, and other steps fall in
between.
-/

namespace AnchorMind.Audit

open Text.JsonText
open Text.Numbers (wholeNumber)
open Kernel.Transition

def retentionAction : JsString := ofString "audit.retention.prune"

structure AuditRecord where
  occurredAt : Int
  action : JsString
  outcome : JsString
  actorKind : JsString
  actorKeyId : Option JsString
  actorSession : Option JsString
  actorIp : Option JsString
  targetType : Option JsString
  targetId : Option JsString
  workspace : Option JsString
  detail : Value

structure ProducedRecord extends AuditRecord where
  action_ne : action ≠ retentionAction

structure Checkpoint where
  boundarySeq : Nat
  boundaryHash : String
  deleted : Nat
  retentionDays : Nat

/-- The digits of a hash match none of the patterns of secrets, so it is kept as it is. -/
def retentionCheckpoint (checkpoint : Checkpoint) (occurredAt : Int) : AuditRecord where
  occurredAt := occurredAt
  action := retentionAction
  outcome := ofString "success"
  actorKind := ofString "system"
  actorKeyId := none
  actorSession := none
  actorIp := none
  targetType := some (ofString "audit_chain")
  targetId := some (seqText checkpoint.boundarySeq)
  workspace := none
  detail := .object
    [(ofString "boundarySeq", .number (wholeNumber checkpoint.boundarySeq)),
      (ofString "boundaryHash", .string (ofString checkpoint.boundaryHash)),
      (ofString "deleted", .number (wholeNumber checkpoint.deleted)),
      (ofString "retentionDays", .number (wholeNumber checkpoint.retentionDays))]

/-- The outbox topics whose events reach the chain. -/
inductive AuditTopic where
  | record
  | egress
  deriving DecidableEq

def AuditTopic.name : AuditTopic -> String
  | .record => "audit.record"
  | .egress => "audit.llm.egress"

inductive Entry where
  | event (topic : AuditTopic) (id : JsString) (record : ProducedRecord)
  | checkpoint (checkpoint : Checkpoint) (occurredAt : Int)

def Entry.record : Entry -> AuditRecord
  | .event _ _ record => record.toAuditRecord
  | .checkpoint kept occurredAt => retentionCheckpoint kept occurredAt

def Entry.sourceEvent : Entry -> JsString
  | .event topic id _ => ofString (topic.name ++ ":") ++ id
  | .checkpoint kept _ => ofString "audit.retention:" ++ seqText kept.boundarySeq

structure AuditRow where
  seq : Nat
  entry : Entry
  recordedAt : Int
  prevHash : String
  rowHash : String

def AuditRow.toAuditEvent (row : AuditRow) : ChainRow where
  seq := seqText row.seq
  sourceEvent := row.entry.sourceEvent
  occurredAt := some row.entry.record.occurredAt
  recordedAt := some row.recordedAt
  action := row.entry.record.action
  outcome := row.entry.record.outcome
  actorKind := row.entry.record.actorKind
  actorKeyId := row.entry.record.actorKeyId
  actorSession := row.entry.record.actorSession
  actorIp := row.entry.record.actorIp
  targetType := row.entry.record.targetType
  targetId := row.entry.record.targetId
  workspace := row.entry.record.workspace
  detail := some row.entry.record.detail
  prevHash := row.prevHash
  rowHash := row.rowHash

def nextRecordedAt (now : Int) (lastRecordedAt : Option Int) : Int :=
  match lastRecordedAt with
  | none => now
  | some last => max now last

def nextRow (rows : List AuditRow) (entry : Entry) (clock : Int) : AuditRow where
  seq := (rows.getLast?.map fun last => last.seq + 1).getD 1
  entry := entry
  recordedAt := nextRecordedAt clock (rows.getLast?.map AuditRow.recordedAt)
  prevHash := (rows.getLast?.map AuditRow.rowHash).getD genesisHash
  rowHash := ""

/-- `_appendLocked`; a source event that is there already adds no row. -/
def appendLocked (hash : String -> String) (rows : List AuditRow) (entry : Entry) (clock : Int) :
    Except String (List AuditRow) :=
  if rows.any fun row => decide (row.entry.sourceEvent = entry.sourceEvent) then .ok rows
  else
    let row := nextRow rows entry clock
    (computeRowHash hash row.prevHash row.toAuditEvent).map fun rowHash =>
      rows ++ [{ row with rowHash := rowHash }]

def boundaryRow (rows : List AuditRow) (cutoff : Int) (limit : Nat) : Option AuditRow :=
  ((rows.filter fun row => decide (row.recordedAt < cutoff) &&
    rows.any fun other => decide (row.seq < other.seq)).take limit).getLast?

def cleanup (hash : String -> String) (rows : List AuditRow) (cutoff : Int)
    (limit retentionDays : Nat) (clock occurredAt : Int) : Except String (List AuditRow) :=
  match boundaryRow rows cutoff limit with
  | none => .ok rows
  | some boundary =>
    let kept := rows.filter fun row => decide (boundary.seq < row.seq)
    let checkpoint : Checkpoint :=
      { boundarySeq := boundary.seq
        boundaryHash := boundary.rowHash
        deleted := rows.length - kept.length
        retentionDays := retentionDays }
    appendLocked hash kept (.checkpoint checkpoint occurredAt) clock

/-- A transaction that throws leaves the table as it was. -/
def committed (rows : List AuditRow) : Except String (List AuditRow) -> List AuditRow
  | .ok changed => changed
  | .error _ => rows

structure VerifyOptions where
  fromSeq : Option Nat
  maxRows : Nat
  chunk : Nat
  deriving DecidableEq

inductive Anchor where
  | previousRow
  | genesis
  | checkpoint
  deriving DecidableEq

structure VerifyReport where
  ok : Bool
  checked : Nat
  firstSeq : Option (Option Nat)
  lastSeq : Option (Option Nat)
  anchor : Option Anchor
  anchorHash : Option String
  headHash : Option String
  complete : Bool
  broken : Option (Option Nat × ChainBreak)
  deriving DecidableEq

/-- The rows are checked up to the number `after`. -/
structure Verification where
  options : VerifyOptions
  anchor : Anchor
  state : ChainState Nat
  after : Nat
  deriving DecidableEq

inductive VerifyPhase where
  | requested (options : VerifyOptions)
  | seekingPrevious (options : VerifyOptions) (fromSeq : Nat)
  | seekingCheckpoint (options : VerifyOptions) (minSeq : Nat)
  | reading (verification : Verification)
  | reported (report : VerifyReport)
  | failed (error : String)
  deriving DecidableEq

def emptyReport : VerifyReport where
  ok := true
  checked := 0
  firstSeq := none
  lastSeq := none
  anchor := none
  anchorHash := none
  headHash := none
  complete := true
  broken := none

namespace Verification

def report (verification : Verification) (complete : Bool) : VerifyReport :=
  let state := verification.state
  { ok := state.broken.isNone
    checked := state.checked
    firstSeq := state.firstSeq
    lastSeq := state.lastSeq
    anchor :=
      if state.firstSeq.isNone && state.broken.isNone then none else some verification.anchor
    anchorHash := state.anchorHash
    headHash := if 0 < state.checked ∧ state.broken = none then state.prevHash else none
    complete := complete && state.broken.isNone
    broken := state.broken }

/-- The test of the loop. -/
def proceed (verification : Verification) : VerifyPhase :=
  if verification.state.broken.isNone &&
      decide (verification.state.checked < verification.options.maxRows) then
    .reading verification
  else .reported (verification.report false)

def start (options : VerifyOptions) (anchor : Anchor) (prevHash : String) (seq : Nat) :
    VerifyPhase :=
  proceed
    { options := options
      anchor := anchor
      state := startChainVerification (some prevHash) (some (some seq))
      after := seq - 1 }

def startBroken (options : VerifyOptions) (anchor : Anchor) (seq : Nat) (reason : ChainBreak) :
    VerifyPhase :=
  proceed
    { options := options
      anchor := anchor
      state :=
        { startChainVerification none (some (some seq)) with broken := some (some seq, reason) }
      after := seq - 1 }

/-- One round of the loop. -/
def readChunk (hash : String -> String) (rows : List AuditRow) (verification : Verification) :
    VerifyPhase :=
  let limit := min verification.options.chunk
    (verification.options.maxRows - verification.state.checked)
  let found := (rows.filter fun row => decide (verification.after < row.seq)).take limit
  match verifyChainRows hash wholeNumbers verification.state (found.map AuditRow.toAuditEvent) with
  | .error error => .failed error
  | .ok state =>
    if found.length < limit then .reported ({ verification with state := state }.report true)
    else
      match found.getLast? with
      | some last => proceed { verification with state := state, after := last.seq }
      | none => .failed "Cannot read properties of undefined (reading 'seq')"

end Verification

def readMin (rows : List AuditRow) (options : VerifyOptions) : VerifyPhase :=
  match rows.head?, options.fromSeq with
  | none, _ => .reported emptyReport
  | some first, some fromSeq =>
    if first.seq < fromSeq then .seekingPrevious options fromSeq
    else if first.seq = 1 then Verification.start options .genesis genesisHash 1
    else .seekingCheckpoint options first.seq
  | some first, none =>
    if first.seq = 1 then Verification.start options .genesis genesisHash 1
    else .seekingCheckpoint options first.seq

/-- The read of the row before `fromSeq`. -/
def readPrevious (rows : List AuditRow) (options : VerifyOptions) (fromSeq : Nat) : VerifyPhase :=
  match rows.find? fun row => decide (row.seq = fromSeq - 1) with
  | some previous => Verification.start options .previousRow previous.rowHash fromSeq
  | none => Verification.startBroken options .previousRow fromSeq .seqGap

def AuditRow.checkpoint? (row : AuditRow) : Option Checkpoint :=
  match row.entry with
  | .event _ _ _ => none
  | .checkpoint checkpoint _ => some checkpoint

/-- `_checkpointHash` -/
def checkpointHash (rows : List AuditRow) (minSeq : Nat) : Option String :=
  let checkpoints := (rows.filterMap AuditRow.checkpoint?).filter fun checkpoint =>
    decide (checkpoint.boundarySeq = minSeq - 1)
  match checkpoints.getLast?, rows.find? fun row => decide (row.seq = minSeq) with
  | some checkpoint, some first =>
    if checkpoint.boundaryHash = first.prevHash then some checkpoint.boundaryHash else none
  | _, _ => none

def readCheckpoint (rows : List AuditRow) (options : VerifyOptions) (minSeq : Nat) :
    VerifyPhase :=
  match (checkpointHash rows minSeq).filter fun boundaryHash => decide (boundaryHash ≠ "") with
  | some boundaryHash => Verification.start options .checkpoint boundaryHash minSeq
  | none => Verification.startBroken options .checkpoint minSeq .prefixMismatch

def VerifyPhase.advance (hash : String -> String) (rows : List AuditRow) :
    VerifyPhase -> VerifyPhase
  | .requested options => readMin rows options
  | .seekingPrevious options fromSeq => readPrevious rows options fromSeq
  | .seekingCheckpoint options minSeq => readCheckpoint rows options minSeq
  | .reading verification => verification.readChunk hash rows
  | .reported report => .reported report
  | .failed error => .failed error

structure Database where
  rows : List AuditRow
  verifications : List VerifyPhase

inductive Event where
  | append (topic : AuditTopic) (id : JsString) (record : ProducedRecord) (clock : Int)
  | cleanup (cutoff : Int) (limit retentionDays : Nat) (clock occurredAt : Int)
  | verify (options : VerifyOptions)
  | advance (verification : Nat)

namespace Database

def initial : Database where
  rows := []
  verifications := []

def step (hash : String -> String) (database : Database) : Event -> Option Database
  | .append topic id record clock =>
    some { database with
      rows := committed database.rows
        (appendLocked hash database.rows (.event topic id record) clock) }
  | .cleanup cutoff limit retentionDays clock occurredAt =>
    some { database with
      rows := committed database.rows
        (Audit.cleanup hash database.rows cutoff limit retentionDays clock occurredAt) }
  | .verify options =>
    some { database with verifications := database.verifications ++ [.requested options] }
  | .advance verification =>
    database.verifications[verification]?.map fun phase =>
      { database with
        verifications :=
          database.verifications.set verification (phase.advance hash database.rows) }

end Database

def system (hash : String -> String) : System Database Event where
  start := fun database => database = .initial
  step := fun before event after => before.step hash event = some after

end AnchorMind.Audit
