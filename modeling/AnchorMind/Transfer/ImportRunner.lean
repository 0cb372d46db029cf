import AnchorMind.Kernel.Transactions
import AnchorMind.Transfer.ExportFormat

/-!
# Writing one row of an import

The gate prepares a row or refuses it.  The insert runs in a savepoint of its own and is
tried once more when the same row was written in the meantime.  What the database refuses
because of the row's values is a result of the row, and any other error is thrown.
-/

namespace AnchorMind.Transfer

open Kernel.Transactions Text.Objects

/-- `importProfile`: a restore needs the owner path. -/
structure Profile where
  source : Option String
  agentId : String
  keyId : Option String
  owner : Bool
  restore : Bool
  restoreByOwner : restore = true -> owner = true

/-- A thrown error.  The database gives the state and the constraint. -/
structure Failure where
  code : Option String
  constraint : Option String
  message : String
  deriving DecidableEq

def UNIQUE_VIOLATION : String := "23505"

/-- `/^[0-9A-Z]{5}$/` on the state, and one of the classes 22 and 23. -/
def isRowLevelDbError (err : Failure) : Bool :=
  match err.code with
  | none => false
  | some code =>
    decide (code.toList.length = 5) &&
      code.toList.all (fun char => char.isDigit || char.isUpper) &&
      (decide (code.toList.take 2 = ['2', '2']) || decide (code.toList.take 2 = ['2', '3']))

def isIdempotencyViolation (err : Failure) : Bool :=
  decide ("idempotency".toList ∈ (err.constraint.getD "").toList.tails.map (List.take 11))

def databaseRejected (err : Failure) : String :=
  "database rejected the row (" ++ err.code.getD "undefined" ++ ")"

def ignoredFields (row : Object) (profile : Profile) : List IgnoredField :=
  let foreignKey :=
    match profile.keyId, asString (get row "key_id") with
    | some keyId, some text => decide (text ≠ keyId)
    | _, _ => true
  (if !isNullish (get row "key_id") && foreignKey then [.keyId] else []) ++
    (if isTrue (get row "is_anchor") && !profile.owner then [.isAnchor] else [])

/-- What `gate.check` throws: a write it does not accept, or another error. -/
inductive GateFailure where
  | input (message : String)
  | policy (message : String)
  | other (err : Failure)

inductive Prepared (Draft : Type*) where
  | ready (draft : Draft) (contentChanged : Bool)
  | rejected (reason : RejectReason) (detail : String)

structure Gate (Draft : Type*) where
  check : Object -> Except GateFailure Draft
  contentOf : Draft -> String

def checkImportRow {Draft : Type*} (gate : Gate Draft) (row : Object) :
    Except Failure (Prepared Draft) :=
  match gate.check row with
  | .ok draft =>
    .ok (.ready draft
      (decide (some (gate.contentOf draft) ≠ asString (get row "content"))))
  | .error (.input message) => .ok (.rejected .inputInvalid message)
  | .error (.policy message) => .ok (.rejected .policyViolation message)
  | .error (.other err) => .error err

structure InsertResult where
  id : String
  created : Bool
  importance : Option Number

structure Writer (Table Draft : Type*) where
  idOf : Draft -> String
  insertDetailed : Draft -> Bool -> Work Table Failure (Option InsertResult)
  findKeyOfId : Table -> String -> Except Failure (Option (Option String))

inductive RowOutcome where
  | imported (id : String) (importance : Option Number)
  | duplicate (id : String)
  | conflict
  | rejected (reason : RejectReason) (detail : String)

def RowOutcome.keep : RowOutcome -> Bool
  | .imported _ _ => true
  | .duplicate _ => true
  | .conflict => false
  | .rejected _ _ => false

section

variable {Table Draft : Type*} (writer : Writer Table Draft) (profile : Profile)
variable (idempotent : Bool) (draft : Draft)

def insertGuarded : Work Table Failure (Option InsertResult) :=
  savepoint (fun _ => true) (writer.insertDetailed draft profile.restore)

def insertWithRetry : Work Table Failure (Option InsertResult) := fun table =>
  match insertGuarded writer profile draft table with
  | (.ok result, changed) => (.ok result, changed)
  | (.error err, changed) =>
    if err.code ≠ some UNIQUE_VIOLATION ∨ isIdempotencyViolation err = true then
      (.error err, changed)
    else insertGuarded writer profile draft changed

def failedInsertOutcome (err : Failure) (table : Table) : Except Failure RowOutcome :=
  if err.code = some UNIQUE_VIOLATION then
    if isIdempotencyViolation err then
      .ok (.rejected .idempotencyConflict "idempotency_key is used by another fragment")
    else if idempotent then
      match writer.findKeyOfId table (writer.idOf draft) with
      | .error failure => .error failure
      | .ok owner =>
        if owner = some profile.keyId then .ok (.duplicate (writer.idOf draft))
        else .ok .conflict
    else .ok .conflict
  else if isRowLevelDbError err then .ok (.rejected .databaseRejected (databaseRejected err))
  else .error err

def poolUnavailable : Failure := ⟨none, none, "Database pool unavailable"⟩

def writeImportRow : Work Table Failure RowOutcome := fun table =>
  match insertWithRetry writer profile draft table with
  | (.error err, changed) =>
    (failedInsertOutcome writer profile idempotent draft err changed, changed)
  | (.ok none, changed) => (.error poolUnavailable, changed)
  | (.ok (some result), changed) =>
    (.ok (if result.created then .imported result.id result.importance
      else .duplicate result.id), changed)

variable {table changed : Table}

theorem insertGuarded_error {err : Failure}
    (herror : insertGuarded writer profile draft table = (.error err, changed)) :
    changed = table := by
  unfold insertGuarded savepoint at herror
  split at herror
  · cases herror
  · cases herror
    rfl

theorem insertWithRetry_error {err : Failure}
    (herror : insertWithRetry writer profile draft table = (.error err, changed)) :
    changed = table := by
  unfold insertWithRetry at herror
  split at herror
  · cases herror
  · rename_i first between hfirst
    have hbetween := insertGuarded_error writer profile draft hfirst
    split at herror
    · cases herror
      exact hbetween
    · rw [insertGuarded_error writer profile draft herror, hbetween]

theorem writeImportRow_tidy :
    Tidy RowOutcome.keep (writeImportRow writer profile idempotent draft) := by
  intro table outcome changed hwrite hkeep
  unfold writeImportRow at hwrite
  split at hwrite
  · rename_i err between hinsert
    rw [<- (Prod.mk.inj hwrite).2]
    exact insertWithRetry_error writer profile draft hinsert
  · cases hwrite
  · rename_i result between hinsert
    cases hwrite
    split at hkeep <;> cases hkeep

end

end AnchorMind.Transfer

/-!
# The run of an import

The records come one after the other.  The first one decides the format version.  A
fragment goes through the gate and is written in a transaction of its own; a link is
written between the stored fragments that this run knows; a version belongs to a fragment
that this run created.  A dry run writes within one transaction, each row in a savepoint,
and rolls back at the end.
-/

namespace AnchorMind.Transfer

open Kernel.Transactions Text.Objects

structure StoredLink where
  fromId : String
  toId : String
  relationType : Value
  createdAt : Value
  weight : Value
  confidence : Value
  decayRate : Value
  quarantineState : Value

structure VersionRow where
  fragmentId : String
  content : String
  topic : Value
  keywords : Value
  type : Value
  importance : Value
  amendedAt : Value
  amendedBy : Value
  agentId : Value
  workspace : Value
  resolutionStatus : Value
  outcome : Value
  phase : Value

structure Store (Table : Type*) where
  fragments : Table
  links : List StoredLink
  versions : List VersionRow

structure Database (Table : Type*) where
  now : Value
  refusesLink : Store Table -> StoredLink -> Option Failure
  refusesVersion : Store Table -> VersionRow -> Option Failure

variable {Table : Type*}

def onFragments {Result : Type*} (work : Work Table Failure Result) :
    Work (Store Table) Failure Result := fun store =>
  match work store.fragments with
  | (result, changed) => (result, { store with fragments := changed })

/-- The row that `restoreLink` inserts. -/
def linkRow (database : Database Table) (link : Object) (fromId toId : String) : StoredLink where
  fromId := fromId
  toId := toId
  relationType := orElse (get link "relation_type") (.string "related")
  createdAt := orElse (get link "created_at") database.now
  weight := orElse (get link "weight") (.number (.finite 1))
  confidence := orElse (get link "confidence") (.number (.finite 1))
  decayRate := orElse (get link "decay_rate") (.number (.finite (5 / 1000)))
  quarantineState := orElse (get link "quarantine_state") .null

/-- `ON CONFLICT (from_id, to_id) DO NOTHING`; the result is whether a row was inserted. -/
def restoreLink (database : Database Table) (link : Object) (fromId toId : String) :
    Work (Store Table) Failure Bool := fun store =>
  let row := linkRow database link fromId toId
  match database.refusesLink store row with
  | some failure => (.error failure, store)
  | none =>
    if store.links.any fun other => decide (other.fromId = fromId ∧ other.toId = toId) then
      (.ok false, store)
    else (.ok true, { store with links := store.links ++ [row] })

/-- `Array.isArray(d.keywords) ? d.keywords : null` -/
def arrayOrNull : Option Value -> Value
  | some (.array items) => .array items
  | _ => .null

/-- The row that `restoreVersion` inserts. -/
def versionRow (database : Database Table) (version : Object) (fragmentId content : String) :
    VersionRow where
  fragmentId := fragmentId
  content := content
  topic := orElse (get version "topic") .null
  keywords := arrayOrNull (get version "keywords")
  type := orElse (get version "type") .null
  importance := orElse (get version "importance") .null
  amendedAt := orElse (get version "amended_at") database.now
  amendedBy := orElse (get version "amended_by") .null
  agentId := orElse (get version "agent_id") .null
  workspace := orElse (get version "workspace") .null
  resolutionStatus := orElse (get version "resolution_status") .null
  outcome := orElse (get version "outcome") .null
  phase := orElse (get version "phase") .null

def restoreVersion (database : Database Table) (row : VersionRow) :
    Work (Store Table) Failure Unit := fun store =>
  match database.refusesVersion store row with
  | some failure => (.error failure, store)
  | none => (.ok (), { store with versions := store.versions ++ [row] })

structure Deps (Table Draft : Type*) where
  profile : Profile
  gate : Gate Draft
  writer : Writer Table Draft
  database : Database Table
  dryRun : Bool
  idempotent : Bool
  failFast : Bool
  maskSensitiveText : String -> String
  /-- `String(value)` -/
  describe : Value -> String
  onCreated : Option (List String -> Nat)

/-- The store as the run sees it; the session holds the store at the `BEGIN` of a dry run. -/
structure State (Table : Type*) where
  version : Option Nat
  idMap : List (String × String)
  created : List String
  seen : Entity -> Nat
  endSeen : Bool
  synthetic : Bool
  headerSeen : Bool
  store : Store Table
  session : Option (Store Table)

namespace State

def start (store : Store Table) : State Table where
  version := none
  idMap := []
  created := []
  seen := fun _ => 0
  endSeen := false
  synthetic := false
  headerSeen := false
  store := store
  session := none

def countSeen (state : State Table) (entity : Entity) : State Table :=
  { state with
    seen := fun other => if other = entity then state.seen other + 1 else state.seen other }

def storedId (state : State Table) (fileId : String) : Option String :=
  (state.idMap.lookup fileId).filter fun stored => decide (stored ≠ "")

def setId (state : State Table) (fileId : Option String) (stored : String) : State Table :=
  match fileId with
  | none => state
  | some fileId => { state with idMap := (fileId, stored) :: state.idMap }

def addCreated (state : State Table) (stored : String) : State Table :=
  { state with
    created := if stored ∈ state.created then state.created else state.created ++ [stored] }

end State

structure Handled (Table : Type*) where
  calls : List ReportCall
  state : State Table
  aborted : Option Failure

section

variable {Table Draft : Type*} (deps : Deps Table Draft) (rec : Record)

def inWrite {Result : Type*} (keep : Result -> Bool) (work : Work (Store Table) Failure Result)
    (state : State Table) : Except Failure Result × State Table :=
  if deps.dryRun then
    match savepoint keep work state.store with
    | (result, changed) =>
      (result, { state with store := changed, session := some (state.session.getD state.store) })
  else
    match transaction work state.store with
    | (result, changed) => (result, { state with store := changed })

def rejected (entity : Entity) (reason : RejectReason) (detail : String) (state : State Table) :
    Handled Table :=
  ⟨[.reject entity reason rec.lineNo detail], state, none⟩

def guarded {Result : Type*} (entity : Entity) (next : Result -> State Table -> Handled Table) :
    Except Failure Result × State Table -> Handled Table
  | (.ok result, state) => next result state
  | (.error err, state) =>
    if isRowLevelDbError err then
      rejected rec entity .databaseRejected (databaseRejected err) state
    else if deps.failFast then ⟨[], state, some err⟩
    else ⟨[.error entity rec.lineNo err.message], state, none⟩

def importanceDiffers : Number -> Number -> Bool
  | .finite left, .finite right => decide (1 / 1000000 < |left - right|)
  | .infinite left, .infinite right => decide (left ≠ right)
  | _, _ => true

def transformReasons (row : Object) (contentChanged : Bool) (importance : Option Number) :
    List TransformReason :=
  let capped :=
    match asNumber (get row "importance"), importance with
    | some requested, some stored => !deps.profile.restore && importanceDiffers stored requested
    | _, _ => false
  (if contentChanged then [.content] else []) ++ (if capped then [.importance] else [])

def recordFragmentOutcome (row : Object) (contentChanged : Bool) (outcome : RowOutcome)
    (state : State Table) : Handled Table :=
  match outcome with
  | .conflict =>
    rejected rec .fragments .idConflict "a different fragment with this id already exists" state
  | .rejected reason detail => rejected rec .fragments reason detail state
  | .imported id importance =>
    ⟨[.imported .fragments, .transform (transformReasons deps row contentChanged importance)],
      (state.setId (asString (get row "id")) id).addCreated id, none⟩
  | .duplicate id => ⟨[.duplicate .fragments], state.setId (asString (get row "id")) id, none⟩

def importFragmentRecord (row : Object) (start : State Table) : Handled Table :=
  let state := start.countSeen .fragments
  if hasFragmentFields row then
    let handled := guarded deps rec .fragments
      (fun prepared state =>
        match prepared with
        | .rejected reason detail => rejected rec .fragments reason detail state
        | .ready draft contentChanged =>
          guarded deps rec .fragments
            (fun outcome state => recordFragmentOutcome deps rec row contentChanged outcome state)
            (inWrite deps RowOutcome.keep
              (onFragments (writeImportRow deps.writer deps.profile deps.idempotent draft)) state))
      (checkImportRow deps.gate row, state)
    { handled with
      calls := (ignoredFields row deps.profile).map .ignoredField ++ handled.calls }
  else rejected rec .fragments .invalidRow "content and topic are required" state

def isNumeric : Value -> Bool
  | .number (.finite _) => true
  | .string text => decide (trim text ≠ "") && (numberOfText text).isSome
  | _ => false
where
  trim := Text.Whitespace.trim

/-- `describe` is `String(value)`. -/
def linkProblem (describe : Value -> String) (link : Object) : Option String :=
  match nonEmptyString (get link "from_id"), nonEmptyString (get link "to_id") with
  | some fromId, some toId =>
    if fromId = toId then some "a link cannot point to itself"
    else
      match get link "relation_type" with
      | some relation =>
        if LINK_RELATION_TYPES.any fun known => decide (asString (some relation) = some known) then
          numberProblem
        else some ("unknown relation_type: " ++ describe relation)
      | none => numberProblem
  | _, _ => some "from_id and to_id are required"
where
  numberProblem : Option String :=
    (["weight", "confidence", "decay_rate"].find? fun key =>
      match get link key with
      | none => false
      | some .null => false
      | some value => !isNumeric value).map fun key => key ++ " must be a number"

def importLinkRecord (link : Object) (start : State Table) : Handled Table :=
  let state := start.countSeen .links
  let fileFrom := (asString (get link "from_id")).getD ""
  let fileTo := (asString (get link "to_id")).getD ""
  match linkProblem deps.describe link with
  | some problem => rejected rec .links .linkInvalid problem state
  | none =>
    match state.storedId fileFrom, state.storedId fileTo with
    | some fromId, some toId =>
      if fromId = toId then
        rejected rec .links .linkInvalid "both endpoints resolve to the same stored fragment" state
      else
        guarded deps rec .links
          (fun created state =>
            ⟨[if created then .imported .links else .duplicate .links], state, none⟩)
          (inWrite deps (fun _ => true) (restoreLink deps.database link fromId toId) state)
    | _, _ => rejected rec .links .linkEndpointMissing (fileFrom ++ " > " ++ fileTo) state

def importVersionRecord (version : Object) (start : State Table) : Handled Table :=
  let state := start.countSeen .versions
  match asString (get version "fragment_id"), nonEmptyString (get version "content") with
  | some fileId, some content =>
    match state.storedId fileId with
    | none => rejected rec .versions .versionFragmentMissing fileId state
    | some fragmentId =>
      if fragmentId ∈ state.created then
        guarded deps rec .versions
          (fun _ state => ⟨[.imported .versions], state, none⟩)
          (inWrite deps (fun _ => true)
            (restoreVersion deps.database
              (versionRow deps.database version fragmentId (deps.maskSensitiveText content)))
            state)
      else ⟨[.duplicate .versions], state, none⟩
  | _, _ => rejected rec .versions .invalidRecord "fragment_id and content are required" state

def Kind.entity : Kind -> Option Entity
  | .fragment => some .fragments
  | .link => some .links
  | .version => some .versions
  | .header => none
  | .trailer => none

def Entity.name : Entity -> String
  | .fragments => "fragments"
  | .links => "links"
  | .versions => "versions"

def checkTrailer (trailer : Object) (state : State Table) : Handled Table :=
  let expected : Object :=
    match get trailer "counts" with
    | some (.object counts) => counts
    | _ => []
  let mismatch (entity : Entity) : Option ReportCall :=
    match asNumber (get expected entity.name) with
    | some number =>
      if number = .finite (state.seen entity) then none
      else some (.warn (.trailerMismatch entity number (state.seen entity)))
    | none => none
  ⟨[Entity.fragments, .links, .versions].filterMap mismatch, { state with endSeen := true }, none⟩

def dispatch (state : State Table) : Handled Table :=
  match rec.body with
  | .malformed reason detail => rejected rec .fragments reason detail state
  | .readable kind data =>
    if kind = .trailer ∧ 2 ≤ state.version.getD 0 then checkTrailer data state
    else if state.version = some 1 ∧ kind ≠ .fragment then
      match kind.entity with
      | some entity =>
        rejected rec entity .invalidRecord "this record kind requires format version 2" state
      | none => ⟨[.warn (.recordIgnored rec.lineNo kind.name)], state, none⟩
    else
      match kind with
      | .fragment => importFragmentRecord deps rec data state
      | .link => importLinkRecord deps rec data state
      | .version => importVersionRecord deps rec data state
      | .header => ⟨[], state, none⟩
      | .trailer => ⟨[], state, none⟩

end

/-- What ends a run before its last record, or with no report. -/
inductive Abort where
  | unsupportedVersion (err : UnsupportedFormatVersion)
  | restoreNeedsHeader
  | failed (err : Failure)
  | unrecognizedInput

structure Run (Table : Type*) where
  report : Report
  state : State Table

def Run.start {Table : Type*} (store : Store Table) : Run Table := ⟨.empty, .start store⟩

def Record.header (rec : Record) : Option Object :=
  match rec.body with
  | .readable .header data => some data
  | _ => none

section

variable {Table Draft : Type*} (deps : Deps Table Draft)

def resolveVersion (rec : Record) (run : Run Table) : Run Table × Except Abort Bool :=
  match run.state.version, rec.header with
  | some _, some _ =>
    ({ run with report := run.report.apply (.warn (.headerNotFirst rec.lineNo)) }, .ok true)
  | some _, none => (run, .ok false)
  | none, some header =>
    match readHeaderVersion header with
    | .error err => (run, .error (.unsupportedVersion err))
    | .ok version => decided version (isTrue (get header "synthetic")) true
  | none, none => decided 1 false false
where
  decided (version : Nat) (synthetic isHeader : Bool) : Run Table × Except Abort Bool :=
    let decided : Run Table :=
      { report := { run.report with formatVersion := some version }
        state :=
          { run.state with
            version := some version
            synthetic := synthetic
            headerSeen := isHeader && !synthetic } }
    if deps.profile.restore && (decide (version < 2) || synthetic) then
      (decided, .error .restoreNeedsHeader)
    else (decided, .ok isHeader)

def processRecord (rec : Record) (run : Run Table) : Run Table × Option Abort :=
  match resolveVersion deps rec { run with report := { run.report with lines := rec.lineNo } } with
  | (resolved, .error abort) => (resolved, some abort)
  | (resolved, .ok true) => (resolved, none)
  | (resolved, .ok false) =>
    let handled := dispatch deps rec resolved.state
    (⟨resolved.report.applyAll handled.calls, handled.state⟩, handled.aborted.map .failed)

def processAll : List Record -> Run Table -> Run Table × Option Abort
  | [], run => (run, none)
  | rec :: rest, run =>
    match processRecord deps rec run with
    | (next, none) => processAll rest next
    | (next, some abort) => (next, some abort)

def unrecognizedReasons : List RejectReason := [.invalidJson, .invalidRecord, .invalidRow]

def rejectReasons : List RejectReason :=
  [.invalidJson, .invalidRecord, .invalidRow, .inputInvalid, .policyViolation, .idConflict,
    .idempotencyConflict, .databaseRejected, .linkInvalid, .linkEndpointMissing,
    .versionFragmentMissing]

def isUnrecognizedInput (run : Run Table) : Bool :=
  if run.state.headerSeen || run.state.endSeen || decide (run.report.lines = 0) then false
  else
    let reasons := rejectReasons.filter fun reason =>
      decide (run.report.rejectedByReason reason ≠ 0)
    decide (reasons ≠ []) && reasons.all (fun reason => decide (reason ∈ unrecognizedReasons)) &&
      [Entity.fragments, .links, .versions].all fun entity =>
        let counts := run.report.entities entity
        decide (counts.imported + counts.duplicates + counts.errors = 0)

def QUEUE_CHUNK : Nat := 50

def queueEmbeddings (state : State Table) (report : Report) : Report :=
  match deps.onCreated with
  | none => report
  | some onCreated =>
    if deps.dryRun || decide (state.created = []) then report
    else
      { report with
        embeddingQueued := some (((state.created.toChunks QUEUE_CHUNK).map onCreated).sum) }

structure Finished (Table : Type*) where
  report : Report
  aborted : Option Abort
  store : Store Table

/-- Closing the session rolls back to the store at its `BEGIN`. -/
def State.closed {Table : Type*} (state : State Table) : Store Table :=
  state.session.getD state.store

def runImport (records : List Record) (store : Store Table) : Finished Table :=
  match processAll deps records (.start store) with
  | (run, some abort) => ⟨run.report, some abort, run.state.closed⟩
  | (run, none) =>
    let unfinished := decide (2 ≤ run.state.version.getD 0) && !run.state.synthetic &&
      !run.state.endSeen
    let ended : Run Table :=
      if unfinished then { run with report := run.report.apply (.warn .trailerMissing) } else run
    if isUnrecognizedInput ended then
      ⟨ended.report, some .unrecognizedInput, ended.state.closed⟩
    else ⟨queueEmbeddings deps ended.state ended.report, none, ended.state.closed⟩

end

end AnchorMind.Transfer
