import AnchorMind.Write.BatchAnswers

/-!
# The single write

`remember` writes one fragment: an idempotency key answers first, the anchor quota
is applied to the one fragment, a stored duplicate in the dedup scope answers
without a write, and only then a row is inserted.  An index error makes the writer
decide again and, at last, answer with the row that stood in the way.
-/

namespace AnchorMind.Write.FragmentWriter

open Kernel.UniqueIndex Text Write.Fragments Write.DedupScope Write.BatchInsert

variable {hash : ContentHash}

/-- `MAX_INITIAL_IMPORTANCE` -/
def maxInitialImportance (type : String) : Importance :=
  if type = "error" then ⟨3 / 5, by norm_num⟩
  else if type = "procedure" then ⟨3 / 5, by norm_num⟩
  else if type = "preference" then ⟨9 / 10, by norm_num⟩
  else ⟨7 / 10, by norm_num⟩

def shortContentImportance : Importance := ⟨1 / 5, by norm_num⟩

def sanitizeInsertImportance (content type : String) (requested : Importance)
    (isAnchor : Bool) : Importance :=
  if isAnchor then requested
  else if Utf16.utf16Length content < 20 then
    min (min requested (maxInitialImportance type)) shortContentImportance
  else min requested (maxInitialImportance type)

/-- `_prepareInsertRow`: the writer computes the hash of the content anew. -/
def prepareInsertRow (sha : Sha256) (keyId : Option String) (fragment : Fragment hash) : Row where
  id := fragment.id
  keyId := keyId
  workspace := normalizeWorkspace fragment.workspace
  content := fragment.content
  type := fragment.type
  contentHash := sha.computeContentHash.of fragment.content
  importance := sanitizeInsertImportance fragment.content fragment.type
    (fragment.importance.getD defaultImportance) fragment.isAnchor
  isAnchor := fragment.isAnchor
  idempotencyKey := fragment.idempotencyKey
  validTo := none

structure Written where
  id : String
  created : Bool
  table : List Row

/-- `_insertOnce` -/
def insertOnce (context : WriteContext) (table : List Row) (row : Row) :
    Except (Refusal IndexName) Written :=
  let found := findContentHashMatches table context.keyId [row.contentHash] none
  match pickDuplicate found row.workspace context.scope with
  | some existing => .ok ⟨existing.id, false, table⟩
  | none =>
    match context.upsert.statement table [row] with
    | .error refusal => .error refusal
    | .ok (rows, last) =>
      .ok ⟨(rows.head?.map Row.id).getD row.id, decide (context.upsert.Free table row), last⟩

/-- `resolveUniqueConflict`: the scope is that of the index that stood in the way. -/
def resolveUniqueConflict (context : WriteContext) (table : List Row) (row : Row)
    (refusal : Refusal IndexName) : Except (Refusal IndexName) Row :=
  match refusal with
  | .affectedTwice => .error refusal
  | .uniqueViolation name =>
    let scope := if name = .keyLegacy \/ name = .masterLegacy then Scope.key else Scope.workspace
    let found := findContentHashMatches table context.keyId [row.contentHash] none
    match pickDuplicate found row.workspace scope with
    | some existing => .ok existing
    | none => .error refusal

/-- `_runInsert` -/
def runInsert (context : WriteContext) (table : List Row) (row : Row) :
    Except (Refusal IndexName) Written :=
  match insertOnce context table row with
  | .ok written => .ok written
  | .error refusal =>
    if isDedupIndexError refusal then
      match insertOnce context table row with
      | .ok written => .ok written
      | .error again =>
        match resolveUniqueConflict context table row again with
        | .ok existing => .ok ⟨existing.id, false, table⟩
        | .error last => .error last
    else .error refusal

inductive RememberError where
  | policyViolation (message : String)
  | refused (refusal : Refusal IndexName)
deriving DecidableEq

/-- `applyToFragment`: an anchor designation at the limit is refused or withdrawn. -/
def applyAnchorQuota (context : WriteContext) (table : List Row) (fragment : Fragment hash) :
    Except RememberError (Fragment hash) :=
  if fragment.anchorQuota && fragment.isAnchor then
    if countLiveAnchors table context.keyId < context.anchorLimit then .ok fragment
    else if context.enforceAnchors then .error (.policyViolation anchorLimitError)
    else .ok { fragment with isAnchor := false }
  else .ok fragment

/-- `findByIdempotencyKey`: the live fragment of the key that carries it. -/
def findByIdempotencyKey (table : List Row) (keyId : Option String)
    (idempotencyKey : String) : Option Row :=
  table.find? fun row => decide (row.idempotencyKey = some idempotencyKey) &&
    decide (row.keyId = keyId) && row.validTo.isNone

/-- `_checkIdempotency`; an empty key is no key. -/
def checkIdempotency (context : WriteContext) (table : List Row) (fragment : Fragment hash) :
    Option Row :=
  match fragment.idempotencyKey with
  | none => none
  | some key => if key = "" then none else findByIdempotencyKey table context.keyId key

/-- `insertDetailed`: the anchor quota and the insert in one transaction. -/
def insertDetailed (sha : Sha256) (context : WriteContext) (table : List Row)
    (fragment : Fragment hash) : Except RememberError Written :=
  match applyAnchorQuota context table fragment with
  | .error failure => .error failure
  | .ok allowed =>
    match runInsert context table (prepareInsertRow sha context.keyId allowed) with
    | .error refusal => .error (.refused refusal)
    | .ok written => .ok written

/-- What `remember` writes for one fragment that passed the gate. -/
def remember (sha : Sha256) (context : WriteContext) (table : List Row)
    (fragment : Fragment hash) : Except RememberError Written :=
  match checkIdempotency context table fragment with
  | some existing => .ok ⟨existing.id, false, table⟩
  | none => insertDetailed sha context table fragment

/-- `remember` called on the fragments one at a time: the id each call reports, and
the table after the last one.  A call that fails reports nothing. -/
def rememberAll (sha : Sha256) (context : WriteContext) :
    List Row -> List (Fragment hash) -> List (Option String) × List Row
  | table, [] => ([], table)
  | table, fragment :: rest =>
    match remember sha context table fragment with
    | .error _ =>
      let last := rememberAll sha context table rest
      (none :: last.1, last.2)
    | .ok written =>
      let last := rememberAll sha context written.table rest
      (some written.id :: last.1, last.2)

end AnchorMind.Write.FragmentWriter
