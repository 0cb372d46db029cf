import AnchorMind.Consolidate.TierTransitions
import AnchorMind.Recall.SemanticModes
import AnchorMind.Write.FragmentWriter

/-!
# The consistency check of a remembered fragment

After a write `checkAssertionConsistency` reads the newest live fragments of the topic.
A fragment that resembles a verified or a rejected one is marked as inferred.
-/

namespace AnchorMind.Write.AssertionCheck

open Consolidate.TierTransitions (Tier days)
open Kernel.FirstOf (firsts)
open Kernel.RoundedSum (sortByKey)
open Kernel.TopRows
open Recall.SemanticModes (timeKey)
open Text Write.Fragments

variable {hash : ContentHash}

/-- `assertion_status` -/
inductive AssertionStatus where
  | observed
  | inferred
  | verified
  | rejected
deriving DecidableEq

/-- The columns of a fragment that the steps behind an insert read and write. -/
structure Columns where
  topic : String
  createdAt : Option Int
  ttlTier : Option Tier
  assertionStatus : Option AssertionStatus
deriving DecidableEq

structure Store where
  rows : List Row
  columns : String -> Columns

/-- A fragment that passed the write gate, with the columns an insert only copies. -/
structure Draft (hash : ContentHash) extends Fragment hash where
  topic : String
  ttlTier : Option Tier
  assertionStatus : Option AssertionStatus

/-- `keyScopeScalar`: the master sees every row. -/
def keyScopeScalar (keyId : Option String) (row : Row) : Bool :=
  keyId.isNone || decide (row.keyId = keyId)

/-- `new Set(text.toLowerCase().split(/\s+/).filter(Boolean))` -/
def tokenize (lower : String -> String) (text : String) : List String :=
  firsts id ((((lower text).toList.splitOnP Whitespace.isTrimmed).filter fun token =>
    !token.isEmpty).map String.ofList)

def jaccardSimilarity (lower : String -> String) (textA textB : String) : Rat :=
  let setA := tokenize lower textA
  let setB := tokenize lower textB
  if setA = [] /\ setB = [] then 1
  else if setA = [] \/ setB = [] then 0
  else
    let intersectionSize := setA.countP fun token => decide (token ∈ setB)
    (intersectionSize : Rat) / ((setA.length + setB.length - intersectionSize : Nat) : Rat)

def jaccardThreshold : Rat := 3 / 10

/-- What the database answers to a query for the ten newest rows: it leaves open which of
the rows of one time come first. -/
structure Newest where
  first : (Row -> WithBot (OrderDual Int)) -> List Row -> List Row
  top : ∀ key rows, Top key 10 rows (first key rows)

/-- The answer that leaves rows of one time in the order of the table. -/
def Newest.stable : Newest where
  first key rows := (sortByKey key rows).take 10
  top key rows := top_sortByKey key 10 rows

/-- `created_at BETWEEN NOW() - INTERVAL '7 days' AND NOW() + INTERVAL '7 days'`, which is
not true of NULL. -/
def withinWeek (now : Nat) (createdAt : Option Int) : Bool :=
  match createdAt with
  | some time => decide ((now : Int) - days 7 ≤ time /\ time ≤ now + days 7)
  | none => false

/-- The conditions of the query. -/
def ofTopic (keyId : Option String) (now : Nat) (store : Store) (draft : Draft hash) (id : String)
    (row : Row) : Bool :=
  decide ((store.columns row.id).topic = draft.topic) &&
    withinWeek now (store.columns row.id).createdAt && decide (row.id ≠ id) &&
    keyScopeScalar keyId row && row.validTo.isNone

def contradicts (lower : String -> String) (store : Store) (draft : Draft hash) (row : Row) :
    Bool :=
  decide (jaccardThreshold < jaccardSimilarity lower draft.content row.content) &&
    (decide ((store.columns row.id).assertionStatus = some .rejected) ||
      decide ((store.columns row.id).assertionStatus = some .verified))

/-- Without a pool and after a failed query there is no answer, and the fragment counts as
observed. -/
def checkAssertionConsistency (lower : String -> String) (newest : Option Newest)
    (keyId : Option String) (now : Nat) (store : Store) (draft : Draft hash) (id : String) :
    AssertionStatus :=
  match newest with
  | none => .observed
  | some newest =>
    if draft.topic = "" \/ draft.content = "" then .observed
    else
      let rows := newest.first (fun row => timeKey (store.columns row.id).createdAt)
        (store.rows.filter (ofTopic keyId now store draft id))
      if rows.any (contradicts lower store draft) then .inferred else .observed

/-- A live fragment of the topic, within reach of the key and not the fragment itself, that
was verified or rejected and resembles the draft. -/
structure Neighbour (lower : String -> String) (keyId : Option String) (store : Store)
    (draft : Draft hash) (id : String) (row : Row) : Prop where
  mem : row ∈ store.rows
  other : row.id ≠ id
  live : row.validTo = none
  scope : keyScopeScalar keyId row = true
  topic : (store.columns row.id).topic = draft.topic
  judged : (store.columns row.id).assertionStatus = some .rejected \/
    (store.columns row.id).assertionStatus = some .verified
  similar : jaccardThreshold < jaccardSimilarity lower draft.content row.content

variable {lower : String -> String} {newest : Option Newest} {keyId : Option String} {now : Nat}
variable {store : Store} {draft : Draft hash} {id : String}

theorem neighbour_of_contradicts {row : Row} (hmem : row ∈ store.rows)
    (htopic : ofTopic keyId now store draft id row = true)
    (hcontradicts : contradicts lower store draft row = true) :
    Neighbour lower keyId store draft id row := by
  simp only [ofTopic, Bool.and_eq_true, decide_eq_true_eq, Option.isNone_iff_eq_none] at htopic
  simp only [contradicts, Bool.and_eq_true, Bool.or_eq_true, decide_eq_true_eq] at hcontradicts
  obtain ⟨⟨⟨⟨htopic, -⟩, hother⟩, hscope⟩, hlive⟩ := htopic
  exact ⟨hmem, hother, hlive, hscope, htopic, hcontradicts.2, hcontradicts.1⟩

theorem checkAssertionConsistency_cases :
    checkAssertionConsistency lower newest keyId now store draft id = .observed \/
      (checkAssertionConsistency lower newest keyId now store draft id = .inferred /\
        ∃ row, Neighbour lower keyId store draft id row) := by
  unfold checkAssertionConsistency
  cases newest with
  | none => exact .inl rfl
  | some newest =>
    dsimp only
    split
    · exact .inl rfl
    · split
      · rename_i hany
        obtain ⟨row, hrow, hcontradicts⟩ := List.any_eq_true.mp hany
        obtain ⟨hmem, htopic⟩ := List.mem_filter.mp ((newest.top _ _).subset hrow)
        exact Or.inr ⟨rfl, row, neighbour_of_contradicts hmem htopic hcontradicts⟩
      · exact .inl rfl

end AnchorMind.Write.AssertionCheck

/-!
# What follows the insert of a remembered fragment

`remember` inserts the fragment and finishes it: the consistency check, the fragments it
supersedes, and the tier of a fragment of low importance.  Where the insert answers with a
stored fragment, the duplicate guard decides whether the finishing steps run on that one.
-/

namespace AnchorMind.Write.RememberFlow

open Consolidate.TierTransitions (Tier)
open Kernel.UniqueIndex Write.Fragments Write.DedupScope Write.BatchInsert Write.FragmentWriter
  AssertionCheck

variable {hash : ContentHash}

/-- The arguments that the finishing steps read. -/
structure Params where
  ttlTier : Option String
  supersedes : List String

/-- What a call meets.  The first lookup may read rows that are out of date when its
statement runs, the check runs on its own between two supersede statements, and each of the
other statements may fail to reach its row. -/
structure World where
  context : WriteContext
  now : Nat
  lower : String -> String
  duplicateGuard : Bool
  seen : List Row
  quotaLeft : Bool
  stateRead : Bool
  newest : Option Newest
  closedBefore : Nat
  supersedes : String -> Bool
  patchesAssertion : Bool
  updatesTier : Bool

/-- `_insertOnce` with a lookup that read other rows than the statement meets. -/
def insertOnceSeeing (context : WriteContext) (seen table : List Row) (row : Row) :
    Except (Refusal IndexName) Written :=
  let found := findContentHashMatches seen context.keyId [row.contentHash] none
  match pickDuplicate found row.workspace context.scope with
  | some existing => .ok ⟨existing.id, false, table⟩
  | none =>
    match context.upsert.statement table [row] with
    | .error refusal => .error refusal
    | .ok (rows, last) =>
      .ok ⟨(rows.head?.map Row.id).getD row.id, decide (context.upsert.Free table row), last⟩

/-- `_runInsert`: after an index error the lookup is made anew. -/
def runInsertSeeing (context : WriteContext) (seen table : List Row) (row : Row) :
    Except (Refusal IndexName) Written :=
  match insertOnceSeeing context seen table row with
  | .ok written => .ok written
  | .error refusal =>
    if isDedupIndexError refusal then runInsert context table row else .error refusal

/-- `insertDetailed` -/
def insertDetailedSeeing (sha : Sha256) (context : WriteContext) (seen table : List Row)
    (fragment : Fragment hash) : Except RememberError Written :=
  match applyAnchorQuota context table fragment with
  | .error failure => .error failure
  | .ok allowed =>
    match runInsertSeeing context seen table (prepareInsertRow sha context.keyId allowed) with
    | .error refusal => .error (.refused refusal)
    | .ok written => .ok written

def newColumns (now : Nat) (draft : Draft hash) : Columns where
  topic := draft.topic
  createdAt := some now
  ttlTier := some (draft.ttlTier.getD .warm)
  assertionStatus := some (draft.assertionStatus.getD .observed)

def inserted (now : Nat) (store : Store) (draft : Draft hash) (written : Written) : Store where
  rows := written.table
  columns :=
    if written.created then Function.update store.columns draft.id (newColumns now draft)
    else store.columns

inductive DuplicateKind where
  | sameScope
  | otherWorkspace
  | closed
  | unknown
deriving DecidableEq

/-- `isDuplicateHit`: both ids are texts here. -/
def isDuplicateHit (draft : Draft hash) (id : String) : Bool := decide (id ≠ draft.id)

def classifyDuplicate (draft : Draft hash) (existing : Option Row) : DuplicateKind :=
  match existing with
  | none => .unknown
  | some existing =>
    if existing.validTo.isSome then .closed
    else if existing.workspace.isSome && decide (workspaceKey existing.workspace ≠
        workspaceKey draft.workspace) then .otherWorkspace
    else .sameScope

def duplicateOfField (kind : DuplicateKind) (id : String) : Option String :=
  if kind = .sameScope then some id else none

/-- `getDuplicateState`: the row by its id within the key. -/
def getDuplicateState (store : Store) (id : String) (keyId : Option String) : Option Row :=
  store.rows.find? fun row => decide (row.id = id) && decide (row.keyId = keyId)

/-- What a call answers, but for the keywords, the conflicts and the validation warnings. -/
inductive Answer where
  | idempotent (id : String) (ttlTier : Option Tier)
  | existing (id : String) (ttlTier : Option Tier) (duplicate : DuplicateKind)
      (duplicateOf : Option String)
  | stored (id : String) (ttlTier : Option Tier) (duplicateOf : Option String)
      (lowImportanceWarning : Bool)
  | quotaExceeded
  | failed (error : RememberError)

def Answer.id : Answer -> Option String
  | .idempotent id _ => some id
  | .existing id _ _ _ => some id
  | .stored id _ _ _ => some id
  | .quotaExceeded => none
  | .failed _ => none

structure Remembered where
  store : Store
  answer : Answer
  found : Option AssertionStatus

def Store.owns (store : Store) (id : String) (keyId : Option String) : Bool :=
  store.rows.any fun row => decide (row.id = id) && keyScopeScalar keyId row

/-- `updateInternal`: the columns of the row with the id, within the key. -/
def updateInternal (store : Store) (id : String) (keyId : Option String)
    (write : Columns -> Columns) : Store :=
  if Store.owns store id keyId then
    { store with columns := Function.update store.columns id (write (store.columns id)) }
  else store

def patchAssertion (store : Store) (id : String) (status : AssertionStatus)
    (keyId : Option String) : Store :=
  updateInternal store id keyId fun columns => { columns with assertionStatus := some status }

def updateTtlTier (store : Store) (id : String) (tier : Tier) (keyId : Option String) : Store :=
  updateInternal store id keyId fun columns => { columns with ttlTier := some tier }

/-- `GREATEST(0.05, importance * 0.5)` -/
def halvedImportance (importance : Importance) : Importance :=
  ⟨max (1 / 20) (importance.1 * (1 / 2)),
    le_max_of_le_left (by norm_num), max_le (by norm_num) (by linarith [importance.2.2])⟩

def supersedeRow (now : Nat) (keyId : Option String) (oldId : String) (row : Row) : Row :=
  if row.id = oldId /\ row.validTo = none /\ keyScopeScalar keyId row then
    { row with validTo := some now, importance := halvedImportance row.importance }
  else row

/-- The statement of `supersede`. -/
def supersede (world : World) (store : Store) (oldId : String) : Store :=
  if world.supersedes oldId then
    { store with
      rows := store.rows.map (supersedeRow world.now world.context.keyId oldId) }
  else store

/-- The fragments a call supersedes, the fragment itself left out. -/
def superseded (params : Params) (id : String) : List String :=
  params.supersedes.filter fun oldId => oldId ≠ id

/-- The consistency check behind the post-processing, which writes all but `observed`. -/
def applyAssertionCheck (world : World) (store : Store) (id : String) (found : AssertionStatus) :
    Store :=
  if found ≠ .observed /\ world.patchesAssertion then
    patchAssertion store id found world.context.keyId
  else store

/-- `effectiveImportance < 0.3` -/
def isLowImportance (draft : Draft hash) : Bool :=
  decide ((draft.importance.getD defaultImportance).1 < 3 / 10)

def shortensTier (params : Params) (draft : Draft hash) : Bool :=
  isLowImportance draft && decide (params.ttlTier.getD "" = "")

def applyLowImportance (world : World) (params : Params) (draft : Draft hash) (store : Store)
    (id : String) : Store :=
  if shortensTier params draft && world.updatesTier then
    updateTtlTier store id .short world.context.keyId
  else store

/-- `_finalizeRemember`: the steps write by the id the insert answered with. -/
def finalizeRemember (world : World) (params : Params) (draft : Draft hash) (store : Store)
    (id : String) (hit : Option DuplicateKind) : Remembered :=
  let oldIds := superseded params id
  let checked := (oldIds.take world.closedBefore).foldl (supersede world) store
  let found := checkAssertionConsistency world.lower world.newest world.context.keyId world.now
    checked draft id
  let patched := applyAssertionCheck world checked id found
  let closed := (oldIds.drop world.closedBefore).foldl (supersede world) patched
  {
    store := applyLowImportance world params draft closed id
    answer := .stored id (if shortensTier params draft then some .short else draft.ttlTier)
      (hit.bind fun kind => duplicateOfField kind id) (isLowImportance draft)
    found := some found }

section Frames

variable {world : World} {store : Store} {id : String} {keyId : Option String}
  {write : Columns -> Columns}

@[simp] theorem updateInternal_rows : (updateInternal store id keyId write).rows = store.rows := by
  unfold updateInternal
  split <;> rfl

theorem updateInternal_columns :
    (updateInternal store id keyId write).columns id =
      if Store.owns store id keyId then write (store.columns id) else store.columns id := by
  unfold updateInternal
  split
  · exact Function.update_self ..
  · rfl

theorem supersedeRow_of_ne {now : Nat} {oldId : String} {row : Row} (hne : row.id ≠ oldId) :
    supersedeRow now keyId oldId row = row :=
  if_neg fun hrow => hne hrow.1

theorem owns_supersedeRow (now : Nat) (oldId : String) (row : Row) :
    (decide ((supersedeRow now keyId oldId row).id = id) &&
        keyScopeScalar keyId (supersedeRow now keyId oldId row)) =
      (decide (row.id = id) && keyScopeScalar keyId row) := by
  unfold supersedeRow
  split <;> rfl

theorem mem_of_live {oldId : String} {row : Row} (hrow : row ∈ (supersede world store oldId).rows)
    (hlive : row.validTo = none) : row ∈ store.rows := by
  unfold supersede at hrow
  split at hrow
  · obtain ⟨before, hbefore, rfl⟩ := List.mem_map.mp hrow
    unfold supersedeRow at hlive
    split at hlive
    · cases hlive
    · rename_i hmiss
      rw [supersedeRow, if_neg hmiss]
      exact hbefore
  · exact hrow

structure Spares (keyId : Option String) (oldIds : List String) (before after : Store) : Prop where
  columns : after.columns = before.columns
  owns : ∀ id, Store.owns after id keyId = Store.owns before id keyId
  others : ∀ row ∈ before.rows, row.id ∉ oldIds -> row ∈ after.rows
  live : ∀ row ∈ after.rows, row.validTo = none -> row ∈ before.rows

theorem supersede_spares (world : World) (store : Store) (oldId : String) :
    Spares world.context.keyId [oldId] store (supersede world store oldId) := by
  refine ⟨?_, fun id => ?_, fun row hrow hne => ?_, fun row => mem_of_live⟩
  · unfold supersede
    split <;> rfl
  · unfold supersede
    split
    · simp only [Store.owns, List.any_map, Function.comp_def, owns_supersedeRow]
    · rfl
  · unfold supersede
    split
    · have hother : row.id ≠ oldId := fun heq => hne (List.mem_singleton.mpr heq)
      exact List.mem_map.mpr ⟨row, hrow, supersedeRow_of_ne hother⟩
    · exact hrow

theorem foldl_supersede_spares (world : World) (store : Store) (oldIds : List String) :
    Spares world.context.keyId oldIds store (oldIds.foldl (supersede world) store) := by
  induction oldIds generalizing store with
  | nil => exact ⟨rfl, fun _ => rfl, fun _ hrow _ => hrow, fun _ hrow _ => hrow⟩
  | cons oldId rest ih =>
    have hfirst := supersede_spares world store oldId
    have hrest := ih (supersede world store oldId)
    refine ⟨?_, fun id => ?_, fun row hrow hne => ?_, fun row hrow hlive => ?_⟩
    · exact hrest.columns.trans hfirst.columns
    · exact (hrest.owns id).trans (hfirst.owns id)
    · have hhead : row.id ∉ [oldId] := fun hmem =>
        hne (List.mem_cons.mpr (.inl (List.mem_singleton.mp hmem)))
      have htail : row.id ∉ rest := fun hmem => hne (List.mem_cons_of_mem oldId hmem)
      exact hrest.others row (hfirst.others row hrow hhead) htail
    · exact hfirst.live row (hrest.live row hrow hlive) hlive

end Frames

def persist (world : World) (params : Params) (draft : Draft hash) (store : Store)
    (id : String) : Remembered :=
  if isDuplicateHit draft id then
    let existing := (getDuplicateState store id world.context.keyId).filter fun _ => world.stateRead
    let kind := classifyDuplicate draft existing
    if world.duplicateGuard then
      {
        store := store
        answer := .existing id (existing.bind fun row => (store.columns row.id).ttlTier) kind
          (duplicateOfField kind id)
        found := none }
    else finalizeRemember world params draft store id (some kind)
  else finalizeRemember world params draft store id none

/-- `remember` for a fragment that passed the write gate.  The atomic path inserts in the
transaction that counts the quota and goes on alike. -/
def remember (sha : Sha256) (world : World) (params : Params) (store : Store)
    (draft : Draft hash) : Remembered :=
  match checkIdempotency world.context store.rows draft.toFragment with
  | some existing =>
    {
      store := store
      answer := .idempotent existing.id (store.columns existing.id).ttlTier
      found := none }
  | none =>
    if world.quotaLeft then
      match insertDetailedSeeing sha world.context world.seen store.rows draft.toFragment with
      | .error error => { store := store, answer := .failed error, found := none }
      | .ok written =>
        persist world params draft (inserted world.now store draft written) written.id
    else { store := store, answer := .quotaExceeded, found := none }

end AnchorMind.Write.RememberFlow
