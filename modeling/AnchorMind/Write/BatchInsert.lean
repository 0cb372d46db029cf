import AnchorMind.Kernel.FirstOf
import AnchorMind.Write.DedupScope

/-!
# The batch insert

A batch is written by one transaction: the anchor quota is applied once for all
items, stored duplicates the arbiter would not catch are looked up, items with one
fold key are folded into the first of them, and what is left goes into multi-row
`INSERT ... ON CONFLICT` statements, a chunk each.
-/

namespace AnchorMind.Write.BatchInsert

open Kernel.UniqueIndex Write.Fragments Write.DedupScope

variable {hash : ContentHash}

structure Result where
  id : Option String
  error : Option String
  warnings : List String
deriving DecidableEq

abbrev Results := Nat -> Result

def Results.setId (results : Results) (index : Nat) (id : Option String) : Results :=
  Function.update results index { results index with id := id }

structure WriteContext where
  keyId : Option String
  indexes : DedupIndexState
  configured : Scope
  anchorLimit : Nat
  enforceAnchors : Bool

namespace WriteContext

def scope (context : WriteContext) : Scope :=
  effectiveDedupScope context.configured context.indexes context.keyId

def arbiter (context : WriteContext) : Option IndexName :=
  conflictIndex context.indexes context.keyId

end WriteContext

theorem existing_of_conflictIndex {state : DedupIndexState} {keyId : Option String}
    {name : IndexName} (harbiter : conflictIndex state keyId = some name) :
    state.existing name = true := by
  unfold conflictIndex at harbiter
  split at harbiter
  · rename_i hvalid
    cases harbiter
    exact DedupIndexState.existing_of_valid hvalid
  · split at harbiter
    · rename_i hvalid
      cases harbiter
      exact DedupIndexState.existing_of_valid hvalid
    · cases harbiter

/-- `DO UPDATE SET importance = GREATEST(..), is_anchor = .. OR ..` -/
def mergeRow (old excluded : Row) : Row :=
  { old with
    importance := max old.importance excluded.importance
    isAnchor := old.isAnchor || excluded.isAnchor }

theorem indexEntry_mergeRow (name : IndexName) (old excluded : Row) :
    indexEntry name (mergeRow old excluded) = indexEntry name old := by
  cases name <;> rfl

theorem WriteContext.arbiter_enforced (context : WriteContext) (name : IndexName)
    (harbiter : context.arbiter = some name) :
    name ∈ IndexName.all.filter context.indexes.existing :=
  List.mem_filter.mpr ⟨IndexName.mem_all name, existing_of_conflictIndex harbiter⟩

/-- The fragments table as an insert of the path sees it: every listed index is
enforced, and `conflictClause` names the arbiter. -/
def WriteContext.upsert (context : WriteContext) : Upsert IndexName Row Entry where
  index := indexEntry
  enforced := IndexName.all.filter context.indexes.existing
  arbiter := context.arbiter
  merge := mergeRow
  arbiter_enforced := context.arbiter_enforced
  index_merge := indexEntry_mergeRow

def countLiveAnchors (table : List Row) (keyId : Option String) : Nat :=
  table.countP fun row => decide (row.keyId = keyId) && row.validTo.isNone && row.isAnchor

def anchorLimitRule : String := "anchorLimitExceeded"

/-- `SymbolicPolicyViolationError` of the limit violation. -/
def anchorLimitError : String := "policy_violation: " ++ anchorLimitRule

structure Allotment (hash : ContentHash) where
  count : Nat
  kept : List (Item hash)
  results : Results

def withoutAnchor (item : Item hash) : Item hash :=
  { item with fragment := { item.fragment with isAnchor := false } }

def allotAnchor (context : WriteContext) (state : Allotment hash) (item : Item hash) :
    Allotment hash :=
  if item.fragment.isAnchor && item.fragment.anchorQuota then
    if state.count < context.anchorLimit then
      { state with count := state.count + 1, kept := state.kept ++ [item] }
    else if context.enforceAnchors then
      { state with
        results := Function.update state.results item.index ⟨none, some anchorLimitError, []⟩ }
    else
      { state with
        kept := state.kept ++ [withoutAnchor item]
        results := Function.update state.results item.index
          { state.results item.index with
            warnings := (state.results item.index).warnings ++ [anchorLimitRule] } }
  else { state with kept := state.kept ++ [item] }

theorem allotAnchor_kept (context : WriteContext) (state : Allotment hash) (item : Item hash) :
    (allotAnchor context state item).kept = state.kept \/
      (allotAnchor context state item).kept = state.kept ++ [item] \/
      (allotAnchor context state item).kept = state.kept ++ [withoutAnchor item] := by
  unfold allotAnchor
  split
  · split
    · exact .inr (.inl rfl)
    · split
      · exact .inl rfl
      · exact .inr (.inr rfl)
  · exact .inr (.inl rfl)

def applyAnchorQuotaToBatch (context : WriteContext) (table : List Row) (items : List (Item hash))
    (results : Results) : Allotment hash :=
  items.foldl (allotAnchor context) ⟨countLiveAnchors table context.keyId, [], results⟩

/-- The folded item keeps the columns of the first one but these two. -/
def absorbItem (primary item : Item hash) : Item hash :=
  { primary with
    fragment := { primary.fragment with
      importance := some (max (primary.fragment.importance.getD defaultImportance)
        (item.fragment.importance.getD defaultImportance))
      isAnchor := primary.fragment.isAnchor || item.fragment.isAnchor } }

structure Collapsed (hash : ContentHash) where
  unique : List (Item hash)
  aliases : List (Nat × Nat)

def collapseStep (scope : Scope) (state : Collapsed hash) (item : Item hash) : Collapsed hash :=
  match foldKey item.fragment scope with
  | none => { state with unique := state.unique ++ [item] }
  | some key =>
    match state.unique.find? (fun primary => foldKey primary.fragment scope = some key) with
    | none => { state with unique := state.unique ++ [item] }
    | some primary =>
      { unique := state.unique.map fun other =>
          if foldKey other.fragment scope = some key then absorbItem other item else other
        aliases := state.aliases ++ [(item.index, primary.index)] }

def collapseHashDuplicates (items : List (Item hash)) (scope : Scope) : Collapsed hash :=
  items.foldl (collapseStep scope) ⟨[], []⟩

def maxRowsChunk : Nat := 500

def maxBytesChunk : Nat := 256 * 1024

structure Chunking (hash : ContentHash) where
  chunks : List (List (Item hash))
  current : List (Item hash)
  bytes : Nat

def chunkStep (state : Chunking hash) (item : Item hash) : Chunking hash :=
  let itemBytes := item.fragment.content.utf8ByteSize
  if (state.current ≠ [] /\ maxBytesChunk < state.bytes + itemBytes) \/
      maxRowsChunk ≤ state.current.length then
    ⟨state.chunks ++ [state.current], [item], itemBytes⟩
  else ⟨state.chunks, state.current ++ [item], state.bytes + itemBytes⟩

def chunkFragments (items : List (Item hash)) : List (List (Item hash)) :=
  let last := items.foldl chunkStep ⟨[], [], 0⟩
  if last.current = [] then last.chunks else last.chunks ++ [last.current]

theorem chunkFragments_flatten (items : List (Item hash)) :
    (chunkFragments items).flatten = items := by
  have hfold : ∀ state : Chunking hash,
      (items.foldl chunkStep state).chunks.flatten ++ (items.foldl chunkStep state).current =
        state.chunks.flatten ++ state.current ++ items := by
    induction items with
    | nil => simp
    | cons item rest ih =>
      intro state
      rw [List.foldl_cons, ih]
      unfold chunkStep
      simp only
      split <;> simp
  have hlast := hfold ⟨[], [], 0⟩
  unfold chunkFragments
  simp only
  split
  · rename_i hempty
    rw [hempty] at hlast
    simpa using hlast
  · simpa using hlast

def rowBinding (keyId : Option String) (fragment : Fragment hash) : Row where
  id := fragment.id
  keyId := keyId
  workspace := normalizeWorkspace fragment.workspace
  content := fragment.content
  type := fragment.type
  contentHash := fragment.contentHash
  importance := fragment.importance.getD defaultImportance
  isAnchor := fragment.isAnchor
  idempotencyKey := none
  validTo := none

/-- `RETURNING id` comes back in the order of the rows. -/
def assignIds : Results -> List (Item hash) -> List Row -> Results
  | results, [], _ => results
  | results, item :: items, [] =>
    assignIds (results.setId item.index (some item.fragment.id)) items []
  | results, item :: items, row :: rows =>
    assignIds (results.setId item.index (some row.id)) items rows

def assignAliases (results : Results) (aliases : List (Nat × Nat)) : Results :=
  aliases.foldl (fun results link => results.setId link.1 (results link.2).id) results

def assignHits (results : Results) (hits : List (Nat × String)) : Results :=
  hits.foldl (fun results hit => results.setId hit.1 (some hit.2)) results

def resolveDuplicates (context : WriteContext) (table : List Row) (items : List (Item hash)) :
    List (Nat × String) × List (Item hash) :=
  if lookupRequired context.indexes context.keyId then
    let hashes := items.map fun item => item.fragment.contentHash
    let rows := findContentHashMatches table context.keyId
      (hashes.filter fun text => decide (text ≠ "")) none
    splitLookupHits items rows context.scope context.arbiter
  else ([], items)

structure Outcome where
  results : Results
  table : List Row

def insertChunks (context : WriteContext) (table : List Row) (unique : List (Item hash)) :
    Except (Refusal IndexName) (List Row × List Row) :=
  context.upsert.statements table
    ((chunkFragments unique).map fun chunk =>
      chunk.map fun item => rowBinding context.keyId item.fragment)

/-- `_insertInTransactionOnce` from the resolution of duplicates on. -/
def insertAccepted (context : WriteContext) (table : List Row) (items : List (Item hash))
    (results : Results) : Except (Refusal IndexName) Outcome :=
  let resolved := resolveDuplicates context table items
  let collapsed := collapseHashDuplicates resolved.2 context.scope
  match insertChunks context table collapsed.unique with
  | .error refusal => .error refusal
  | .ok (rows, last) =>
    .ok {
      results := assignHits
        (assignAliases (assignIds results collapsed.unique rows) collapsed.aliases) resolved.1
      table := last }

def insertInTransactionOnce (context : WriteContext) (table : List Row) (items : List (Item hash))
    (results : Results) : Except (Refusal IndexName) Outcome :=
  let allotment := applyAnchorQuotaToBatch context table items results
  insertAccepted context table allotment.kept allotment.results

/-- `isDedupIndexError`: a violation of one of the four indexes. -/
def isDedupIndexError : Refusal IndexName -> Bool
  | .uniqueViolation _ => true
  | .affectedTwice => false

/-- The transaction is rolled back and run again after an index error; the index
state read again is the one in force. -/
def insertInTransaction (context : WriteContext) (table : List Row) (items : List (Item hash))
    (results : Results) : Nat -> Except (Refusal IndexName) Outcome
  | 0 => insertInTransactionOnce context table items results
  | attempts + 1 =>
    match insertInTransactionOnce context table items results with
    | .ok outcome => .ok outcome
    | .error refusal =>
      if isDedupIndexError refusal then
        insertInTransaction context table items results attempts
      else .error refusal

/-- `DEDUP_ATTEMPTS`, the first run aside. -/
def dedupRetries : Nat := 2

/-- Against one index state a run that failed fails again. -/
theorem insertInTransaction_eq_once (context : WriteContext) (table : List Row)
    (items : List (Item hash)) (results : Results) (attempts : Nat) :
    insertInTransaction context table items results attempts =
      insertInTransactionOnce context table items results := by
  induction attempts with
  | zero => rfl
  | succ attempts ih =>
    rw [insertInTransaction, ih]
    split
    · rename_i houtcome
      rw [houtcome]
    · rename_i hrefusal
      rw [hrefusal]
      split <;> rfl

end AnchorMind.Write.BatchInsert
