import AnchorMind.Recall.RankingOrder

/-!
# Recall pages

One recall searches, adds linked fragments, drops what its cursor marks as
returned, selects a round within the token budget, and cuts the round to a page.
The stores a recall asks are a parameter; everything the recall computes from
their answers is embedded.
-/

namespace AnchorMind.Recall.Recaller

open Recall.Tokens Recall.BudgetSelector Recall.RankingCursor

structure SearchResult (Id : Type*) where
  ordered : List (Fragment Id)
  idsNodup : (ordered.map Fragment.id).Nodup
  notLinked : ∀ f ∈ ordered, f.linked = false

/-- What the stores answer for one query, at a given anchor time. -/
structure Backend (Id Value : Type*) where
  counter : TokenCounter
  seenKeys : SeenKeys Id
  search : Int -> SearchResult Id
  storedTokenCounts : List Id -> Option (Id -> Option Int)
  linkedRows : Int -> List Id -> List (Fragment Id)
  scoreOf : Int -> Fragment Id -> Option Value
  seenInContext : List Id
  cbrFilter : Bool

structure RecallParams where
  tokenBudget : Option Rat := none
  includeSuperseded : Bool := false
  includeLinks : Bool := true
  pageSize : Option Nat := none
  anchorTime : Option Int := none
  threshold : Option Rat := none
  type : Option String := none
  depth : Option String := none
  excludeSeen : Bool := true
  sessionId : Option String := none
  caseId : Option String := none
  keyId : Option String := none

def defaultTokenBudget : Rat := 1000
def defaultPageSize : Nat := 20
def maxPageSize : Nat := 50
def linkedFragmentLimit : Nat := 10

def RecallParams.budget (params : RecallParams) : Rat :=
  match params.tokenBudget with
  | some budget => if budget = 0 then defaultTokenBudget else budget
  | none => defaultTokenBudget

def RecallParams.pageLimit (params : RecallParams) : Nat :=
  min ((truthy params.pageSize).getD defaultPageSize) maxPageSize

section

variable {Id Value : Type*} [DecidableEq Id]

def depthTypeMap (depth : String) : Option (List String) :=
  if depth = "high-level" then some ["decision", "episode"]
  else if depth = "tool-level" then some ["procedure", "error", "fact"]
  else none

def given (text : Option String) : Option String := text.filter fun value => value ≠ ""

def thresholdKeeps (threshold : Option Rat) (f : Fragment Id) : Bool :=
  match threshold, f.similarity with
  | some threshold, some similarity => decide (threshold ≤ similarity)
  | _, _ => true

def depthKeeps (params : RecallParams) (f : Fragment Id) : Bool :=
  match given params.type, params.depth.bind depthTypeMap with
  | none, some allowed => f.type ∈ allowed
  | _, _ => true

def recallFilter (backend : Backend Id Value) (params : RecallParams) (f : Fragment Id) : Bool :=
  thresholdKeeps params.threshold f && depthKeeps params f &&
    !(params.excludeSeen && (given params.sessionId).isSome && f.id ∈ backend.seenInContext)

def cbrEligible (keyId : Option String) (f : Fragment Id) : Bool :=
  f.keyId = keyId && (given f.caseId).isSome && f.quarantineState ≠ some "soft" &&
    ((given f.resolutionStatus).isNone || f.resolutionStatus = some "resolved")

/-- What the search finish leaves of the search candidates on a page. -/
def finishKeeps (backend : Backend Id Value) (params : RecallParams) (f : Fragment Id) : Bool :=
  isCurrent params.includeSuperseded f &&
    (!(backend.cbrFilter && (given params.caseId).isSome) || cbrEligible params.keyId f)

def attachStoredTokens (loader : List Id -> Option (Id -> Option Int))
    (fragments : List (Fragment Id)) : List (Fragment Id) :=
  let ids := (fragments.filter fun f => (truthy f.estimatedTokens).isNone).map Fragment.id
  match ids, loader ids with
  | [], _ => fragments
  | _, none => fragments
  | _, some stored => fragments.map fun f =>
    match stored f.id with
    | some tokens => { f with storedTokens := some tokens }
    | none => f

def countedResults (backend : Backend Id Value) (params : RecallParams) (anchorTime : Int) :
    List (Fragment Id) × Counts Id :=
  let ordered := (backend.search anchorTime).ordered
  let current := ordered.filter (isCurrent params.includeSuperseded)
  match exceedsBudget backend.counter current params.budget noCounts with
  | (false, counts) => (ordered, counts)
  | (true, counts) =>
    (attachStoredTokens backend.storedTokenCounts (ordered.take selectionPoolMax) ++
      ordered.drop selectionPoolMax, counts)

def searchCandidates (backend : Backend Id Value) (params : RecallParams) (anchorTime : Int) :
    Partition Id :=
  let (ordered, counts) := countedResults backend params anchorTime
  partitionCandidates backend.counter ordered params.budget params.includeSuperseded
    rankCandidateLimit counts

def addLinked : List Id -> List (Fragment Id) -> List (Fragment Id)
  | _, [] => []
  | present, row :: rest =>
    if row.id ∈ present then addLinked present rest
    else { row with linked := true } :: addLinked (row.id :: present) rest

def loadLinkedFragments (backend : Backend Id Value) (params : RecallParams) (anchorTime : Int)
    (partition : Partition Id) : List (Fragment Id) :=
  let seeds := partition.candidates.filter fun f => f.id ∈ partition.baselineIds
  if params.includeLinks ∧ seeds ≠ [] then
    addLinked (partition.candidates.map Fragment.id)
      (backend.linkedRows anchorTime (seeds.map Fragment.id))
  else []

def unseenPool (backend : Backend Id Value) (params : RecallParams) (seen : List String)
    (fragments : List (Fragment Id)) : List (Fragment Id) :=
  fragments.filter fun f =>
    recallFilter backend params f && backend.seenKeys.rankingSeenKey f.id ∉ seen

structure FittedPool (Id : Type*) where
  binding : Bool
  pool : List (Fragment Id)
  counts : Counts Id

def fittingPool (counter : TokenCounter) (budget : Rat) (pool : List (Fragment Id))
    (counts : Counts Id) : FittedPool Id :=
  match exceedsBudget counter pool budget counts with
  | (false, counts) => { binding := false, pool := pool, counts := counts }
  | (true, counts) =>
    { binding := true
      pool := pool.filter fun f => (countedTokens counter counts f : Rat) ≤ budget
      counts := counts }

end

section

variable {Id Value : Type*} [LinearOrder Id] [Score Value]

structure PageQuery (Id Value : Type*) where
  counter : TokenCounter
  budget : Rat
  scoreOf : Fragment Id -> Option Value
  lexicalOnly : List Id
  linkedIds : List Id
  pageSize : Nat
  offset : Nat
  binding : Bool
  poolLength : Nat

def PageQuery.byRank (query : PageQuery Id Value) (fragments : List (Fragment Id)) :
    List (Fragment Id) :=
  sortByRank (lexicalOnlyLast query.scoreOf fun f => f.id ∈ query.lexicalOnly) fragments

def selectRound (query : PageQuery Id Value) (remaining : List (Fragment Id))
    (baseline : List Id) (counts : Counts Id) : List (Fragment Id) × Counts Id :=
  let (selection, counts) := selectForRecall query.counter remaining query.budget query.scoreOf
    (fun f => if f.id ∈ query.lexicalOnly then 1 else 0) baseline
    (rankCandidateLimit + linkedFragmentLimit) counts
  match query.byRank (selectedOf remaining selection) with
  | [] => ((query.byRank remaining).take 1, counts)
  | round => (round, counts)

def nextRound (query : PageQuery Id Value) (remaining : List (Fragment Id))
    (baseline : List Id) (counts : Counts Id) : List (Fragment Id) × Counts Id :=
  if query.binding then selectRound query remaining baseline counts
  else (query.byRank remaining, counts)

structure PageChoice (Id : Type*) where
  page : List (Fragment Id)
  consumed : List (Fragment Id)
  counts : Counts Id

def findPage (query : PageQuery Id Value) :
    Nat -> List (Fragment Id) -> List Id -> List (Fragment Id) -> Counts Id -> PageChoice Id
  | 0, _, _, consumed, counts => { page := [], consumed := consumed, counts := counts }
  | rounds + 1, remaining, baseline, consumed, counts =>
    if remaining = [] ∨ query.poolLength ≤ query.offset then
      { page := [], consumed := consumed, counts := counts }
    else
      let (round, counts) := nextRound query remaining baseline counts
      let skipped := query.offset - consumed.length
      if query.offset < consumed.length + round.length then
        { page := (round.drop skipped).take query.pageSize
          consumed := consumed ++ round.take skipped
          counts := counts }
      else
        let rest := remaining.filter fun f => f.id ∉ round.map Fragment.id
        let partition := partitionCandidates query.counter
          (rest.filter fun f => f.id ∉ query.linkedIds) query.budget true rankCandidateLimit
          counts
        findPage query rounds rest partition.baselineIds (consumed ++ round) partition.counts

structure RecallResponse (Id : Type*) where
  fragments : List (Fragment Id)
  totalTokens : Nat
  count : Nat
  totalCount : Nat
  hasMore : Bool
  nextCursor : Option Cursor

def pageQuery (backend : Backend Id Value) (params : RecallParams) (offset : Nat)
    (anchorTime : Int) (candidates linked : List (Fragment Id)) (fitted : FittedPool Id) :
    PageQuery Id Value :=
  { counter := backend.counter
    budget := params.budget
    scoreOf := backend.scoreOf anchorTime
    lexicalOnly := (candidates.filter Fragment.lexicalOnly).map Fragment.id
    linkedIds := linked.map Fragment.id
    pageSize := params.pageLimit
    offset := offset
    binding := fitted.binding
    poolLength := fitted.pool.length }

/-- The answer to a page: search candidates finished, linked fragments appended,
and a cursor that marks everything up to the end of the page. -/
def respond (backend : Backend Id Value) (params : RecallParams) (seen : List String)
    (anchorTime : Int) (candidates linked : List (Fragment Id)) (query : PageQuery Id Value)
    (choice : PageChoice Id) : RecallResponse Id :=
  let inPage := choice.page.map Fragment.id
  let found := candidates.filter fun f => f.id ∈ inPage
  let pageLinked := linked.filter fun f => f.id ∈ inPage
  let fragments := query.byRank (found.filter (finishKeeps backend params) ++ pageLinked)
  let hasMore :=
    choice.page ≠ [] ∧ choice.consumed.length + choice.page.length < query.poolLength
  { fragments := fragments
    totalTokens := exactTotal backend.counter found +
      (pageLinked.map (countedTokens backend.counter choice.counts)).sum
    count := fragments.length
    totalCount := seen.length + query.poolLength
    hasMore := hasMore
    nextCursor :=
      if hasMore then
        some (encodeSeenCursor
          (seen ++ (choice.consumed ++ choice.page).map fun f =>
            backend.seenKeys.rankingSeenKey f.id) anchorTime)
      else none }

def selectRankedWithinBudget (backend : Backend Id Value) (params : RecallParams)
    (offset : Nat) (seen : List String) (anchorTime : Int) : RecallResponse Id :=
  let partition := searchCandidates backend params anchorTime
  let linked := loadLinkedFragments backend params anchorTime partition
  let fitted := fittingPool backend.counter params.budget
    (unseenPool backend params seen (partition.candidates ++ linked)) partition.counts
  let query := pageQuery backend params offset anchorTime partition.candidates linked fitted
  respond backend params seen anchorTime partition.candidates linked query
    (findPage query fitted.pool.length fitted.pool partition.baselineIds [] fitted.counts)

/-- One recall, at the time `now`. -/
def «recall» (backend : Backend Id Value) (params : RecallParams) (cursor : Option Cursor)
    (now : Int) : RecallResponse Id :=
  let decoded := decodeRankingCursor cursor
  let anchorTime := (decoded.bind DecodedCursor.anchorTime).getD (params.anchorTime.getD now)
  selectRankedWithinBudget backend params ((decoded.map DecodedCursor.offset).getD 0)
    ((decoded.map DecodedCursor.seen).getD []) anchorTime

end

end AnchorMind.Recall.Recaller
