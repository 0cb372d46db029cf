import AnchorMind.Kernel.KeyedTable
import AnchorMind.Kernel.Transition
import AnchorMind.Link.LinkStore

/-!
# Contradictions and supersessions

`ContradictionDetector` looks at the fragments that came after a watermark and judges each
against its close neighbours; pairs that cannot be judged wait in a queue.  Of two fragments
that contradict or replace each other, the one said earlier names the other as its successor
and is closed.  Every stretch of code that ends at a query, a call of a judge, or a Redis
command is one step, and other writers may step in between.
-/

namespace AnchorMind.Link.ContradictionDetector

open Kernel.KeyedTable Kernel.Transition

structure Fragment (Id : Type*) where
  id : Id
  topic : String
  type : String
  keyId : Option String
  /-- Microseconds, as the column keeps them. -/
  createdAt : Int
  mentionTime : Option Int
  hasEmbedding : Bool
  reviewState : Option String
  isAnchor : Bool
  importance : Rat
  validTo : Option Int
  deriving DecidableEq

abbrev Fragments (Id : Type*) := Table (Fragment.id : Fragment Id -> Id) fun _ => True

/-- `CONTRADICTION_AUDIT_TOPIC` -/
def auditTopic : String := "contradiction_audit"

namespace Fragment

variable {Id : Type*}

/-- `isReviewHeld` -/
def isReviewHeld (fragment : Fragment Id) : Bool :=
  decide (fragment.reviewState = some "pending") ||
    decide (fragment.reviewState = some "rejected")

/-- Of an instant, a `Date` keeps the milliseconds. -/
def statedAtMs (fragment : Fragment Id) : Int :=
  fragment.mentionTime.getD fragment.createdAt / 1000

def isLive (fragment : Fragment Id) : Bool := fragment.validTo.isNone

/-- What both scans ask of a fragment, apart from the watermark. -/
def scannable (fragment : Fragment Id) : Bool :=
  fragment.hasEmbedding && fragment.isLive && !fragment.isReviewHeld &&
    decide (fragment.topic ≠ auditTopic)

end Fragment

/-- A watermark as `parseWatermark` reads it; older ones name no fragment. -/
structure Watermark (Id : Type*) where
  instant : Int
  id : Option Id
  deriving DecidableEq

section Selections

variable {Id : Type*} [LinearOrder Id]

def watermarkOf (fragment : Fragment Id) : Watermark Id where
  instant := fragment.createdAt
  id := some fragment.id

/-- `created_at > $1`, or `(created_at, id) > ($1, $2)` -/
def isAfter (watermark : Option (Watermark Id)) (fragment : Fragment Id) : Bool :=
  match watermark with
  | none => true
  | some { instant, id := none } => decide (instant < fragment.createdAt)
  | some { instant, id := some id } =>
    decide (instant < fragment.createdAt) ||
      decide (instant = fragment.createdAt) && decide (id < fragment.id)

/-- `ORDER BY created_at ASC, id ASC` -/
def createdBefore (a b : Fragment Id) : Prop :=
  a.createdAt < b.createdAt \/ (a.createdAt = b.createdAt /\ a.id ≤ b.id)

instance : DecidableRel (createdBefore : Fragment Id -> Fragment Id -> Prop) := fun _ _ =>
  instDecidableOr

def scanAfter (fragments : Fragments Id) (watermark : Option (Watermark Id)) (limit : Nat) :
    List (Fragment Id) :=
  fragments.selectOrdered (fun row => row.scannable && isAfter watermark row) createdBefore limit

/-- `createLink`, of a link that the foreign keys let through. -/
def writeLink (links : LinkTable Id Rat) (fromId toId : Id) (relationType : RelationType) :
    LinkTable Id Rat :=
  fun key =>
    if key = (fromId, toId) then
      some (upsertLink OrderHom.id (links key)
        { fromId := fromId, toId := toId, relationType := relationType, weight := 1 })
    else links key

structure Candidate (Id : Type*) where
  row : Fragment Id
  similarity : Rat
  deriving DecidableEq

/-- `relation_type = 'contradicts'`, also of a link that was taken back -/
def contradictsLink (links : LinkTable Id Rat) (fromId toId : Id) : Bool :=
  (links (fromId, toId)).any fun row => decide (row.relationType = some .contradicts)

/-- The conditions of the candidate query of `detectContradictions`. -/
def isCandidate (links : LinkTable Id Rat) (newFrag : Fragment Id) (found : Candidate Id) : Bool :=
  decide (found.row.id ≠ newFrag.id) && decide (found.row.topic = newFrag.topic) &&
    found.row.hasEmbedding && found.row.isLive && !found.row.isReviewHeld &&
    decide (found.row.keyId = newFrag.keyId) && decide (17 / 20 < found.similarity) &&
    !contradictsLink links newFrag.id found.row.id &&
    !contradictsLink links found.row.id newFrag.id

def IsAnswer (fragments : Fragments Id) (links : LinkTable Id Rat) (newFrag : Fragment Id)
    (answer : List (Candidate Id)) : Prop :=
  answer.length ≤ 3 /\ (answer.map fun found => found.row.id).Nodup /\
    (answer.map Candidate.similarity).Pairwise (fun a b => b ≤ a) /\
    ∀ found ∈ answer,
      found.row ∈ fragments.rows /\ isCandidate links newFrag found = true

instance (fragments : Fragments Id) (links : LinkTable Id Rat) (newFrag : Fragment Id)
    (answer : List (Candidate Id)) : Decidable (IsAnswer fragments links newFrag answer) := by
  unfold IsAnswer
  infer_instance

/-- Two fragments that may replace one another: one of a scan and its neighbour. -/
structure Pair (Id : Type*) where
  a : Fragment Id
  b : Fragment Id
  similarity : Rat
  deriving DecidableEq

/-- The conditions of the neighbour query of `detectSupersessions`. -/
def isNeighbor (links : LinkTable Id Rat) (pair : Pair Id) : Bool :=
  decide (pair.b.id ≠ pair.a.id) && decide (pair.b.topic = pair.a.topic) &&
    decide (pair.b.type = pair.a.type) && decide (pair.b.keyId = pair.a.keyId) &&
    pair.b.hasEmbedding && pair.b.isLive && !pair.b.isReviewHeld &&
    (links (pair.a.id, pair.b.id)).isNone && (links (pair.b.id, pair.a.id)).isNone &&
    decide (7 / 10 ≤ pair.similarity) && decide (pair.similarity ≤ 17 / 20)

/-- What the neighbour query may answer for one lot of scanned fragments. -/
def AreNeighbors (fragments : Fragments Id) (links : LinkTable Id Rat)
    (chunk : List (Fragment Id)) (found : List (Pair Id)) : Prop :=
  ∀ pair ∈ found,
    pair.a ∈ chunk /\ pair.b ∈ fragments.rows /\ isNeighbor links pair = true

instance (fragments : Fragments Id) (links : LinkTable Id Rat)
    (chunk : List (Fragment Id)) (found : List (Pair Id)) :
    Decidable (AreNeighbors fragments links chunk found) := by
  unfold AreNeighbors
  infer_instance

def pairKey (idA idB : Id) : Id × Id := if idA < idB then (idA, idB) else (idB, idA)

def addPairs (pairs found : List (Pair Id)) : List (Pair Id) :=
  found.foldl (fun kept pair =>
    if kept.any fun old => decide (pairKey old.a.id old.b.id = pairKey pair.a.id pair.b.id) then
      kept
    else kept ++ [pair]) pairs

/-- `SUPERSESSION_JUDGE_LIMIT` pairs, the closest first. -/
def judged (pairs : List (Pair Id)) : List (Pair Id) :=
  (pairs.insertionSort fun x y => y.similarity ≤ x.similarity).take 10

end Selections

/-- What is resolved, from the rows as they were read. -/
inductive Resolution (Id : Type*) where
  | contradiction (newFrag candidate : Fragment Id)
  | supersession (pair : Pair Id)

namespace Resolution

variable {Id : Type*}

/-- A contradiction goes to the fragment said later, and with equal times to the
candidate; a replacement goes to the one said later, and with equal times to the first. -/
def winner : Resolution Id -> Fragment Id
  | .contradiction newFrag candidate =>
    if candidate.statedAtMs < newFrag.statedAtMs then newFrag else candidate
  | .supersession pair => if pair.a.statedAtMs < pair.b.statedAtMs then pair.b else pair.a

def loser : Resolution Id -> Fragment Id
  | .contradiction newFrag candidate =>
    if candidate.statedAtMs < newFrag.statedAtMs then candidate else newFrag
  | .supersession pair => if pair.a.statedAtMs < pair.b.statedAtMs then pair.a else pair.b

/-- `importance * 0.5`, in `detectSupersessions` with a floor. -/
def halve : Resolution Id -> Rat -> Rat
  | .contradiction _ _, importance => importance / 2
  | .supersession _, importance => max (1 / 20) (importance / 2)

end Resolution

inductive Statement where
  | supersede
  | close
  | contradict
  deriving DecidableEq

def firstStatement {Id : Type*} : Resolution Id -> Option Statement
  | .contradiction newFrag candidate =>
    if newFrag.isReviewHeld || candidate.isReviewHeld then none
    else if newFrag.keyId ≠ candidate.keyId then none
    else if (Resolution.contradiction newFrag candidate).loser.isAnchor then some .contradict
    else some .supersede
  | .supersession _ => some .supersede

def nextStatement {Id : Type*} : Resolution Id -> Statement -> Option Statement
  | _, .supersede => some .close
  | .contradiction _ _, .close => some .contradict
  | .supersession _, .close => none
  | _, .contradict => none

/-- `UPDATE fragments SET importance = ..., valid_to = NOW() WHERE id = $1 AND valid_to IS NULL` -/
def closeLoser {Id : Type*} [DecidableEq Id] (resolution : Resolution Id) (now : Int) :
    Table.Update (Fragment.id : Fragment Id -> Id) (fun _ => True) where
  select row := decide (row.id = resolution.loser.id) && row.isLive
  image row := { row with importance := resolution.halve row.importance, validTo := some now }
  keepsKey _ := rfl
  keepsCheck _ _ _ := trivial

/-- The answer of `nliDetect`. -/
inductive NliAnswer where
  | null
  | result (contradicts needsEscalation : Bool)
  | thrown

/-- What `geminiCLIJson` settles to; of an answer only the flag is read. -/
inductive GeminiAnswer where
  | answered (flag : Bool)
  | null
  | thrown

/-- `detectContradictions` between two fragments. -/
structure Scan (Id : Type*) where
  rest : List (Fragment Id)
  latestProcessed : Option (Watermark Id)
  blocked : Bool
  nliAvail : Bool
  cliAvail : Bool

/-- What came of a selected pair: a verdict; nothing, because it had been checked often
enough or no judge was there to ask; or nothing, because of an error. -/
inductive Outcome where
  | verdict
  | putAside
  | unanswered
  deriving DecidableEq

/-- The fragment under examination, with what came of its pairs so far. -/
structure Examined (Id : Type*) where
  newFrag : Fragment Id
  candidates : List (Candidate Id)
  fragOk : Bool
  outcomes : List Outcome

/-- One more pair is done with. -/
def Examined.came {Id : Type*} (examined : Examined Id) (outcome : Outcome) : Examined Id :=
  { examined with outcomes := examined.outcomes ++ [outcome] }

def Examined.abandon {Id : Type*} (examined : Examined Id) : Examined Id :=
  { examined with
    candidates := []
    outcomes := examined.outcomes ++ examined.candidates.map fun _ => .unanswered }

/-- Where a resolution was started from. -/
inductive Caller (Id : Type*) where
  | detecting (scan : Scan Id) (examined : Examined Id) (byNli : Bool)
  | pending (entry : Id × Id) (left : Nat)
  | superseding (rest : List (Pair Id))

inductive Point (Id : Type*) where
  | idle
  | scanning (scan : Scan Id)
  | examining (scan : Scan Id) (examined : Examined Id)
  | pending (left : Nat)
  | asking (entry : Id × Id) (rowA rowB : Fragment Id) (left : Nat)
  | collecting (rest : List (Fragment Id)) (pairs : List (Pair Id))
      (latestProcessed : Option (Watermark Id))
  | superseding (rest : List (Pair Id))
  | resolving (resolution : Resolution Id) (statement : Statement) (caller : Caller Id)

structure Reading (Id : Type*) where
  fromRedis : Bool
  watermark : Option (Watermark Id)

structure Closing (Id : Type*) where
  loser : Id
  winner : Id
  winnerLive : Bool
  deriving DecidableEq

/-- The examination of a fragment in one run. -/
structure Turn (Id : Type*) where
  id : Id
  failed : Bool
  outcomes : List Outcome
  deriving DecidableEq

/-- What was done, newest first. -/
structure History (Id : Type*) where
  /-- The links that name a successor. -/
  superseded : List (Id × Id) := []
  closings : List (Closing Id) := []
  turns : List (Turn Id) := []
  /-- The fragments that a scan went past because a review held them. -/
  held : List Id := []
  readings : List (Reading Id) := []

structure State (Id : Type*) where
  fragments : Fragments Id
  links : LinkTable Id Rat
  /-- `frag:contradiction_check_at` -/
  contradictionCheckAt : Option (Watermark Id)
  /-- `frag:supersession_check_at` -/
  supersessionCheckAt : Option (Watermark Id)
  /-- `frag:pending_contradictions` -/
  pendingContradictions : List (Id × Id)
  memoryWatermark : Option (Watermark Id)
  supersessionMemoryWatermark : Option (Watermark Id)
  failureCounts : Id -> Nat
  checkedPairs : Id × Id -> Nat
  point : Point Id
  history : History Id

namespace State

variable {Id : Type*} [LinearOrder Id]

/-- `_acquirePairCheck`: nothing for a pair checked `MAX_CONTRADICTION_DEPTH` times. -/
def acquirePairCheck (state : State Id) (idA idB : Id) : Option (State Id) :=
  let key := pairKey idA idB
  let count := state.checkedPairs key
  if 3 ≤ count then none
  else some { state with checkedPairs := Function.update state.checkedPairs key (count + 1) }

def isLiveId (state : State Id) (id : Id) : Bool :=
  state.fragments.rows.any fun row => decide (row.id = id) && row.isLive

def returned : Caller Id -> Point Id
  | .detecting scan examined _ => .examining scan examined
  | .pending _ left => .pending left
  | .superseding rest => .superseding rest

/-- `rpush` of an entry; a failure drops it. -/
def requeue (state : State Id) (entry : Id × Id) (requeued : Bool) : State Id :=
  if requeued then
    { state with pendingContradictions := state.pendingContradictions ++ [entry] }
  else state

/-- Where an error of a resolution is caught.  One after a verdict of the NLI model ends
the examination of the fragment, one after a verdict of Gemini does not. -/
def caught (state : State Id) (caller : Caller Id) (requeued : Bool) : State Id :=
  match caller with
  | .detecting scan examined byNli =>
    let failed := { examined with fragOk := false }
    if byNli then { state with point := .examining scan failed.abandon }
    else { state with point := .examining scan failed }
  | .pending entry _ => { state.requeue entry requeued with point := .idle }
  | .superseding rest => { state with point := .superseding rest }

def beginResolution (state : State Id) (resolution : Resolution Id) (caller : Caller Id) :
    State Id :=
  match firstStatement resolution with
  | none => { state with point := returned caller }
  | some statement => { state with point := .resolving resolution statement caller }

/-- The successor is named. -/
def supersede (state : State Id) (resolution : Resolution Id) : State Id :=
  { state with
    links := writeLink state.links resolution.loser.id resolution.winner.id .supersededBy
    history := { state.history with
      superseded := (resolution.loser.id, resolution.winner.id) :: state.history.superseded } }

def close (state : State Id) (resolution : Resolution Id) (now : Int) : State Id :=
  if state.isLiveId resolution.loser.id then
    { state with
      fragments := state.fragments.apply (closeLoser resolution now)
      history := { state.history with
        closings :=
          { loser := resolution.loser.id
            winner := resolution.winner.id
            winnerLive := state.isLiveId resolution.winner.id } :: state.history.closings } }
  else state

/-- The link that keeps the pair from being found again. -/
def contradict (state : State Id) : Resolution Id -> State Id
  | .contradiction newFrag candidate =>
    { state with links := writeLink state.links newFrag.id candidate.id .contradicts }
  | .supersession _ => state

def execute (state : State Id) (resolution : Resolution Id) (statement : Statement)
    (caller : Caller Id) (now : Int) : State Id :=
  let done :=
    match statement with
    | .supersede => state.supersede resolution
    | .close => state.close resolution now
    | .contradict => state.contradict resolution
  match nextStatement resolution statement with
  | none => { done with point := returned caller }
  | some next => { done with point := .resolving resolution next caller }

def leftOut (fragments : Fragments Id) (watermark : Option (Watermark Id))
    (scanned : List (Fragment Id)) : List Id :=
  (fragments.rows.filter fun row =>
    row.isReviewHeld && isAfter watermark row &&
      scanned.any fun other => decide (createdBefore row other)).map Fragment.id

def readWatermark (state : State Id) (redisReady : Bool) : Reading Id :=
  match if redisReady then state.contradictionCheckAt else none with
  | some stored => { fromRedis := true, watermark := some stored }
  | none => { fromRedis := false, watermark := state.memoryWatermark }

def detect (state : State Id) (redisReady nliAvail cliAvail : Bool) : State Id :=
  let reading := state.readWatermark redisReady
  let newFrags := scanAfter state.fragments reading.watermark 20
  { state with
    history := { state.history with
      held := leftOut state.fragments reading.watermark newFrags ++ state.history.held
      readings := reading :: state.history.readings }
    point :=
      if newFrags.isEmpty then .idle
      else
        .scanning
          { rest := newFrags
            latestProcessed := none
            blocked := false
            nliAvail := nliAvail
            cliAvail := cliAvail } }

def examine (state : State Id) (scan : Scan Id) (newFrag : Fragment Id)
    (answer : Option (List (Candidate Id))) : State Id :=
  { state with
    point := .examining scan
      { newFrag := newFrag
        candidates := answer.getD []
        fragOk := answer.isSome
        outcomes := [] } }

/-- `flagPotentialContradiction`, for a pair that is close enough. -/
def flag (state : State Id) (newFrag : Fragment Id) (found : Candidate Id) (pushed : Bool) :
    State Id :=
  if 23 / 25 < found.similarity then state.requeue (newFrag.id, found.row.id) pushed else state

/-- Gemini is asked, or the pair put aside where the CLI is not there.  An error of the
call is caught by `askGeminiContradiction`, which then answers that nothing contradicts. -/
def askGemini (state : State Id) (scan : Scan Id) (rest : Examined Id) (found : Candidate Id)
    (gemini : GeminiAnswer) (pushed : Bool) : State Id :=
  if !scan.cliAvail then
    { state.flag rest.newFrag found pushed with
      point := .examining scan (rest.came .putAside) }
  else
    match gemini with
    | .answered true =>
      state.beginResolution (.contradiction rest.newFrag found.row)
        (.detecting scan (rest.came .verdict) false)
    | .answered false => { state with point := .examining scan (rest.came .verdict) }
    | .thrown => { state with point := .examining scan (rest.came .unanswered) }
    | .null =>
      { state with
        point := .examining scan { rest.came .unanswered with fragOk := false } }

def judge (state : State Id) (scan : Scan Id) (examined : Examined Id) (found : Candidate Id)
    (candidates : List (Candidate Id)) (nli : NliAnswer) (gemini : GeminiAnswer)
    (pushed : Bool) : State Id :=
  let rest := { examined with candidates := candidates }
  match state.acquirePairCheck examined.newFrag.id found.row.id with
  | none => { state with point := .examining scan (rest.came .putAside) }
  | some state =>
    if scan.nliAvail then
      match nli with
      | .result true false =>
        state.beginResolution (.contradiction examined.newFrag found.row)
          (.detecting scan (rest.came .verdict) true)
      | .result false false => { state with point := .examining scan (rest.came .verdict) }
      | .thrown =>
        { state with
          point := .examining scan { (rest.came .unanswered).abandon with fragOk := false } }
      | _ => state.askGemini scan rest found gemini pushed
    else state.askGemini scan rest found gemini pushed

/-- The end of a fragment's turn.  The watermark does not go past a fragment that failed
fewer than `MAX_FRAG_FAILURES` times. -/
def settle (state : State Id) (scan : Scan Id) (examined : Examined Id) : State Id :=
  let id := examined.newFrag.id
  let failures := state.failureCounts id + 1
  let fragOk := examined.fragOk || decide (3 ≤ failures)
  { state with
    failureCounts := Function.update state.failureCounts id (if fragOk then 0 else failures)
    point := .scanning { scan with
      latestProcessed :=
        if fragOk && !scan.blocked then some (watermarkOf examined.newFrag)
        else scan.latestProcessed
      blocked := scan.blocked || !fragOk }
    history := { state.history with
      turns :=
        { id := id, failed := !examined.fragOk, outcomes := examined.outcomes } ::
          state.history.turns } }

/-- `updateContradictionTimestamp` after the last fragment. -/
def finish (state : State Id) (scan : Scan Id) (redisReady : Bool) : State Id :=
  match scan.latestProcessed with
  | none => { state with point := .idle }
  | some latest =>
    { state with
      memoryWatermark := some latest
      contradictionCheckAt :=
        if redisReady then some latest else state.contradictionCheckAt
      point := .idle }

def findRow (state : State Id) (id : Id) : Option (Fragment Id) :=
  state.fragments.rows.find? fun row => decide (row.id = id)

/-- An entry is taken and its two fragments are read, whatever has become of them. -/
def pop (state : State Id) (left : Nat) (readable requeued : Bool) : State Id :=
  match state.pendingContradictions with
  | [] => { state with point := .idle }
  | entry :: rest =>
    let popped := { state with pendingContradictions := rest }
    match popped.acquirePairCheck entry.1 entry.2 with
    | none => { popped with point := .pending left }
    | some checked =>
      if !readable then { checked.requeue entry requeued with point := .idle }
      else
        match state.findRow entry.1, state.findRow entry.2 with
        | some rowA, some rowB => { checked with point := .asking entry rowA rowB left }
        | _, _ => { checked with point := .pending left }

def verdict (state : State Id) (entry : Id × Id) (rowA rowB : Fragment Id) (left : Nat)
    (requeued : Bool) : GeminiAnswer -> State Id
  | .answered true => state.beginResolution (.contradiction rowA rowB) (.pending entry left)
  | .answered false => { state with point := .pending left }
  | .thrown => { state with point := .pending left }
  | .null => { state.requeue entry requeued with point := .idle }

/-- `SUPERSESSION_INITIAL_LOOKBACK_MS` before now -/
def initialLookback (now : Int) : Watermark Id where
  instant := (now / 1000 - 24 * 60 * 60 * 1000) * 1000
  id := none

def scanSupersessions (state : State Id) (redisReady : Bool) (now : Int) : State Id :=
  let stored := if redisReady then state.supersessionCheckAt else none
  let watermark := (stored.or state.supersessionMemoryWatermark).getD (initialLookback now)
  match scanAfter state.fragments (some watermark) 1000 with
  | [] => state
  | newFrag :: rest => { state with point := .collecting (newFrag :: rest) [] none }

/-- One lot of `SUPERSESSION_LOOKUP_BATCH` fragments; a failed look-up ends the collection. -/
def collect (state : State Id) (rest : List (Fragment Id)) (pairs : List (Pair Id))
    (latestProcessed : Option (Watermark Id)) (answer : Option (List (Pair Id))) : State Id :=
  match answer with
  | none => { state with point := .collecting [] pairs latestProcessed }
  | some found =>
    { state with
      point := .collecting (rest.drop 100) (addPairs pairs found)
        ((rest.take 100).getLast?.map watermarkOf) }

def collected (state : State Id) (pairs : List (Pair Id))
    (latestProcessed : Option (Watermark Id)) (redisReady : Bool) : State Id :=
  match latestProcessed with
  | none => { state with point := .superseding (judged pairs) }
  | some latest =>
    { state with
      supersessionMemoryWatermark := some latest
      supersessionCheckAt := if redisReady then some latest else state.supersessionCheckAt
      point := .superseding (judged pairs) }

def supersedes (state : State Id) (pair : Pair Id) (rest : List (Pair Id)) :
    GeminiAnswer -> State Id
  | .answered true => state.beginResolution (.supersession pair) (.superseding rest)
  | _ => { state with point := .superseding rest }

end State

inductive Label (Id : Type*) where
  -- what others do
  | create (row : Fragment Id)
  | embed (id : Id)
  | review (id : Id) (reviewState : Option String)
  | closeRow (id : Id) (now : Int)
  | relink (fromId toId : Id) (row : Option (LinkRow Rat))
  -- what the detector does
  | resetCheckedPairs
  | detect (redisReady nliAvail cliAvail : Bool)
  | candidates (answer : Option (List (Candidate Id)))
  | judge (nli : NliAnswer) (gemini : GeminiAnswer) (pushed : Bool)
  | settle
  | finish (redisReady : Bool)
  | processPending
  | pop (readable requeued : Bool)
  | popFails
  | verdict (gemini : GeminiAnswer) (requeued : Bool)
  | scanSupersessions (redisReady : Bool) (now : Int)
  | neighbors (answer : Option (List (Pair Id)))
  | collected (redisReady : Bool)
  | supersedes (gemini : GeminiAnswer)
  | execute (now : Int)
  | fail (requeued : Bool)

section Steps

variable {Id : Type*} [LinearOrder Id]

def embedRow (id : Id) : Table.Update (Fragment.id : Fragment Id -> Id) (fun _ => True) where
  select row := decide (row.id = id)
  image row := { row with hasEmbedding := true }
  keepsKey _ := rfl
  keepsCheck _ _ _ := trivial

def reviewRow (id : Id) (reviewState : Option String) :
    Table.Update (Fragment.id : Fragment Id -> Id) (fun _ => True) where
  select row := decide (row.id = id)
  image row := { row with reviewState := reviewState }
  keepsKey _ := rfl
  keepsCheck _ _ _ := trivial

def closeRow (id : Id) (now : Int) : Table.Update (Fragment.id : Fragment Id -> Id) (fun _ =>
    True) where
  select row := decide (row.id = id) && row.isLive
  image row := { row with validTo := some now }
  keepsKey _ := rfl
  keepsCheck _ _ _ := trivial

/-- The steps of other writers: any fragment may be added, get its embedding, be held or
released by a review, or be closed, and any link may change. -/
def otherStep (state : State Id) : Label Id -> Option (State Id)
  | .create row =>
    if hfresh : ∀ old ∈ state.fragments.rows, old.id ≠ row.id then
      some { state with fragments := state.fragments.insert row hfresh trivial }
    else none
  | .embed id => some { state with fragments := state.fragments.apply (embedRow id) }
  | .review id reviewState =>
    some { state with fragments := state.fragments.apply (reviewRow id reviewState) }
  | .closeRow id now => some { state with fragments := state.fragments.apply (closeRow id now) }
  | .relink fromId toId row =>
    some { state with links := Function.update state.links (fromId, toId) row }
  | _ => none

def detectorStep (state : State Id) : Point Id -> Label Id -> Option (State Id)
  | .idle, .resetCheckedPairs => some { state with checkedPairs := fun _ => 0 }
  | .idle, .detect redisReady nliAvail cliAvail => some (state.detect redisReady nliAvail cliAvail)
  | .scanning scan, .candidates answer =>
    match scan.rest with
    | [] => none
    | newFrag :: rest =>
      if ∀ found, answer = some found ->
          IsAnswer state.fragments state.links newFrag found then
        some (state.examine { scan with rest := rest } newFrag answer)
      else none
  | .examining scan examined, .judge nli gemini pushed =>
    match examined.candidates with
    | [] => none
    | found :: rest => some (state.judge scan examined found rest nli gemini pushed)
  | .examining scan examined, .settle =>
    match examined.candidates with
    | [] => some (state.settle scan examined)
    | _ :: _ => none
  | .scanning scan, .finish redisReady =>
    match scan.rest with
    | [] => some (state.finish scan redisReady)
    | _ :: _ => none
  | .idle, .processPending => some { state with point := .pending 10 }
  | .pending left, .pop readable requeued =>
    match left with
    | 0 => some { state with point := .idle }
    | left + 1 => some (state.pop left readable requeued)
  | .pending _, .popFails => some { state with point := .idle }
  | .asking entry rowA rowB left, .verdict gemini requeued =>
    some (state.verdict entry rowA rowB left requeued gemini)
  | .idle, .scanSupersessions redisReady now => some (state.scanSupersessions redisReady now)
  | .collecting rest pairs latestProcessed, .neighbors answer =>
    if rest ≠ [] /\ ∀ found, answer = some found ->
        AreNeighbors state.fragments state.links (rest.take 100) found then
      some (state.collect rest pairs latestProcessed answer)
    else none
  | .collecting [] pairs latestProcessed, .collected redisReady =>
    some (state.collected pairs latestProcessed redisReady)
  | .superseding rest, .supersedes gemini =>
    match rest with
    | [] => some { state with point := .idle }
    | pair :: rest => some (state.supersedes pair rest gemini)
  | .resolving resolution statement caller, .execute now =>
    some (state.execute resolution statement caller now)
  | .resolving _ _ caller, .fail requeued => some (state.caught caller requeued)
  | _, _ => none

def step (state : State Id) (label : Label Id) : Option (State Id) :=
  (otherStep state label).or (detectorStep state state.point label)

/-- A process that has just started, over whatever fragments, links, watermarks, and
queued pairs it finds. -/
structure Fresh (state : State Id) : Prop where
  point : state.point = .idle
  memoryWatermark : state.memoryWatermark = none
  supersessionMemoryWatermark : state.supersessionMemoryWatermark = none
  failureCounts : ∀ id, state.failureCounts id = 0
  checkedPairs : ∀ key, state.checkedPairs key = 0
  queued : ∀ entry ∈ state.pendingContradictions, entry.1 ≠ entry.2
  superseded : state.history.superseded = []
  closings : state.history.closings = []
  readings : state.history.readings = []

def detectorSystem (Id : Type*) [LinearOrder Id] : System (State Id) (Label Id) where
  start := Fresh
  step := fun before label after => step before label = some after

end Steps

def sampleFragment (id : Nat) : Fragment Nat where
  id := id
  topic := "ports"
  type := "fact"
  keyId := none
  createdAt := 5000
  mentionTime := none
  hasEmbedding := true
  reviewState := none
  isAnchor := false
  importance := 1 / 2
  validTo := none

def sampleState : State Nat where
  fragments := { rows := [sampleFragment 1, sampleFragment 2], keysNodup := by decide,
                 checked := fun _ _ => trivial }
  links := fun _ => none
  contradictionCheckAt := none
  supersessionCheckAt := none
  pendingContradictions := []
  memoryWatermark := none
  supersessionMemoryWatermark := none
  failureCounts := fun _ => 0
  checkedPairs := fun _ => 0
  point := .idle
  history := {}

theorem sampleState_fresh : Fresh sampleState where
  point := rfl
  memoryWatermark := rfl
  supersessionMemoryWatermark := rfl
  failureCounts _ := rfl
  checkedPairs _ := rfl
  queued _ hentry := absurd hentry List.not_mem_nil
  superseded := rfl
  closings := rfl
  readings := rfl

end AnchorMind.Link.ContradictionDetector
