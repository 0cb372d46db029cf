import AnchorMind.Kernel.SortedRows
import AnchorMind.Recall.Tokens

/-!
# Budget selection

A recall fills a token budget.  The search-order cut is the baseline; a greedy
pass and a pass seeded with the baseline compete on estimated counts; the winner
is counted exactly, trimmed, and compared with the baseline once more.  Scores
live in any rounded order with the arithmetic the gain needs.
-/

namespace AnchorMind.Recall.BudgetSelector

open Kernel.RoundedSum Recall.Tokens

/-- The arithmetic of scores. -/
class Score (Value : Type*) extends RoundedOrder Value, One Value, Sub Value, Mul Value,
    Div Value, NatCast Value

instance : Score Rat where

scoped instance lawfulBEq {Id : Type*} [LinearOrder Id] : LawfulBEq Id := inferInstance

def rankCandidateLimit : Nat := 200
def selectionPoolMax : Nat := 600

def mmrLambda (Value : Type*) [Score Value] : Value := ((7 : Nat) : Value) / ((10 : Nat) : Value)

inductive Section where
  | exact
  | supplement
  | linked
  | search
  deriving DecidableEq

def sectionOrder : List Section := [.exact, .supplement, .linked, .search]

inductive Strategy where
  | all
  | greedy
  | baseline
  | baselineOnly
  | baselineFallback
  deriving DecidableEq

section

variable {Id : Type*} [DecidableEq Id]

/-- The shares of the budget tagged fragments may claim first. -/
structure Ranking where
  exactSlotShare : Rat := 1 / 2
  semanticSlotShare : Rat := 1 / 4

structure Picked (Id : Type*) where
  used : Nat
  picked : List Id

def Picked.take (state : Picked Id) (f : Fragment Id) (tokens : Nat) : Picked Id :=
  { used := state.used + tokens, picked := state.picked ++ [f.id] }

def cutPrefix (counter : TokenCounter) (measure : Measure Id) (tokenBudget : Rat) :
    List (Fragment Id) -> Nat -> List (Fragment Id)
  | [], _ => []
  | f :: rest, used =>
    match fitTokens counter measure f used tokenBudget with
    | none => []
    | some tokens => f :: cutPrefix counter measure tokenBudget rest (used + tokens)

def pickExact (counter : TokenCounter) (measure : Measure Id) (share : Rat) :
    List (Fragment Id) -> Picked Id -> Picked Id
  | [], state => state
  | f :: rest, state =>
    if f.kwExact then
      match fitTokens counter measure f state.used share with
      | none => state
      | some tokens => pickExact counter measure share rest (state.take f tokens)
    else pickExact counter measure share rest state

def pickSupplement (counter : TokenCounter) (measure : Measure Id) (share tokenBudget : Rat) :
    List (Fragment Id) -> Nat -> Picked Id -> Picked Id
  | [], _, state => state
  | f :: rest, semUsed, state =>
    if f.id ∈ state.picked ∨ f.kwSupplement = false then
      pickSupplement counter measure share tokenBudget rest semUsed state
    else
      match fitTokens counter measure f semUsed share with
      | none => state
      | some tokens =>
        if tokenBudget < (state.used + tokens : Nat) then state
        else
          pickSupplement counter measure share tokenBudget rest (semUsed + tokens)
            (state.take f tokens)

/-- Stage three: whatever still fits, in order. -/
def pickRest (counter : TokenCounter) (measure : Measure Id) (tokenBudget : Rat) :
    List (Fragment Id) -> Picked Id -> Picked Id
  | [], state => state
  | f :: rest, state =>
    if f.id ∈ state.picked then pickRest counter measure tokenBudget rest state
    else
      match fitTokens counter measure f state.used tokenBudget with
      | none => pickRest counter measure tokenBudget rest state
      | some tokens => pickRest counter measure tokenBudget rest (state.take f tokens)

def hasTags (fragments : List (Fragment Id)) : Bool :=
  fragments.any fun f => f.kwExact || f.kwSupplement

def trimInSearchOrder (counter : TokenCounter) (fragments : List (Fragment Id))
    (tokenBudget : Rat) (ranking : Ranking) (measure : Measure Id) : List (Fragment Id) :=
  if hasTags fragments then
    let exact := pickExact counter measure (tokenBudget * ranking.exactSlotShare) fragments
      ⟨0, []⟩
    let supplement := pickSupplement counter measure (tokenBudget * ranking.semanticSlotShare)
      tokenBudget fragments 0 exact
    let all := pickRest counter measure tokenBudget fragments supplement
    fragments.filter fun f => f.id ∈ all.picked
  else cutPrefix counter measure tokenBudget fragments 0

structure Partition (Id : Type*) where
  candidates : List (Fragment Id)
  baselineIds : List Id
  counts : Counts Id

def isCurrent (includeSuperseded : Bool) (f : Fragment Id) : Bool :=
  includeSuperseded || f.validTo.isNone

def partitionOverBudget (counter : TokenCounter) (ordered : List (Fragment Id)) (budget : Rat)
    (includeSuperseded : Bool) (limit : Nat) (counts : Counts Id) : Partition Id :=
  let counts := countPrefixExactly counter budget ordered 0 counts
  let baseline := (trimInSearchOrder counter ordered budget {}
    (.estimate (estimateTokens counts))).filter (isCurrent includeSuperseded)
  let capped := ordered.take limit
  { candidates := capped.filter (isCurrent includeSuperseded) ++
      baseline.filter fun f => f.id ∉ capped.map Fragment.id
    baselineIds := baseline.map Fragment.id
    counts := counts }

def partitionCandidates (counter : TokenCounter) (ordered : List (Fragment Id)) (budget : Rat)
    (includeSuperseded : Bool) (limit : Nat) (counts : Counts Id) : Partition Id :=
  let current := ordered.filter (isCurrent includeSuperseded)
  match exceedsBudget counter current budget counts with
  | (false, counts) =>
    { candidates := current, baselineIds := current.map Fragment.id, counts := counts }
  | (true, counts) => partitionOverBudget counter ordered budget includeSuperseded limit counts

end

section

variable {Id : Type*}

def sectionOf (f : Fragment Id) : Section :=
  if f.kwExact then .exact
  else if f.kwSupplement then .supplement
  else if f.linked then .linked
  else .search

variable {Value : Type*} [Score Value]

/-- Shared keywords over the longer list; zero where one side has none. -/
def keywordOverlap (a b : Fragment Id) : Value :=
  match a.keywords, b.keywords with
  | some (x :: xs), some (y :: ys) =>
    let intersect := (y :: ys).countP fun k => k ∈ x :: xs
    (intersect : Value) / (max (x :: xs).length (y :: ys).length : Nat)
  | _, _ => 0

def pairSimilarity (a b : Fragment Id) : Value :=
  if a.similarity = none ∨ b.similarity = none then 0 else keywordOverlap a b

/-- A candidate prepared for the selection. -/
structure Item (Id Value : Type*) where
  index : Nat
  fragment : Fragment Id
  tokens : Nat
  score : Value
  tier : Nat
  kwSet : Option (List String)

def Item.key (item : Item Id Value) : Id := item.fragment.id
def Item.section (item : Item Id Value) : Section := sectionOf item.fragment

def kwSetOf (f : Fragment Id) : Option (List String) :=
  if f.similarity = none then none
  else
    match f.keywords with
    | some (k :: ks) => some (k :: ks)
    | _ => none

def itemSimilarity (a b : Item Id Value) : Value :=
  match a.kwSet, b.kwSet with
  | some left, some right =>
    let intersect := right.countP fun k => k ∈ left
    (intersect : Value) / (max left.length right.length : Nat)
  | _, _ => 0

def usableScore (raw : Option Value) : Value :=
  match raw with
  | some score => if 0 < score then score else 0
  | none => 0

theorem usableScore_nonneg (raw : Option Value) : 0 ≤ usableScore raw := by
  cases raw with
  | none => exact le_refl 0
  | some score =>
    by_cases hpos : 0 < score
    · simpa [usableScore, hpos] using hpos.le
    · simp [usableScore, hpos]

end

section

variable {Id Value : Type*} [LinearOrder Id] [Score Value]

def byScoreThenId (a b : Item Id Value) : Ordering :=
  (compare a.tier b.tier).then ((compare b.score a.score).then (compare a.key b.key))

/-- The best candidate of a scan, with its gain per token. -/
abbrev Best (Id Value : Type*) := Option (Item Id Value × Value)

def betterFillCandidate (item : Item Id Value) (key : Value) : Best Id Value -> Bool
  | none => true
  | some (best, bestKey) =>
    if item.tier ≠ best.tier then decide (item.tier < best.tier)
    else decide (bestKey < key) || (decide (key = bestKey) && byScoreThenId item best == .lt)

/-- A solution under construction. -/
structure Build (Id Value : Type*) where
  chosen : List (Item Id Value)
  taken : Nat -> Bool
  maxSim : Nat -> Value
  used : Nat

def Build.start : Build Id Value :=
  { chosen := [], taken := fun _ => false, maxSim := fun _ => 0, used := 0 }

def raiseSimilarity (taken : Nat -> Bool) (item : Item Id Value) (maxSim : Nat -> Value)
    (other : Item Id Value) : Nat -> Value :=
  if taken other.index then maxSim
  else
    let sim := itemSimilarity other item
    if maxSim other.index < sim then Function.update maxSim other.index sim else maxSim

def Build.take (items : List (Item Id Value)) (state : Build Id Value) (item : Item Id Value) :
    Build Id Value :=
  let taken := Function.update state.taken item.index true
  { chosen := state.chosen ++ [item]
    taken := taken
    maxSim :=
      match item.kwSet with
      | none => state.maxSim
      | some _ => items.foldl (raiseSimilarity taken item) state.maxSim
    used := state.used + item.tokens }

def Build.fits (budget : Rat) (state : Build Id Value) (item : Item Id Value) : Bool :=
  !state.taken item.index && decide ((state.used + item.tokens : Nat) ≤ budget)

def bestOfSection (budget : Rat) (state : Build Id Value) (sec : Section)
    (items : List (Item Id Value)) : Option (Item Id Value) :=
  items.foldl (fun best item =>
    if item.section = sec ∧ 0 < item.score ∧ state.fits budget item then
      match best with
      | none => some item
      | some other => if byScoreThenId item other = .lt then some item else best
    else best) none

def representSections (items : List (Item Id Value)) (budget : Rat) (represented : List Section)
    (state : Build Id Value) : Build Id Value :=
  sectionOrder.foldl (fun state sec =>
    if sec ∈ represented then state
    else
      match bestOfSection budget state sec items with
      | none => state
      | some best => state.take items best) state

def fillKey (lambda : Value) (state : Build Id Value) (item : Item Id Value) : Value :=
  let gain := lambda * item.score - (1 - lambda) * state.maxSim item.index
  gain / ((max item.tokens 1 : Nat) : Value)

/-- The fitting item with the largest gain per token. -/
def bestFill (budget : Rat) (lambda : Value) (state : Build Id Value)
    (items : List (Item Id Value)) : Best Id Value :=
  items.foldl (fun best item =>
    if state.fits budget item then
      let key := fillKey lambda state item
      if betterFillCandidate item key best then some (item, key) else best
    else best) none

def fill (items : List (Item Id Value)) (budget : Rat) (lambda : Value) :
    Nat -> Build Id Value -> Build Id Value
  | 0, state => state
  | rounds + 1, state =>
    match bestFill budget lambda state items with
    | none => state
    | some (best, _) => fill items budget lambda rounds (state.take items best)

def scoreSumById (items : List (Item Id Value)) : Value :=
  sumByKey Item.key Item.score items

def buildSolution (items : List (Item Id Value)) (budget : Rat) (seed : List (Item Id Value))
    (lambda : Value) : Build Id Value :=
  let seeded := seed.foldl (Build.take items) Build.start
  let represented := seeded.chosen.map Item.section
  fill items budget lambda items.length (representSections items budget represented seeded)

structure Selection (Id Value : Type*) where
  selectedIds : List Id
  strategy : Strategy
  tokens : Nat
  score : Option Value

def itemOf (utilityOf : Fragment Id -> Option Value) (tierOf : Fragment Id -> Nat)
    (tokensOf : Fragment Id -> Nat) (index : Nat) (f : Fragment Id) : Item Id Value :=
  { index := index
    fragment := f
    tokens := tokensOf f
    score := usableScore (utilityOf f)
    tier := tierOf f
    kwSet := kwSetOf f }

def selectWithinBudget (pool : List (Fragment Id)) (budget : Rat)
    (utilityOf : Fragment Id -> Option Value) (tierOf : Fragment Id -> Nat)
    (baselineIds : List Id) (lambda : Value) (tokensOf : Fragment Id -> Nat) :
    Selection Id Value :=
  if selectionPoolMax < pool.length then
    let kept := pool.filter fun f => f.id ∈ baselineIds
    { selectedIds := kept.map Fragment.id, strategy := .baselineOnly
      tokens := (kept.map tokensOf).sum, score := none }
  else
    let items := pool.mapIdx (itemOf utilityOf tierOf tokensOf)
    let totalTokens := (items.map Item.tokens).sum
    if totalTokens ≤ budget then
      { selectedIds := pool.map Fragment.id, strategy := .all
        tokens := totalTokens, score := some (scoreSumById items) }
    else
      let greedy := buildSolution items budget [] lambda
      let seed := items.filter fun item => item.fragment.id ∈ baselineIds
      let seedTokens := (seed.map Item.tokens).sum
      let baseline :=
        if seed ≠ [] ∧ seedTokens ≤ budget then some (buildSolution items budget seed lambda)
        else none
      let (picked, strategy) : Build Id Value × Strategy := match baseline with
        | some solution =>
          if scoreSumById greedy.chosen < scoreSumById solution.chosen
          then (solution, .baseline) else (greedy, .greedy)
        | none => (greedy, .greedy)
      { selectedIds := picked.chosen.map Item.key, strategy := strategy
        tokens := picked.used, score := some (scoreSumById picked.chosen) }

end

section

variable {Id Value : Type*} [LinearOrder Id] [Score Value]

structure Entry (Id Value : Type*) where
  fragment : Fragment Id
  score : Value
  tokens : Nat
  rank : Nat
  density : Value

def entryOf (counter : TokenCounter) (scoreOf : Fragment Id -> Option Value)
    (protectedItems : List Id) (f : Fragment Id) : Entry Id Value :=
  let score := (scoreOf f).getD 0
  let tokens := fragmentTokens counter f
  { fragment := f
    score := score
    tokens := tokens
    rank := if f.id ∈ protectedItems then 1 else 0
    density := score / ((max tokens 1 : Nat) : Value) }

def dropOrder (a b : Entry Id Value) : Ordering :=
  (compare a.rank b.rank).then ((compare a.density b.density).then
    ((compare a.score b.score).then (compare b.fragment.id a.fragment.id)))

def dropUntilFits (budget : Rat) : List (Entry Id Value) -> Nat -> List (Entry Id Value) × Nat
  | [], tokens => ([], tokens)
  | entry :: rest, tokens =>
    if tokens ≤ budget then ([], tokens)
    else
      let (dropped, left) := dropUntilFits budget rest (tokens - entry.tokens)
      (entry :: dropped, left)

structure Verified (Id : Type*) where
  kept : List (Fragment Id)
  dropped : List (Fragment Id)
  tokens : Nat

def entriesOf (counter : TokenCounter) (selected : List (Fragment Id))
    (scoreOf : Fragment Id -> Option Value) (protectedItems : List Id) : List (Entry Id Value) :=
  selected.map (entryOf counter scoreOf protectedItems)

def totalOf (entries : List (Entry Id Value)) : Nat := (entries.map Entry.tokens).sum

def inDropOrder (entries : List (Entry Id Value)) : List (Entry Id Value) :=
  entries.insertionSort fun a b => dropOrder a b ≠ .gt

def Verified.without (selected : List (Fragment Id)) (result : List (Entry Id Value) × Nat) :
    Verified Id :=
  let dropped := result.1.map fun entry => entry.fragment.id
  { kept := selected.filter fun f => f.id ∉ dropped
    dropped := selected.filter fun f => f.id ∈ dropped
    tokens := result.2 }

def verifyExactBudget (counter : TokenCounter) (selected : List (Fragment Id)) (budget : Rat)
    (scoreOf : Fragment Id -> Option Value) (protectedItems : List Id) : Verified Id :=
  if totalOf (entriesOf counter selected scoreOf protectedItems) ≤ budget then
    { kept := selected, dropped := []
      tokens := totalOf (entriesOf counter selected scoreOf protectedItems) }
  else
    Verified.without selected
      (dropUntilFits budget (inDropOrder (entriesOf counter selected scoreOf protectedItems))
        (totalOf (entriesOf counter selected scoreOf protectedItems)))

def exactScoreSum (fragments : List (Fragment Id)) (scoreOf : Fragment Id -> Option Value) :
    Value :=
  sumByKey Fragment.id (fun f => (scoreOf f).getD 0) fragments

/-- What `recall` gets from the selection. -/
structure RecallSelection (Id : Type*) where
  selectedIds : List Id
  strategy : Strategy
  tokens : Option Nat
  dropped : Nat

def selectedOf (pool : List (Fragment Id)) (selection : RecallSelection Id) :
    List (Fragment Id) :=
  pool.filter fun f => f.id ∈ selection.selectedIds

def utility (rawUtility : Fragment Id -> Option Value) (f : Fragment Id) : Option Value :=
  some (usableScore (rawUtility f))

def countAll (counter : TokenCounter) (fragments : List (Fragment Id)) (counts : Counts Id) :
    Counts Id :=
  fragments.foldl (fun counts f => counts.set f (fragmentTokens counter f)) counts

def baselineItems (pool : List (Fragment Id)) (baselineIds : List Id) : List (Fragment Id) :=
  pool.filter fun f => f.id ∈ baselineIds

def confirmedBaseline (counter : TokenCounter) (pool : List (Fragment Id)) (budget : Rat)
    (rawUtility : Fragment Id -> Option Value) (baselineIds : List Id) : Verified Id :=
  verifyExactBudget counter (baselineItems pool baselineIds) budget (utility rawUtility) []

def RecallSelection.ofVerified (strategy : Strategy) (dropped : Nat) (verified : Verified Id) :
    RecallSelection Id :=
  { selectedIds := verified.kept.map Fragment.id, strategy := strategy
    tokens := some verified.tokens, dropped := dropped }

def selectOverBudget (counter : TokenCounter) (pool : List (Fragment Id)) (budget : Rat)
    (rawUtility : Fragment Id -> Option Value) (tierOf : Fragment Id -> Nat)
    (baselineIds : List Id) (poolLimit : Nat) (counts : Counts Id) : RecallSelection Id :=
  let baseline := confirmedBaseline counter pool budget rawUtility baselineIds
  if poolLimit < pool.length then .ofVerified .baselineOnly baseline.dropped.length baseline
  else
    let baseIds := baseline.kept.map Fragment.id
    let selection := selectWithinBudget pool budget (utility rawUtility) tierOf baseIds
      (mmrLambda Value) (estimateTokens counts)
    let picked := pool.filter fun f => f.id ∈ selection.selectedIds
    let verified := verifyExactBudget counter picked budget (utility rawUtility) baseIds
    if exactScoreSum verified.kept (utility rawUtility)
        < exactScoreSum baseline.kept (utility rawUtility) then
      .ofVerified .baselineFallback verified.dropped.length baseline
    else .ofVerified selection.strategy verified.dropped.length verified

def selectForRecall (counter : TokenCounter) (pool : List (Fragment Id)) (budget : Rat)
    (rawUtility : Fragment Id -> Option Value) (tierOf : Fragment Id -> Nat)
    (baselineIds : List Id) (poolLimit : Nat) (counts : Counts Id) :
    RecallSelection Id × Counts Id :=
  match exceedsBudget counter pool budget counts with
  | (false, counts) =>
    ({ selectedIds := pool.map Fragment.id, strategy := .all, tokens := none, dropped := 0 },
      counts)
  | (true, counts) =>
    let counts := countAll counter (baselineItems pool baselineIds) counts
    (selectOverBudget counter pool budget rawUtility tierOf baselineIds poolLimit counts, counts)

end

end AnchorMind.Recall.BudgetSelector
