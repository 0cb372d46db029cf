import AnchorMind.Recall.BudgetBounds
import AnchorMind.Recall.Construction

/-!
# What the selection within a budget promises

For a pool small enough to construct solutions for, the selected fragments fit
the budget in the numbers given, nothing left out still fits, and the score is
at least that of the construction seeded with the baseline.  Beyond the pool
limit the baseline is handed back as it is.
-/

namespace AnchorMind.Recall.WithinBudget

open Kernel.RoundedSum Recall.Tokens Recall.BudgetSelector List
open Recall.BudgetBounds (filter_mem_ids)
open Recall.Construction

section

variable {Id Value : Type*} [Score Value] (pool : List (Fragment Id))
  (utilityOf : Fragment Id -> Option Value) (tierOf tokensOf : Fragment Id -> Nat)

def itemsOf : List (Item Id Value) := pool.mapIdx (itemOf utilityOf tierOf tokensOf)

theorem itemsOf_index :
    (itemsOf pool utilityOf tierOf tokensOf).map Item.index = range pool.length := by
  refine ext_getElem (by simp [itemsOf]) fun i _ _ => ?_
  simp [itemsOf, itemOf]

theorem itemsOf_fragment : (itemsOf pool utilityOf tierOf tokensOf).map Item.fragment = pool := by
  refine ext_getElem (by simp [itemsOf]) fun i _ _ => ?_
  simp [itemsOf, itemOf]

theorem itemsOf_key :
    (itemsOf pool utilityOf tierOf tokensOf).map Item.key = pool.map Fragment.id := by
  conv_rhs => rw [← itemsOf_fragment pool utilityOf tierOf tokensOf, map_map]
  rfl

theorem itemsOf_index_nodup : ((itemsOf pool utilityOf tierOf tokensOf).map Item.index).Nodup := by
  rw [itemsOf_index]
  exact nodup_range

variable {pool utilityOf tierOf tokensOf}

theorem of_mem_itemsOf {item : Item Id Value}
    (hitem : item ∈ itemsOf pool utilityOf tierOf tokensOf) :
    item = itemOf utilityOf tierOf tokensOf item.index item.fragment := by
  obtain ⟨i, hi, rfl⟩ := mem_mapIdx.mp hitem
  rfl

theorem tokens_of_subset {chosen : List (Item Id Value)}
    (hsubset : chosen ⊆ itemsOf pool utilityOf tierOf tokensOf) :
    tokenSum chosen = ((chosen.map Item.fragment).map tokensOf).sum := by
  rw [tokenSum, map_map]
  refine congrArg sum (map_congr_left fun item hitem => ?_)
  exact congrArg Item.tokens (of_mem_itemsOf (hsubset hitem))

end

section

variable {Id Value : Type*} [LinearOrder Id] [Score Value] {pool : List (Fragment Id)}
  {utilityOf : Fragment Id -> Option Value} {tierOf tokensOf : Fragment Id -> Nat}

def selectedFragments (pool : List (Fragment Id)) (selectedIds : List Id) :
    List (Fragment Id) :=
  pool.filter fun f => f.id ∈ selectedIds

def scoreOfSet (utilityOf : Fragment Id -> Option Value) (fragments : List (Fragment Id)) :
    Value :=
  sumByKey Fragment.id (fun f => usableScore (utilityOf f)) fragments

variable {chosen : List (Item Id Value)}

theorem selectedFragments_perm (hids : (pool.map Fragment.id).Nodup)
    (hsub : chosen.Subperm (itemsOf pool utilityOf tierOf tokensOf)) :
    (selectedFragments pool (chosen.map Item.key)).Perm (chosen.map Item.fragment) := by
  obtain ⟨middle, hperm, hmiddle⟩ := hsub
  have hsublist : (middle.map Item.fragment).Sublist pool := by
    have hmapped := hmiddle.map Item.fragment
    rwa [itemsOf_fragment] at hmapped
  have hsame : selectedFragments pool (chosen.map Item.key) = middle.map Item.fragment := by
    rw [← filter_mem_ids hsublist hids, selectedFragments]
    refine filter_congr fun f _ => decide_eq_decide.mpr ?_
    rw [map_map]
    exact ((hperm.map Item.key).mem_iff).symm
  rw [hsame]
  exact hperm.map Item.fragment

theorem scoreSumById_eq (hsubset : chosen ⊆ itemsOf pool utilityOf tierOf tokensOf) :
    scoreSumById chosen = scoreOfSet utilityOf (chosen.map Item.fragment) := by
  rw [scoreOfSet, sumByKey_map]
  exact sumByKey_congr fun item hitem => congrArg Item.score (of_mem_itemsOf (hsubset hitem))

theorem scoreOfSet_selected (hids : (pool.map Fragment.id).Nodup)
    (hsub : chosen.Subperm (itemsOf pool utilityOf tierOf tokensOf)) :
    scoreOfSet utilityOf (selectedFragments pool (chosen.map Item.key)) = scoreSumById chosen := by
  have hperm := selectedFragments_perm hids hsub
  have hkeys : ((chosen.map Item.fragment).map Fragment.id).Nodup := by
    rw [← (hperm.map Fragment.id).nodup_iff]
    exact (filter_sublist.map Fragment.id).nodup hids
  rw [scoreSumById_eq hsub.subset]
  exact sumByKey_eq_of_perm hperm hkeys

end

section

variable {Id Value : Type*} [LinearOrder Id] [Score Value] (pool : List (Fragment Id))
  (budget : Rat) (utilityOf : Fragment Id -> Option Value) (tierOf : Fragment Id -> Nat)
  (baselineIds : List Id) (lambda : Value) (tokensOf : Fragment Id -> Nat)

def seedItems : List (Item Id Value) :=
  (itemsOf pool utilityOf tierOf tokensOf).filter fun item => item.fragment.id ∈ baselineIds

def baselineConstruction : Build Id Value :=
  buildSolution (itemsOf pool utilityOf tierOf tokensOf) budget
    (seedItems pool utilityOf tierOf baselineIds tokensOf) lambda

structure Settled (selectedIds : List Id) : Prop where
  within : (((selectedFragments pool selectedIds).map tokensOf).sum : Rat) ≤ budget
  maximal : ∀ f ∈ pool, f.id ∉ selectedIds ->
    budget < (((selectedFragments pool selectedIds).map tokensOf).sum + tokensOf f : Nat)
  baseline : ((tokenSum (seedItems pool utilityOf tierOf baselineIds tokensOf) : Nat) : Rat)
      ≤ budget ->
    scoreSumById (baselineConstruction pool budget utilityOf tierOf baselineIds lambda
        tokensOf).chosen
      ≤ scoreOfSet utilityOf (selectedFragments pool selectedIds)

variable {pool budget utilityOf tierOf baselineIds lambda tokensOf}

section

variable (hids : (pool.map Fragment.id).Nodup)
include hids

variable {chosen : List (Item Id Value)}

theorem settled_of_chosen (hsub : chosen.Subperm (itemsOf pool utilityOf tierOf tokensOf))
    (hwithin : (tokenSum chosen : Rat) ≤ budget)
    (hmaximal : ∀ item ∈ itemsOf pool utilityOf tierOf tokensOf, item ∉ chosen ->
      budget < (tokenSum chosen + item.tokens : Nat))
    (hbaseline : ((tokenSum (seedItems pool utilityOf tierOf baselineIds tokensOf) : Nat) : Rat)
        ≤ budget ->
      scoreSumById (baselineConstruction pool budget utilityOf tierOf baselineIds lambda
        tokensOf).chosen ≤ scoreSumById chosen) :
    Settled pool budget utilityOf tierOf baselineIds lambda tokensOf (chosen.map Item.key) := by
  have hsum : ((selectedFragments pool (chosen.map Item.key)).map tokensOf).sum
      = tokenSum chosen := by
    rw [tokens_of_subset hsub.subset]
    exact ((selectedFragments_perm hids hsub).map tokensOf).sum_eq
  refine ⟨?_, ?_, ?_⟩
  · rw [hsum]
    exact hwithin
  · intro f hf hout
    rw [← itemsOf_fragment pool utilityOf tierOf tokensOf] at hf
    obtain ⟨item, hitem, rfl⟩ := mem_map.mp hf
    have hfresh : item ∉ chosen := fun hmem => hout (mem_map_of_mem hmem)
    have htokens : item.tokens = tokensOf item.fragment :=
      congrArg Item.tokens (of_mem_itemsOf hitem)
    rw [hsum, ← htokens]
    exact hmaximal item hitem hfresh
  · rw [scoreOfSet_selected hids hsub]
    exact hbaseline

theorem scoreSumById_le_items (hsub : chosen.Subperm (itemsOf pool utilityOf tierOf tokensOf)) :
    scoreSumById chosen ≤ scoreSumById (itemsOf pool utilityOf tierOf tokensOf) := by
  refine sumByKey_le_of_subperm hsub ?_ fun item hitem => ?_
  · rw [itemsOf_key]
    exact hids
  · rw [of_mem_itemsOf hitem]
    exact usableScore_nonneg _

theorem settled_of_construction {seed : List (Item Id Value)}
    (hseed : seed.Sublist (itemsOf pool utilityOf tierOf tokensOf))
    (hfits : (tokenSum seed : Rat) ≤ budget)
    (hbaseline : ((tokenSum (seedItems pool utilityOf tierOf baselineIds tokensOf) : Nat) : Rat)
        ≤ budget ->
      scoreSumById (baselineConstruction pool budget utilityOf tierOf baselineIds lambda
          tokensOf).chosen
        ≤ scoreSumById (buildSolution (itemsOf pool utilityOf tierOf tokensOf) budget seed
            lambda).chosen) :
    Settled pool budget utilityOf tierOf baselineIds lambda tokensOf
      ((buildSolution (itemsOf pool utilityOf tierOf tokensOf) budget seed lambda).chosen.map
        Item.key) := by
  obtain ⟨hwithin, hmaximal⟩ := buildSolution_spec lambda
    (itemsOf_index_nodup pool utilityOf tierOf tokensOf) hseed hfits
  refine settled_of_chosen hids (subperm_of_subset hwithin.nodup hwithin.subset) ?_ ?_
    hbaseline
  · rw [← hwithin.used]
    exact hwithin.within
  · rw [← hwithin.used]
    exact hmaximal

end

variable (pool budget utilityOf tierOf baselineIds lambda tokensOf)

/-- The construction a selection over the budget ends with: the one seeded with
the baseline where it was built and scores more, the greedy one otherwise. -/
def winner : Build Id Value :=
  let items := itemsOf pool utilityOf tierOf tokensOf
  let seed := seedItems pool utilityOf tierOf baselineIds tokensOf
  let greedy := buildSolution items budget [] lambda
  let solution := buildSolution items budget seed lambda
  if (seed ≠ [] ∧ (tokenSum seed : Rat) ≤ budget) ∧
      scoreSumById greedy.chosen < scoreSumById solution.chosen then solution
  else greedy

theorem better_fst (greedy solution : Build Id Value) (built : Prop) [Decidable built] :
    (match (if built then some solution else none) with
      | some solution =>
        if scoreSumById greedy.chosen < scoreSumById solution.chosen
        then (solution, Strategy.baseline) else (greedy, Strategy.greedy)
      | none => (greedy, Strategy.greedy)).1 =
      if built ∧ scoreSumById greedy.chosen < scoreSumById solution.chosen then solution
      else greedy := by
  by_cases hbuilt : built
  · by_cases hless : scoreSumById greedy.chosen < scoreSumById solution.chosen <;>
      simp [hbuilt, hless]
  · simp [hbuilt]

theorem selectedIds_of_size (hsize : pool.length ≤ selectionPoolMax) :
    (selectWithinBudget pool budget utilityOf tierOf baselineIds lambda tokensOf).selectedIds =
      if (tokenSum (itemsOf pool utilityOf tierOf tokensOf : List (Item Id Value)) : Rat) ≤ budget
      then
        pool.map Fragment.id
      else
        (winner pool budget utilityOf tierOf baselineIds lambda tokensOf).chosen.map Item.key := by
  rw [selectWithinBudget, if_neg (not_lt.mpr hsize)]
  change (if (tokenSum (itemsOf pool utilityOf tierOf tokensOf) : Rat) ≤ budget then _ else _ :
    Selection Id Value).selectedIds = _
  split
  · rfl
  · refine congrArg (fun build : Build Id Value => build.chosen.map Item.key) ?_
    exact better_fst _ _ _

variable {pool budget utilityOf tierOf baselineIds lambda tokensOf}

/-- The winner is one of the two constructions, and scores at least the seeded
one where that was built. -/
theorem winner_settled (hbudget : 0 ≤ budget) (hids : (pool.map Fragment.id).Nodup) :
    Settled pool budget utilityOf tierOf baselineIds lambda tokensOf
      ((winner pool budget utilityOf tierOf baselineIds lambda tokensOf).chosen.map Item.key) := by
  have hseed : (seedItems pool utilityOf tierOf baselineIds tokensOf : List (Item Id Value)).Sublist
      (itemsOf pool utilityOf tierOf tokensOf) := filter_sublist
  unfold winner
  dsimp only
  split
  · rename_i hwins
    exact settled_of_construction hids hseed hwins.1.2 fun _ => le_refl _
  · rename_i hloses
    refine settled_of_construction hids (nil_sublist _) (by simpa [tokenSum]) fun hfits => ?_
    by_cases hempty : (seedItems pool utilityOf tierOf baselineIds tokensOf :
        List (Item Id Value)) = []
    · rw [baselineConstruction, hempty]
    · exact not_lt.mp fun hless => hloses ⟨⟨hempty, hfits⟩, hless⟩

/-- Up to the pool limit, and for distinct ids, a selection stays within the
budget, leaves out nothing that still fits, and scores at least the construction
seeded with the baseline. -/
theorem selectWithinBudget_settled (hbudget : 0 ≤ budget) (hids : (pool.map Fragment.id).Nodup)
    (hsize : pool.length ≤ selectionPoolMax) :
    Settled pool budget utilityOf tierOf baselineIds lambda tokensOf
      (selectWithinBudget pool budget utilityOf tierOf baselineIds lambda
        tokensOf).selectedIds := by
  rw [selectedIds_of_size pool budget utilityOf tierOf baselineIds lambda tokensOf hsize]
  split
  · rename_i hall
    rw [← itemsOf_key pool utilityOf tierOf tokensOf]
    refine settled_of_chosen hids (Subperm.refl _) hall
      (fun item hitem hout => absurd hitem hout) fun hfits => ?_
    obtain ⟨hwithin, -⟩ := buildSolution_spec lambda
      (itemsOf_index_nodup pool utilityOf tierOf tokensOf) filter_sublist hfits
    exact scoreSumById_le_items hids (subperm_of_subset hwithin.nodup hwithin.subset)
  · exact winner_settled hbudget hids

end

/-- Three fragments of which two fit, and a baseline of the weakest one. -/
def smallPool : List (Fragment String) :=
  [{ id := "a", estimatedTokens := some 5 }, { id := "b", estimatedTokens := some 4 },
    { id := "c", estimatedTokens := some 3 }]

def smallUtility (f : Fragment String) : Option Rat :=
  if f.id = "a" then some (9 / 10) else if f.id = "b" then some (1 / 10) else some (5 / 10)

/-- The greedy construction wins against the seeded one. -/
theorem selectWithinBudget_small :
    let selection := selectWithinBudget smallPool 8 smallUtility (fun _ => 0) ["b"] (mmrLambda Rat)
      (estimateTokens noCounts)
    Settled smallPool 8 smallUtility (fun _ => 0) ["b"] (mmrLambda Rat) (estimateTokens noCounts)
        selection.selectedIds /\
      selection.selectedIds = ["a", "c"] /\ selection.strategy = .greedy :=
  ⟨selectWithinBudget_settled (by decide) (by decide) (by decide), by decide +kernel,
    by decide +kernel⟩

def crowdedPool : List (Fragment Nat) :=
  (range (selectionPoolMax + 1)).map fun n => { id := n }

/-- Beyond the pool limit an empty baseline stays empty, though everything fits. -/
theorem selectWithinBudget_crowded :
    ¬ Settled crowdedPool 1 (fun _ => some (1 : Rat)) (fun _ => 0) [] (mmrLambda Rat) (fun _ => 1)
      (selectWithinBudget crowdedPool 1 (fun _ => some (1 : Rat)) (fun _ => 0) []
        (mmrLambda Rat) (fun _ => 1)).selectedIds := by
  intro hsettled
  have hlength : selectionPoolMax < crowdedPool.length := by simp [crowdedPool]
  rw [selectWithinBudget, if_pos hlength] at hsettled
  have hfirst := hsettled.maximal { id := 0 } (by simp [crowdedPool]) (by simp)
  simp [selectedFragments] at hfirst

end AnchorMind.Recall.WithinBudget
