import AnchorMind.Recall.SelectionRule

/-!
# The order of the pool does not matter

The construction keeps an array of marks and an array of largest similarities
by position.  Along a run they say what the rule reads off the chosen fragments,
so the construction follows the rule, and a rearranged pool gives the same set.
-/

namespace AnchorMind.Recall.PoolOrder

open Kernel.LeastRank Kernel.RoundedSum Recall.Tokens Recall.BudgetSelector List
open Recall.Construction (Kept Within tokenSum eq_of_index fits_iff start_kept
  bestOfSection_eq bestFill_eq bestOfSection_mem bestFill_mem sectionCandidates)
open Recall.WithinBudget Recall.SelectionRule

section

variable {Id Value : Type*} [Score Value]

theorem itemSimilarity_eq {a b : Item Id Value} (ha : a.kwSet = kwSetOf a.fragment)
    (hb : b.kwSet = kwSetOf b.fragment) :
    itemSimilarity a b = pairSimilarity a.fragment b.fragment := by
  unfold itemSimilarity pairSimilarity keywordOverlap
  rw [ha, hb, kwSetOf, kwSetOf]
  by_cases hleft : a.fragment.similarity = none
  · simp [hleft]
  · by_cases hright : b.fragment.similarity = none
    · simp only [hleft, hright, if_true, if_false, or_true]
      cases a.fragment.keywords with
      | none => rfl
      | some words => cases words <;> rfl
    · simp only [hleft, hright, if_false, or_self]
      cases a.fragment.keywords with
      | none => rfl
      | some words =>
        cases words with
        | nil => rfl
        | cons first words =>
          cases b.fragment.keywords with
          | none => rfl
          | some others => cases others <;> rfl

variable {taken : Nat -> Bool} {other : Item Id Value} {item : Item Id Value}

theorem raiseSimilarity_of_ne {index : Nat} (hne : index ≠ other.index) (maxSim : Nat -> Value) :
    raiseSimilarity taken item maxSim other index = maxSim index := by
  unfold raiseSimilarity
  dsimp only
  split
  · rfl
  · split
    · exact Function.update_of_ne hne _ _
    · rfl

theorem raiseSimilarity_self (hopen : taken other.index = false) (maxSim : Nat -> Value) :
    raiseSimilarity taken item maxSim other other.index =
      max (maxSim other.index) (itemSimilarity other item) := by
  unfold raiseSimilarity
  rw [if_neg (by simp [hopen])]
  split
  · rename_i hless
    rw [Function.update_self, max_eq_right hless.le]
  · rename_i hle
    rw [max_eq_left (not_lt.mp hle)]

theorem foldl_raiseSimilarity (item : Item Id Value) (hopen : taken other.index = false)
    {others : List (Item Id Value)} (hindex : (others.map Item.index).Nodup) (hmem : other ∈ others)
    (maxSim : Nat -> Value) :
    (others.foldl (raiseSimilarity taken item) maxSim) other.index =
      max (maxSim other.index) (itemSimilarity other item) := by
  have hkeep : ∀ (rest : List (Item Id Value)) (sims : Nat -> Value),
      other.index ∉ rest.map Item.index ->
      (rest.foldl (raiseSimilarity taken item) sims) other.index = sims other.index := by
    intro rest
    induction rest with
    | nil => exact fun _ _ => rfl
    | cons first rest ih =>
      intro sims hout
      rw [map_cons, mem_cons, not_or] at hout
      rw [foldl_cons, ih _ hout.2, raiseSimilarity_of_ne hout.1]
  induction others generalizing maxSim with
  | nil => exact nomatch hmem
  | cons first rest ih =>
    rw [map_cons, nodup_cons] at hindex
    rw [foldl_cons]
    rcases mem_cons.mp hmem with rfl | hrest
    · rw [hkeep rest _ hindex.1, raiseSimilarity_self hopen]
    · have hne : other.index ≠ first.index := fun hsame =>
        hindex.1 (hsame ▸ mem_map_of_mem hrest)
      rw [ih hindex.2 hrest, raiseSimilarity_of_ne hne]

end

section

variable {Id Value : Type*} [Score Value] (pool : List (Fragment Id))
  (utilityOf : Fragment Id -> Option Value) (tierOf tokensOf : Fragment Id -> Nat)

/-- What the selection passes to the rule. -/
def weightsOf : Weights Id Value :=
  { score := fun f => usableScore (utilityOf f), tier := tierOf, tokens := tokensOf }

structure Follows (state : Build Id Value) (chosen : List (Fragment Id)) : Prop
    extends Kept (itemsOf pool utilityOf tierOf tokensOf) state where
  fragments : state.chosen.map Item.fragment = chosen
  maxSim : ∀ item ∈ itemsOf pool utilityOf tierOf tokensOf, item ∉ state.chosen ->
    state.maxSim item.index = closeness chosen item.fragment

variable {pool utilityOf tierOf tokensOf} {state : Build Id Value}
  {chosen : List (Fragment Id)} {budget : Rat} {lambda : Value}

theorem closeness_nonneg (f : Fragment Id) : (0 : Value) ≤ closeness chosen f := by
  have hgrows : ∀ (sims : List Value) (start : Value), start ≤ sims.foldl max start := by
    intro sims
    induction sims with
    | nil => exact le_refl
    | cons sim sims ih => exact fun start => (le_max_left start sim).trans (ih _)
  exact hgrows _ 0

theorem closeness_append (f g : Fragment Id) :
    (closeness (chosen ++ [g]) f : Value) = max (closeness chosen f) (pairSimilarity f g) := by
  rw [closeness, map_append, foldl_append]
  rfl

variable {item : Item Id Value}

theorem kwSet_eq (hitem : item ∈ itemsOf pool utilityOf tierOf tokensOf) :
    item.kwSet = kwSetOf item.fragment :=
  congrArg Item.kwSet (of_mem_itemsOf hitem)

theorem start_follows : Follows pool utilityOf tierOf tokensOf (Build.start : Build Id Value) [] :=
  ⟨start_kept, rfl, fun _ _ _ => rfl⟩

theorem Follows.take (hfollows : Follows pool utilityOf tierOf tokensOf state chosen)
    (hitem : item ∈ itemsOf pool utilityOf tierOf tokensOf) (hfresh : item ∉ state.chosen) :
    Follows pool utilityOf tierOf tokensOf
      (state.take (itemsOf pool utilityOf tierOf tokensOf) item) (chosen ++ [item.fragment]) := by
  have hindex := itemsOf_index_nodup pool utilityOf tierOf tokensOf
  have hkept := hfollows.toKept.take hindex hitem hfresh
  refine ⟨hkept, ?_, fun other hother hout => ?_⟩
  · rw [Build.take, map_append, hfollows.fragments]
    rfl
  · have hbefore : other ∉ state.chosen := fun hmem => hout (mem_append_left _ hmem)
    have hopen := Bool.eq_false_iff.mpr (mt (hkept.taken other hother).mp hout)
    rw [closeness_append, ← hfollows.maxSim other hother hbefore,
      ← itemSimilarity_eq (kwSet_eq hother) (kwSet_eq hitem)]
    cases hkw : item.kwSet with
    | none =>
      have hzero : itemSimilarity other item = 0 := by
        unfold itemSimilarity
        rw [hkw]
        cases other.kwSet <;> rfl
      have hnonneg : 0 ≤ state.maxSim other.index := by
        rw [hfollows.maxSim other hother hbefore]
        exact closeness_nonneg other.fragment
      rw [hzero, max_eq_left hnonneg]
      simp only [Build.take, hkw]
    | some words =>
      have hraised := foldl_raiseSimilarity item hopen hindex hother state.maxSim
      simpa only [Build.take, hkw] using hraised

theorem sectionRank_eq (hitem : item ∈ itemsOf pool utilityOf tierOf tokensOf) :
    Construction.sectionRank item =
      sectionRank (weightsOf utilityOf tierOf tokensOf) item.fragment := by
  rw [of_mem_itemsOf hitem]
  rfl

theorem Follows.fillRank (hfollows : Follows pool utilityOf tierOf tokensOf state chosen)
    (hitem : item ∈ itemsOf pool utilityOf tierOf tokensOf)
    (hfits : state.fits budget item = true) :
    Construction.fillRank lambda state item =
      SelectionRule.fillRank (weightsOf utilityOf tierOf tokensOf) lambda chosen
        item.fragment := by
  have hfresh := ((fits_iff hfollows.toKept hitem).mp hfits).1
  have hsim := hfollows.maxSim item hitem hfresh
  have hitemOf := of_mem_itemsOf hitem
  have hkey : fillKey lambda state item =
      density (weightsOf utilityOf tierOf tokensOf) lambda chosen item.fragment := by
    rw [fillKey, hsim, density, congrArg Item.score hitemOf, congrArg Item.tokens hitemOf]
    rfl
  have htier := congrArg Item.tier hitemOf
  have hscore := congrArg Item.score hitemOf
  rw [Construction.fillRank, hkey, htier, hscore]
  rfl

variable {seed : List (Item Id Value)}

theorem seed_follows (hsubset : seed ⊆ itemsOf pool utilityOf tierOf tokensOf)
    (hnodup : (state.chosen ++ seed).Nodup)
    (hfollows : Follows pool utilityOf tierOf tokensOf state chosen) :
    Follows pool utilityOf tierOf tokensOf
      (seed.foldl (Build.take (itemsOf pool utilityOf tierOf tokensOf)) state)
      (chosen ++ seed.map Item.fragment) := by
  induction seed generalizing state chosen with
  | nil => simpa using hfollows
  | cons item seed ih =>
    have hitem := hsubset mem_cons_self
    have hfresh : item ∉ state.chosen := fun hmem =>
      (nodup_append.mp hnodup).2.2 item hmem item mem_cons_self rfl
    have hrest := ih (fun other hother => hsubset (mem_cons_of_mem _ hother))
      (by simpa [Build.take] using hnodup) (hfollows.take hitem hfresh)
    simpa using hrest

theorem Follows.ids (hfollows : Follows pool utilityOf tierOf tokensOf state chosen)
    (hids : (pool.map Fragment.id).Nodup) : (chosen.map Fragment.id).Nodup := by
  have hkeys : ((itemsOf pool utilityOf tierOf tokensOf).map Item.key).Nodup := by
    rw [itemsOf_key]
    exact hids
  rw [← hfollows.fragments, map_map]
  refine hfollows.nodup.map_on fun a ha b hb hsame => ?_
  exact inj_on_of_nodup_map hkeys (hfollows.subset ha) (hfollows.subset hb) hsame

variable [LinearOrder Id]

theorem Follows.hasRoom (hfollows : Follows pool utilityOf tierOf tokensOf state chosen)
    (hids : (pool.map Fragment.id).Nodup) (hitem : item ∈ itemsOf pool utilityOf tierOf tokensOf) :
    state.fits budget item =
      SelectionRule.hasRoom (weightsOf utilityOf tierOf tokensOf) budget chosen item.fragment := by
  have hused : state.used = used (weightsOf utilityOf tierOf tokensOf) chosen := by
    rw [hfollows.used, tokens_of_subset hfollows.subset, hfollows.fragments]
    rfl
  have htokens : item.tokens = tokensOf item.fragment :=
    congrArg Item.tokens (of_mem_itemsOf hitem)
  have hmem : item ∈ state.chosen <-> item.fragment.id ∈ chosen.map Fragment.id := by
    rw [← hfollows.fragments, map_map]
    refine ⟨fun hin => mem_map_of_mem hin, fun hin => ?_⟩
    obtain ⟨other, hother, hsame⟩ := mem_map.mp hin
    have hkeys : ((itemsOf pool utilityOf tierOf tokensOf).map Item.key).Nodup := by
      rw [itemsOf_key]
      exact hids
    rwa [← inj_on_of_nodup_map hkeys (hfollows.subset hother) hitem hsame]
  refine Bool.eq_iff_iff.mpr ?_
  rw [fits_iff hfollows.toKept hitem, hmem, hused, htokens, SelectionRule.hasRoom,
    Bool.and_eq_true, decide_eq_true_iff, decide_eq_true_iff]
  exact Iff.rfl

theorem Follows.bestOfSection (hfollows : Follows pool utilityOf tierOf tokensOf state chosen)
    (budget : Rat) (hids : (pool.map Fragment.id).Nodup) (sec : Section) :
    (bestOfSection budget state sec (itemsOf pool utilityOf tierOf tokensOf)).map
        Item.fragment =
      sectionChoice (weightsOf utilityOf tierOf tokensOf) budget chosen sec pool := by
  rw [sectionChoice]
  conv_rhs => rw [← itemsOf_fragment pool utilityOf tierOf tokensOf]
  rw [filter_map, bestOfSection_eq]
  have hsame : sectionCandidates budget state sec (itemsOf pool utilityOf tierOf tokensOf) =
      (itemsOf pool utilityOf tierOf tokensOf).filter ((fun f =>
        decide (sectionOf f = sec ∧ 0 < (weightsOf utilityOf tierOf tokensOf).score f) &&
          SelectionRule.hasRoom (weightsOf utilityOf tierOf tokensOf) budget chosen f) ∘
            Item.fragment) := by
    refine filter_congr fun item hitem => ?_
    have hscore : item.score = usableScore (utilityOf item.fragment) :=
      congrArg Item.score (of_mem_itemsOf hitem)
    rw [Function.comp_apply, ← hfollows.hasRoom hids hitem, hscore]
    refine Bool.eq_iff_iff.mpr ?_
    rw [decide_eq_true_iff, Bool.and_eq_true, decide_eq_true_iff, ← and_assoc]
    exact Iff.rfl
  rw [hsame]
  refine (argmin_map fun item hitem => ?_).symm
  exact sectionRank_eq (mem_of_mem_filter hitem)

theorem Follows.bestFill (hfollows : Follows pool utilityOf tierOf tokensOf state chosen)
    (budget : Rat) (lambda : Value) (hids : (pool.map Fragment.id).Nodup) :
    (bestFill budget lambda state (itemsOf pool utilityOf tierOf tokensOf)).map
        (fun best => best.1.fragment) =
      fillChoice (weightsOf utilityOf tierOf tokensOf) budget lambda chosen pool := by
  rw [fillChoice]
  conv_rhs => rw [← itemsOf_fragment pool utilityOf tierOf tokensOf]
  rw [filter_map, bestFill_eq, Option.map_map]
  have hsame : (itemsOf pool utilityOf tierOf tokensOf).filter (state.fits budget) =
      (itemsOf pool utilityOf tierOf tokensOf).filter
        (SelectionRule.hasRoom (weightsOf utilityOf tierOf tokensOf) budget chosen ∘
          Item.fragment) :=
    filter_congr fun item hitem => hfollows.hasRoom hids hitem
  rw [← hsame]
  refine (argmin_map fun item hitem => ?_).symm
  exact hfollows.fillRank (mem_of_mem_filter hitem) (mem_filter.mp hitem).2

theorem representSections_follows (hids : (pool.map Fragment.id).Nodup) (represented : List Section)
    (hfollows : Follows pool utilityOf tierOf tokensOf state chosen) :
    Follows pool utilityOf tierOf tokensOf
      (representSections (itemsOf pool utilityOf tierOf tokensOf) budget represented state)
      (represent (weightsOf utilityOf tierOf tokensOf) budget pool represented sectionOrder
        chosen) := by
  unfold representSections represent
  induction sectionOrder generalizing state chosen with
  | nil => exact hfollows
  | cons sec rest ih =>
    rw [foldl_cons, foldl_cons]
    refine ih ?_
    by_cases hsec : sec ∈ represented
    · rw [if_pos hsec, if_pos hsec]
      exact hfollows
    · have hchoice := hfollows.bestOfSection budget hids sec
      rw [if_neg hsec, if_neg hsec, ← hchoice]
      cases hbest : BudgetSelector.bestOfSection budget state sec
          (itemsOf pool utilityOf tierOf tokensOf) with
      | none => simpa using hfollows
      | some best =>
        obtain ⟨hitem, hfits⟩ := bestOfSection_mem hbest
        exact hfollows.take hitem ((fits_iff hfollows.toKept hitem).mp hfits).1

theorem fill_follows (hids : (pool.map Fragment.id).Nodup) (rounds : Nat)
    (hfollows : Follows pool utilityOf tierOf tokensOf state chosen) :
    Follows pool utilityOf tierOf tokensOf
      (fill (itemsOf pool utilityOf tierOf tokensOf) budget lambda rounds state)
      (fillUp (weightsOf utilityOf tierOf tokensOf) budget lambda pool rounds chosen) := by
  induction rounds generalizing state chosen with
  | zero => exact hfollows
  | succ rounds ih =>
    have hchoice := hfollows.bestFill budget lambda hids
    rw [fill, fillUp, ← hchoice]
    cases hbest : BudgetSelector.bestFill budget lambda state
        (itemsOf pool utilityOf tierOf tokensOf) with
    | none => exact hfollows
    | some best =>
      obtain ⟨hitem, hfits⟩ := bestFill_mem hbest
      exact ih (hfollows.take hitem ((fits_iff hfollows.toKept hitem).mp hfits).1)

theorem buildSolution_follows (budget : Rat) (lambda : Value) (hids : (pool.map Fragment.id).Nodup)
    (hseed : seed.Sublist (itemsOf pool utilityOf tierOf tokensOf)) :
    Follows pool utilityOf tierOf tokensOf
      (buildSolution (itemsOf pool utilityOf tierOf tokensOf) budget seed lambda)
      (construct (weightsOf utilityOf tierOf tokensOf) budget lambda pool
        (seed.map Item.fragment)) := by
  have hnodup : seed.Nodup :=
    hseed.nodup (Nodup.of_map _ (itemsOf_index_nodup pool utilityOf tierOf tokensOf))
  have hseeded := seed_follows hseed.subset (by simpa [Build.start] using hnodup) start_follows
  have hsections : (seed.foldl (Build.take (itemsOf pool utilityOf tierOf tokensOf))
      Build.start).chosen.map Item.section = (seed.map Item.fragment).map sectionOf := by
    rw [← nil_append (seed.map Item.fragment), ← hseeded.fragments, map_map]
    rfl
  have hlength : (itemsOf pool utilityOf tierOf tokensOf).length = pool.length := by simp [itemsOf]
  rw [buildSolution, construct, hsections, hlength]
  exact fill_follows hids _ (representSections_follows hids _ hseeded)

end

section

variable {Id Value : Type*} [LinearOrder Id] [Score Value] {pool others : List (Fragment Id)}
  (budget : Rat) (utilityOf : Fragment Id -> Option Value) (tierOf : Fragment Id -> Nat)
  (baselineIds : List Id) (lambda : Value) (tokensOf : Fragment Id -> Nat)

theorem seedItems_fragment :
    (seedItems pool utilityOf tierOf baselineIds tokensOf : List (Item Id Value)).map
        Item.fragment =
      pool.filter fun f => f.id ∈ baselineIds := by
  conv_rhs => rw [← itemsOf_fragment pool utilityOf tierOf tokensOf, filter_map]
  rfl

theorem buildSolution_perm (hpool : pool.Perm others) (hids : (pool.map Fragment.id).Nodup)
    {seed start : List (Item Id Value)}
    (hseed : seed.Sublist (itemsOf pool utilityOf tierOf tokensOf))
    (hstart : start.Sublist (itemsOf others utilityOf tierOf tokensOf))
    (hsame : (seed.map Item.fragment).Perm (start.map Item.fragment)) :
    let first := buildSolution (itemsOf pool utilityOf tierOf tokensOf) budget seed lambda
    let second := buildSolution (itemsOf others utilityOf tierOf tokensOf) budget start lambda
    (first.chosen.map Item.fragment).Perm (second.chosen.map Item.fragment) /\
      scoreSumById first.chosen = scoreSumById second.chosen := by
  have hothers : (others.map Fragment.id).Nodup := (hpool.map Fragment.id).nodup_iff.mp hids
  have hfirst := buildSolution_follows budget lambda hids hseed
  have hsecond := buildSolution_follows budget lambda hothers hstart
  have hperm := construct_perm (weightsOf utilityOf tierOf tokensOf) budget lambda hpool hsame
    hothers
  dsimp only
  rw [scoreSumById_eq hfirst.subset, scoreSumById_eq hsecond.subset, hfirst.fragments,
    hsecond.fragments]
  exact ⟨hperm, sumByKey_eq_of_perm hperm (hsecond.ids hothers)⟩

theorem winner_perm (hpool : pool.Perm others) (hids : (pool.map Fragment.id).Nodup) :
    ((winner pool budget utilityOf tierOf baselineIds lambda tokensOf).chosen.map
        Item.fragment).Perm
      ((winner others budget utilityOf tierOf baselineIds lambda tokensOf).chosen.map
        Item.fragment) := by
  let seed : List (Item Id Value) := seedItems pool utilityOf tierOf baselineIds tokensOf
  let start : List (Item Id Value) := seedItems others utilityOf tierOf baselineIds tokensOf
  have hseed : seed.Sublist (itemsOf pool utilityOf tierOf tokensOf) := filter_sublist
  have hstart : start.Sublist (itemsOf others utilityOf tierOf tokensOf) := filter_sublist
  have hsame : (seed.map Item.fragment).Perm (start.map Item.fragment) := by
    rw [seedItems_fragment, seedItems_fragment]
    exact hpool.filter _
  obtain ⟨hgreedy, hgreedyScore⟩ := buildSolution_perm budget utilityOf tierOf lambda tokensOf
    hpool hids (nil_sublist _) (nil_sublist _) (Perm.refl [])
  obtain ⟨hsolution, hsolutionScore⟩ := buildSolution_perm budget utilityOf tierOf lambda tokensOf
    hpool hids hseed hstart hsame
  have htokens : tokenSum seed = tokenSum start := by
    rw [tokens_of_subset hseed.subset, tokens_of_subset hstart.subset]
    exact (hsame.map tokensOf).sum_eq
  have hempty : seed = [] <-> start = [] := by
    have hlength := hsame.length_eq
    rw [length_map, length_map] at hlength
    rw [← length_eq_zero_iff, hlength, length_eq_zero_iff]
  have hwins : ((seed ≠ [] ∧ (tokenSum seed : Rat) ≤ budget) ∧
        scoreSumById (buildSolution (itemsOf pool utilityOf tierOf tokensOf) budget []
            lambda).chosen <
          scoreSumById (buildSolution (itemsOf pool utilityOf tierOf tokensOf) budget seed
            lambda).chosen) <->
      ((start ≠ [] ∧ (tokenSum start : Rat) ≤ budget) ∧
        scoreSumById (buildSolution (itemsOf others utilityOf tierOf tokensOf) budget []
            lambda).chosen <
          scoreSumById (buildSolution (itemsOf others utilityOf tierOf tokensOf) budget start
            lambda).chosen) := by
    rw [hgreedyScore, hsolutionScore, htokens, Ne, Ne, not_congr hempty]
  unfold winner
  dsimp only
  split
  · rename_i hbuilt
    rw [if_pos (hwins.mp hbuilt)]
    exact hsolution
  · rename_i hbuilt
    rw [if_neg (mt hwins.mpr hbuilt)]
    exact hgreedy

/-- A rearranged pool of distinct ids gives the same selected ids. -/
theorem selectWithinBudget_perm (hpool : pool.Perm others) (hids : (pool.map Fragment.id).Nodup)
    (id : Id) :
    id ∈ (selectWithinBudget pool budget utilityOf tierOf baselineIds lambda
        tokensOf).selectedIds <->
      id ∈ (selectWithinBudget others budget utilityOf tierOf baselineIds lambda
        tokensOf).selectedIds := by
  refine Perm.mem_iff ?_
  by_cases hsize : pool.length ≤ selectionPoolMax
  · have hothers : others.length ≤ selectionPoolMax := hpool.length_eq ▸ hsize
    have htotal : (tokenSum (itemsOf pool utilityOf tierOf tokensOf : List (Item Id Value)) : Rat)
        = tokenSum (itemsOf others utilityOf tierOf tokensOf : List (Item Id Value)) := by
      rw [tokens_of_subset (Subset.refl _), tokens_of_subset (Subset.refl _),
        itemsOf_fragment, itemsOf_fragment, (hpool.map tokensOf).sum_eq]
    rw [selectedIds_of_size _ _ _ _ _ _ _ hsize, selectedIds_of_size _ _ _ _ _ _ _ hothers,
      htotal]
    split
    · exact hpool.map Fragment.id
    · have hwinner := (winner_perm budget utilityOf tierOf baselineIds lambda tokensOf hpool
        hids).map Fragment.id
      rw [map_map, map_map] at hwinner
      exact hwinner
  · have hothers : ¬ others.length ≤ selectionPoolMax := hpool.length_eq ▸ hsize
    rw [selectWithinBudget, selectWithinBudget, if_pos (not_le.mp hsize),
      if_pos (not_le.mp hothers)]
    exact (hpool.filter _).map Fragment.id

end

/-- A pool and its reverse give one set. -/
theorem selectWithinBudget_reversed :
    let select := fun pool => (selectWithinBudget pool 8 smallUtility (fun _ => 0) ["a", "c"]
      (mmrLambda Rat) (estimateTokens noCounts)).selectedIds
    ("c" ∈ select smallPool <-> "c" ∈ select smallPool.reverse) /\
      select smallPool = ["a", "c"] /\ select smallPool.reverse = ["a", "c"] :=
  ⟨selectWithinBudget_perm 8 smallUtility (fun _ => 0) ["a", "c"] (mmrLambda Rat)
    (estimateTokens noCounts) (reverse_perm smallPool).symm (by decide) "c",
    by decide +kernel, by decide +kernel⟩

end AnchorMind.Recall.PoolOrder
