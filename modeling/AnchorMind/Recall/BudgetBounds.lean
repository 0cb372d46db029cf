import AnchorMind.Recall.BudgetSelector
import Mathlib.Data.String.Basic

/-!
# The bounds of a recall selection

Whatever the estimates say, the selection of a recall stays within the exact
budget and scores at least as much as the baseline it was given.  The proof
needs one fact about the exact verification, which every branch ends with, and
one about sums in the order of the ids.
-/

namespace AnchorMind.Recall.BudgetBounds

open Kernel.RoundedSum Recall.Tokens Recall.BudgetSelector List

section

variable {Id : Type*} [DecidableEq Id]

theorem filter_mem_ids {kept pool : List (Fragment Id)} (hsub : kept.Sublist pool)
    (hids : (pool.map Fragment.id).Nodup) :
    pool.filter (fun f => f.id ∈ kept.map Fragment.id) = kept := by
  induction hsub with
  | slnil => rfl
  | @cons small large f hsub ih =>
    have hfresh : f.id ∉ large.map Fragment.id := (nodup_cons.mp hids).1
    have hout : f.id ∉ small.map Fragment.id := fun hin => hfresh ((hsub.map _).subset hin)
    rw [filter_cons_of_neg (by simpa using hout)]
    exact ih (nodup_cons.mp hids).2
  | @cons_cons small large f hsub ih =>
    have hfresh : f.id ∉ large.map Fragment.id := (nodup_cons.mp hids).1
    rw [filter_cons_of_pos (by simp)]
    congr 1
    refine Eq.trans (filter_congr fun g hg => ?_) (ih (nodup_cons.mp hids).2)
    have hne : g.id ≠ f.id := fun heq => hfresh (heq ▸ mem_map_of_mem hg)
    simp [hne]

/-- Removing one part of a rearranged list leaves the other part. -/
theorem filter_notMem_ids {selected out rest : List (Fragment Id)}
    (hperm : selected.Perm (out ++ rest)) (hids : (selected.map Fragment.id).Nodup) :
    (selected.filter fun f => f.id ∉ out.map Fragment.id).Perm rest := by
  have hnodup : ((out ++ rest).map Fragment.id).Nodup := (hperm.map _).nodup_iff.mp hids
  rw [map_append, nodup_append'] at hnodup
  obtain ⟨-, -, hdisjoint⟩ := hnodup
  refine (hperm.filter _).trans ?_
  rw [filter_append]
  have hout : (out.filter fun f => f.id ∉ out.map Fragment.id) = [] := by
    refine filter_eq_nil_iff.mpr fun f hf => ?_
    simpa using ⟨f, hf, rfl⟩
  have hrest : (rest.filter fun f => f.id ∉ out.map Fragment.id) = rest := by
    refine filter_eq_self.mpr fun f hf => ?_
    have hin : f.id ∈ rest.map Fragment.id := mem_map_of_mem hf
    simpa using fun hout => hdisjoint hout hin
  rw [hout, hrest, nil_append]

theorem sum_filter_append_id (tokensOf : Fragment Id -> Nat) {fragments : List (Fragment Id)}
    (hids : (fragments.map Fragment.id).Nodup) {f : Fragment Id} (hf : f ∈ fragments)
    {picked : List Id} (hfresh : f.id ∉ picked) :
    ((fragments.filter fun g => g.id ∈ picked ++ [f.id]).map tokensOf).sum
      = ((fragments.filter fun g => g.id ∈ picked).map tokensOf).sum + tokensOf f := by
  induction fragments with
  | nil => exact nomatch hf
  | cons g rest ih =>
    obtain ⟨hhead, hrest⟩ := nodup_cons.mp hids
    rcases mem_cons.mp hf with rfl | hf
    · have hsame : (rest.filter fun g => g.id ∈ picked ++ [f.id])
          = rest.filter fun g => g.id ∈ picked := by
        refine filter_congr fun g hg => ?_
        have hne : g.id ≠ f.id := fun heq => hhead (heq ▸ mem_map_of_mem hg)
        simp [hne]
      rw [filter_cons_of_pos (by simp), filter_cons_of_neg (by simpa using hfresh),
        hsame, map_cons, sum_cons, Nat.add_comm]
    · have hne : g.id ≠ f.id := fun heq => hhead (heq ▸ mem_map_of_mem hf)
      by_cases hg : g.id ∈ picked
      · rw [filter_cons_of_pos (by simp [hg]), filter_cons_of_pos (by simpa using hg),
          map_cons, map_cons, sum_cons, sum_cons, ih hrest hf, Nat.add_assoc]
      · rw [filter_cons_of_neg (by simp [hg, hne]),
          filter_cons_of_neg (by simpa using hg), ih hrest hf]

end

section

variable {Id : Type*} {counter : TokenCounter} {measure : Measure Id} {tokenBudget : Rat}
  {used : Nat}

theorem of_fitTokens_eq_some {f : Fragment Id} {tokens : Nat} {limit : Rat}
    (hfit : fitTokens counter measure f used limit = some tokens) :
    tokens = measure.tokensOf counter f ∧ ((used + tokens : Nat) : Rat) ≤ limit := by
  rw [fitTokens_eq] at hfit
  split at hfit
  · exact nomatch hfit
  · rename_i hle
    cases hfit
    exact ⟨rfl, not_lt.mp hle⟩

theorem cutPrefix_within (counter : TokenCounter) (measure : Measure Id)
    (fragments : List (Fragment Id)) (hused : (used : Rat) ≤ tokenBudget) :
    ((used + ((cutPrefix counter measure tokenBudget fragments used).map
      (measure.tokensOf counter)).sum : Nat) : Rat) ≤ tokenBudget := by
  induction fragments generalizing used with
  | nil => simpa [cutPrefix] using hused
  | cons f rest ih =>
    rw [cutPrefix]
    cases hfit : fitTokens counter measure f used tokenBudget with
    | none => simpa using hused
    | some tokens =>
      obtain ⟨rfl, hle⟩ := of_fitTokens_eq_some hfit
      rw [map_cons, sum_cons, ← Nat.add_assoc]
      exact ih hle

theorem cutPrefix_sublist {fragments : List (Fragment Id)} :
    (cutPrefix counter measure tokenBudget fragments used).Sublist fragments := by
  induction fragments generalizing used with
  | nil => exact Sublist.refl _
  | cons f rest ih =>
    rw [cutPrefix]
    split
    · exact nil_sublist _
    · exact ih.cons_cons f

end

section

variable {Id : Type*} [DecidableEq Id] {counter : TokenCounter} {measure : Measure Id}
  {tokenBudget : Rat}

structure Accounted (counter : TokenCounter) (measure : Measure Id) (tokenBudget : Rat)
    (fragments : List (Fragment Id)) (state : Picked Id) : Prop where
  used : ((fragments.filter fun f => f.id ∈ state.picked).map (measure.tokensOf counter)).sum
    = state.used
  within : (state.used : Rat) ≤ tokenBudget

variable {fragments : List (Fragment Id)} {state : Picked Id}

theorem Accounted.take (haccounted : Accounted counter measure tokenBudget fragments state)
    (hids : (fragments.map Fragment.id).Nodup) {f : Fragment Id} (hf : f ∈ fragments)
    (hfresh : f.id ∉ state.picked)
    (hle : ((state.used + measure.tokensOf counter f : Nat) : Rat) ≤ tokenBudget) :
    Accounted counter measure tokenBudget fragments
      (state.take f (measure.tokensOf counter f)) := by
  refine ⟨?_, hle⟩
  rw [Picked.take, sum_filter_append_id _ hids hf hfresh, haccounted.used]

variable {rest : List (Fragment Id)}

theorem pickExact_accounted {share : Rat} (hshare : share ≤ tokenBudget)
    (hids : (fragments.map Fragment.id).Nodup) (hrest : rest.Sublist fragments)
    (hfresh : ∀ f ∈ rest, f.id ∉ state.picked)
    (haccounted : Accounted counter measure tokenBudget fragments state) :
    Accounted counter measure tokenBudget fragments
      (pickExact counter measure share rest state) := by
  induction rest generalizing state with
  | nil => exact haccounted
  | cons f rest ih =>
    have htail : rest.Sublist fragments := (sublist_cons_self f rest).trans hrest
    have hkeep := ih htail (fun g hg => hfresh g (mem_cons_of_mem _ hg)) haccounted
    rw [pickExact]
    split
    · cases hfit : fitTokens counter measure f state.used share with
      | none => exact haccounted
      | some tokens =>
        obtain ⟨rfl, hle⟩ := of_fitTokens_eq_some hfit
        have hf : f ∈ fragments := hrest.subset mem_cons_self
        refine ih htail (fun g hg hin => ?_)
          (haccounted.take hids hf (hfresh f mem_cons_self) (hle.trans hshare))
        have hne : g.id ≠ f.id := by
          have hnodup := (hrest.map Fragment.id).nodup hids
          exact fun heq => (nodup_cons.mp hnodup).1 (heq ▸ mem_map_of_mem hg)
        rcases mem_append.mp hin with hin | hin
        · exact hfresh g (mem_cons_of_mem _ hg) hin
        · exact hne (mem_singleton.mp hin)
    · exact hkeep

theorem pickSupplement_accounted (share : Rat) (semUsed : Nat)
    (hids : (fragments.map Fragment.id).Nodup) (hrest : rest.Sublist fragments)
    (haccounted : Accounted counter measure tokenBudget fragments state) :
    Accounted counter measure tokenBudget fragments
      (pickSupplement counter measure share tokenBudget rest semUsed state) := by
  induction rest generalizing semUsed state with
  | nil => exact haccounted
  | cons f rest ih =>
    have htail : rest.Sublist fragments := (sublist_cons_self f rest).trans hrest
    rw [pickSupplement]
    split
    · exact ih _ htail haccounted
    · rename_i hopen
      cases hfit : fitTokens counter measure f semUsed share with
      | none => exact haccounted
      | some tokens =>
        obtain ⟨rfl, -⟩ := of_fitTokens_eq_some hfit
        dsimp only
        split
        · exact haccounted
        · rename_i hle
          have hf : f ∈ fragments := hrest.subset mem_cons_self
          exact ih _ htail
            (haccounted.take hids hf (fun hin => hopen (.inl hin)) (not_lt.mp hle))

theorem pickRest_accounted (hids : (fragments.map Fragment.id).Nodup)
    (hrest : rest.Sublist fragments)
    (haccounted : Accounted counter measure tokenBudget fragments state) :
    Accounted counter measure tokenBudget fragments
      (pickRest counter measure tokenBudget rest state) := by
  induction rest generalizing state with
  | nil => exact haccounted
  | cons f rest ih =>
    have htail : rest.Sublist fragments := (sublist_cons_self f rest).trans hrest
    rw [pickRest]
    split
    · exact ih htail haccounted
    · rename_i hfresh
      cases hfit : fitTokens counter measure f state.used tokenBudget with
      | none => exact ih htail haccounted
      | some tokens =>
        obtain ⟨rfl, hle⟩ := of_fitTokens_eq_some hfit
        have hf : f ∈ fragments := hrest.subset mem_cons_self
        exact ih htail (haccounted.take hids hf hfresh hle)

theorem trimInSearchOrder_sublist (ranking : Ranking) :
    (trimInSearchOrder counter fragments tokenBudget ranking measure).Sublist fragments := by
  unfold trimInSearchOrder
  split
  · exact filter_sublist
  · exact cutPrefix_sublist

theorem trimInSearchOrder_within (counter : TokenCounter) (measure : Measure Id)
    (hbudget : 0 ≤ tokenBudget) (hids : (fragments.map Fragment.id).Nodup) (ranking : Ranking)
    (hshare : ranking.exactSlotShare ≤ 1) :
    ((((trimInSearchOrder counter fragments tokenBudget ranking measure).map
      (measure.tokensOf counter)).sum : Nat) : Rat) ≤ tokenBudget := by
  unfold trimInSearchOrder
  split
  · have hempty : Accounted counter measure tokenBudget fragments ⟨0, []⟩ :=
      ⟨by simp, by simpa using hbudget⟩
    have hexact := pickExact_accounted (mul_le_of_le_one_right hbudget hshare) hids
      (Sublist.refl fragments) (fun _ _ => not_mem_nil) hempty
    have hsupplement := pickSupplement_accounted (tokenBudget * ranking.semanticSlotShare) 0 hids
      (Sublist.refl fragments) hexact
    have hall := pickRest_accounted hids (Sublist.refl fragments) hsupplement
    dsimp only
    rw [hall.used]
    exact hall.within
  · have hzero : ((0 : Nat) : Rat) ≤ tokenBudget := by simpa using hbudget
    simpa using cutPrefix_within counter measure fragments hzero

end

theorem dropUntilFits_spec {Id Value : Type*} {budget : Rat} (hbudget : 0 ≤ budget)
    (entries : List (Entry Id Value)) :
    ∃ rest, entries = (dropUntilFits budget entries (totalOf entries)).1 ++ rest ∧
      (dropUntilFits budget entries (totalOf entries)).2 = totalOf rest ∧
      (totalOf rest : Rat) ≤ budget := by
  induction entries with
  | nil => exact ⟨[], rfl, rfl, by simpa [totalOf] using hbudget⟩
  | cons entry entries ih =>
    rw [dropUntilFits]
    split
    · rename_i hfits
      exact ⟨entry :: entries, rfl, rfl, hfits⟩
    · obtain ⟨rest, happend, hleft, hrest⟩ := ih
      have hremaining : totalOf (entry :: entries) - entry.tokens = totalOf entries := by
        rw [totalOf, map_cons, sum_cons, Nat.add_sub_cancel_left, totalOf]
      refine ⟨rest, ?_, ?_, hrest⟩
      · rw [hremaining]
        exact congrArg (entry :: ·) happend
      · rw [hremaining]
        exact hleft

section

variable {Id Value : Type*} [LinearOrder Id] [Score Value]

section

variable (counter : TokenCounter) (selected : List (Fragment Id)) {budget : Rat}
  (scoreOf : Fragment Id -> Option Value) (protectedItems : List Id)

theorem totalOf_entriesOf :
    totalOf (entriesOf counter selected scoreOf protectedItems) = exactTotal counter selected := by
  rw [totalOf, entriesOf, map_map]; rfl

theorem verifyExactBudget_of_fits (hfits : (exactTotal counter selected : Rat) ≤ budget) :
    verifyExactBudget counter selected budget scoreOf protectedItems
      = { kept := selected, dropped := [], tokens := exactTotal counter selected } := by
  rw [verifyExactBudget, totalOf_entriesOf, if_pos hfits]

theorem verifyExactBudget_sublist :
    (verifyExactBudget counter selected budget scoreOf protectedItems).kept.Sublist selected := by
  unfold verifyExactBudget
  split
  · exact Sublist.refl _
  · exact filter_sublist

theorem verifyExactBudget_within (hbudget : 0 ≤ budget) (hids : (selected.map Fragment.id).Nodup) :
    let verified := verifyExactBudget counter selected budget scoreOf protectedItems
    verified.tokens = exactTotal counter verified.kept ∧
      (exactTotal counter verified.kept : Rat) ≤ budget := by
  by_cases hfits : (exactTotal counter selected : Rat) ≤ budget
  · rw [verifyExactBudget_of_fits counter selected scoreOf protectedItems hfits]
    exact ⟨rfl, hfits⟩
  · let entries := entriesOf counter selected scoreOf protectedItems
    have hsorted : (inDropOrder entries).Perm entries := perm_insertionSort _ entries
    have htotal : totalOf (inDropOrder entries) = totalOf entries := (hsorted.map _).sum_eq
    obtain ⟨rest, happend, hleft, hrest⟩ := dropUntilFits_spec hbudget (inDropOrder entries)
    rw [htotal] at happend hleft
    let result := dropUntilFits budget (inDropOrder entries) (totalOf entries)
    have hverified : verifyExactBudget counter selected budget scoreOf protectedItems
        = Verified.without selected result := by
      rw [verifyExactBudget, if_neg (by rwa [totalOf_entriesOf])]
    have hsplit : selected.Perm (result.1.map Entry.fragment ++ rest.map Entry.fragment) := by
      have hmapped := (hsorted.map Entry.fragment).symm
      rw [happend, map_append] at hmapped
      have hfragments : entries.map Entry.fragment = selected := by
        rw [show entries = selected.map (entryOf counter scoreOf protectedItems) from rfl,
          map_map]
        exact map_id _
      exact hfragments ▸ hmapped
    have hkept : (Verified.without selected result).kept.Perm (rest.map Entry.fragment) := by
      have hrest := filter_notMem_ids hsplit hids
      rw [map_map] at hrest
      exact hrest
    have hexact : ∀ entry ∈ rest,
        entry.tokens = fragmentTokens counter entry.fragment := by
      intro entry hentry
      have hmem : entry ∈ entries :=
        hsorted.subset (by rw [happend]; exact mem_append_right _ hentry)
      obtain ⟨f, -, rfl⟩ := mem_map.mp hmem
      rfl
    have hsum : totalOf rest = exactTotal counter (Verified.without selected result).kept := by
      rw [exactTotal_perm counter hkept, exactTotal, map_map]
      exact congrArg sum (map_congr_left hexact)
    rw [hverified]
    exact ⟨hleft.trans hsum, hsum ▸ hrest⟩

end

theorem exactScoreSum_le_of_sublist {small large : List (Fragment Id)} (hsub : small.Sublist large)
    (hids : (large.map Fragment.id).Nodup) (rawUtility : Fragment Id -> Option Value) :
    exactScoreSum small (utility rawUtility) ≤ exactScoreSum large (utility rawUtility) :=
  sumByKey_le_of_sublist hsub hids fun f _ => usableScore_nonneg (rawUtility f)

section

variable (counter : TokenCounter) (pool : List (Fragment Id)) (budget : Rat)
  (rawUtility : Fragment Id -> Option Value) (tierOf : Fragment Id -> Nat)
  (baselineIds : List Id) (poolLimit : Nat)

structure Sound (selection : RecallSelection Id) (kept : List (Fragment Id)) : Prop where
  sublist : kept.Sublist pool
  selectedIds : selection.selectedIds = kept.map Fragment.id
  within : (exactTotal counter kept : Rat) ≤ budget
  tokens : ∀ n, selection.tokens = some n -> n = exactTotal counter kept
  score : exactScoreSum (confirmedBaseline counter pool budget rawUtility baselineIds).kept
    (utility rawUtility) ≤ exactScoreSum kept (utility rawUtility)

variable {counter pool budget rawUtility tierOf baselineIds poolLimit}

theorem confirmedBaseline_sublist :
    (confirmedBaseline counter pool budget rawUtility baselineIds).kept.Sublist pool :=
  (verifyExactBudget_sublist counter _ _ _).trans filter_sublist

theorem Sound.ofVerified (hbudget : 0 ≤ budget) (hids : (pool.map Fragment.id).Nodup)
    {selected : List (Fragment Id)} (hsub : selected.Sublist pool) (strategy : Strategy)
    (dropped : Nat) (protectedItems : List Id)
    (hscore : exactScoreSum (confirmedBaseline counter pool budget rawUtility baselineIds).kept
        (utility rawUtility)
      ≤ exactScoreSum (verifyExactBudget counter selected budget (utility rawUtility)
          protectedItems).kept (utility rawUtility)) :
    let verified := verifyExactBudget counter selected budget (utility rawUtility) protectedItems
    Sound counter pool budget rawUtility baselineIds (.ofVerified strategy dropped verified)
      verified.kept := by
  obtain ⟨htokens, hwithin⟩ := verifyExactBudget_within counter selected (utility rawUtility)
    protectedItems hbudget ((hsub.map _).nodup hids)
  refine ⟨(verifyExactBudget_sublist counter _ _ _).trans hsub, rfl, hwithin, ?_, hscore⟩
  rintro n ⟨⟩
  exact htokens

theorem selectOverBudget_sound (hbudget : 0 ≤ budget) (hids : (pool.map Fragment.id).Nodup)
    (counts : Counts Id) :
    ∃ kept, Sound counter pool budget rawUtility baselineIds
      (selectOverBudget counter pool budget rawUtility tierOf baselineIds poolLimit counts)
      kept := by
  have hbaseline : ∀ strategy dropped,
      Sound counter pool budget rawUtility baselineIds
        (.ofVerified strategy dropped
          (confirmedBaseline counter pool budget rawUtility baselineIds))
        (confirmedBaseline counter pool budget rawUtility baselineIds).kept :=
    fun strategy dropped =>
      Sound.ofVerified hbudget hids filter_sublist strategy dropped [] (le_refl _)
  unfold selectOverBudget
  split
  · exact ⟨_, hbaseline _ _⟩
  · dsimp only
    split
    · exact ⟨_, hbaseline _ _⟩
    · rename_i hscore
      exact ⟨_, Sound.ofVerified hbudget hids filter_sublist _ _ _ (not_lt.mp hscore)⟩

theorem selectForRecall_sound (counter : TokenCounter) (rawUtility : Fragment Id -> Option Value)
    (tierOf : Fragment Id -> Nat) (baselineIds : List Id) (poolLimit : Nat) (hbudget : 0 ≤ budget)
    (hids : (pool.map Fragment.id).Nodup) (counts : Counts Id) :
    ∃ kept, Sound counter pool budget rawUtility baselineIds
      (selectForRecall counter pool budget rawUtility tierOf baselineIds poolLimit counts).1
      kept := by
  unfold selectForRecall
  split
  · rename_i hexceeds
    have hfits := (exceedsBudget_eq_false_iff counter pool counts hbudget).mp
      (congrArg Prod.fst hexceeds)
    exact ⟨pool, Sublist.refl _, rfl, hfits, fun _ => nofun,
      exactScoreSum_le_of_sublist confirmedBaseline_sublist hids rawUtility⟩
  · exact selectOverBudget_sound hbudget hids _

variable {selection : RecallSelection Id} {kept : List (Fragment Id)}

theorem Sound.selected (hsound : Sound counter pool budget rawUtility baselineIds selection kept)
    (hids : (pool.map Fragment.id).Nodup) : selectedOf pool selection = kept := by
  rw [selectedOf, hsound.selectedIds]
  exact filter_mem_ids hsound.sublist hids

theorem Sound.wholeBaseline
    (hsound : Sound counter pool budget rawUtility baselineIds selection kept)
    (hfits : (exactTotal counter (baselineItems pool baselineIds) : Rat) ≤ budget) :
    exactScoreSum (baselineItems pool baselineIds) (utility rawUtility)
      ≤ exactScoreSum kept (utility rawUtility) := by
  have hscore := hsound.score
  rwa [confirmedBaseline, verifyExactBudget_of_fits counter _ _ _ hfits] at hscore

theorem baselineItems_exactCut (counter : TokenCounter) (hbudget : 0 ≤ budget)
    (hids : (pool.map Fragment.id).Nodup) (remembered : Fragment Id -> Bool) :
    let cut := trimInSearchOrder counter pool budget {} (.exact remembered)
    baselineItems pool (cut.map Fragment.id) = cut ∧ (exactTotal counter cut : Rat) ≤ budget :=
  ⟨filter_mem_ids (trimInSearchOrder_sublist {}) hids,
    trimInSearchOrder_within counter (.exact remembered) hbudget hids {} (by norm_num)⟩

/-- The fragments a recall selects stay within the exact budget and score at
least the baseline: as it was confirmed, in full where its exact count fits, and
in particular where it is the exact search-order cut of the pool. -/
theorem selectForRecall_within_budget_and_at_least_baseline (counter : TokenCounter)
    (rawUtility : Fragment Id -> Option Value) (tierOf : Fragment Id -> Nat) (baselineIds : List Id)
    (poolLimit : Nat) (hbudget : 0 ≤ budget) (hids : (pool.map Fragment.id).Nodup)
    (counts : Counts Id) :
    let selected := selectedOf pool
      (selectForRecall counter pool budget rawUtility tierOf baselineIds poolLimit counts).1
    let score := fun fragments => exactScoreSum fragments (utility rawUtility)
    (exactTotal counter selected : Rat) ≤ budget ∧
      score (confirmedBaseline counter pool budget rawUtility baselineIds).kept ≤ score selected ∧
      ((exactTotal counter (baselineItems pool baselineIds) : Rat) ≤ budget ->
        score (baselineItems pool baselineIds) ≤ score selected) ∧
      ∀ remembered,
        let cut := trimInSearchOrder counter pool budget {} (.exact remembered)
        baselineIds = cut.map Fragment.id -> score cut ≤ score selected := by
  obtain ⟨kept, hsound⟩ := selectForRecall_sound counter rawUtility tierOf baselineIds poolLimit
    hbudget hids counts
  dsimp only
  rw [hsound.selected hids]
  refine ⟨hsound.within, hsound.score, hsound.wholeBaseline, ?_⟩
  intro remembered hcut
  obtain ⟨hitems, hfits⟩ :=
    baselineItems_exactCut counter hbudget hids remembered
  rw [← hcut] at hitems
  have hwhole := hsound.wholeBaseline (hitems ▸ hfits)
  rwa [hitems] at hwhole

end

end

def misjudgedPool : List (Fragment String) :=
  [{ id := "a", estimatedTokens := some 6 }, { id := "e", estimatedTokens := some 5 },
    { id := "c", content := some "recall keeps what a session decided and why", storedTokens :=
      some 3 },
    { id := "d", content := some "recall drops what a session never did decide", storedTokens :=
      some 3 }]

def misjudgedUtility (f : Fragment String) : Option Rat :=
  if f.id = "a" then some (40 / 100) else if f.id = "e" then some (1 / 100)
  else if f.id = "c" then some (45 / 100) else some (44 / 100)

theorem misjudgedPool_ids : (misjudgedPool.map Fragment.id).Nodup := by decide

theorem misjudgedBudget_nonneg : (0 : Rat) ≤ 10 := by norm_num

/-- The estimates favour two fragments that do not fit, and the baseline is used. -/
theorem selectForRecall_falls_back :
    let selection := (selectForRecall approximateCounter misjudgedPool 10 misjudgedUtility
      (fun _ => 0) ["a"] 210 noCounts).1
    let selected := selectedOf misjudgedPool selection
    selection.strategy = .baselineFallback ∧ selection.selectedIds = ["a"] ∧
      (exactTotal approximateCounter selected : Rat) ≤ 10 ∧
      exactScoreSum (baselineItems misjudgedPool ["a"]) (utility misjudgedUtility)
        ≤ exactScoreSum selected (utility misjudgedUtility) := by
  obtain ⟨hwithin, -, hwhole, -⟩ :=
    selectForRecall_within_budget_and_at_least_baseline approximateCounter misjudgedUtility
      (fun _ => 0) ["a"] 210 misjudgedBudget_nonneg misjudgedPool_ids noCounts
  exact ⟨by decide +kernel, by decide +kernel, hwithin, hwhole (by decide +kernel)⟩

end AnchorMind.Recall.BudgetBounds
