import AnchorMind.Kernel.KeysetPaging
import AnchorMind.Recall.ExactCounts

/-!
# Following a recall's cursor

The pages of a recall drain its eligible fragments: each page is a part of what
the cursor has not marked, fits the budget, and marks exactly what it took.  The
proof reads one page as a page of a draining pool and follows the cursors.
-/

namespace AnchorMind.Recall.Paging

open List

open Kernel.Draining Recall.Tokens Recall.BudgetSelector Recall.BudgetBounds Recall.RankingCursor
  Recall.Recaller Recall.ExactCounts

section

variable {Id : Type*} {counter : TokenCounter} {budget : Rat}

def fits (counter : TokenCounter) (budget : Rat) (f : Fragment Id) : Bool :=
  (fragmentTokens counter f : Rat) ≤ budget

theorem budget_nonneg_of_fits {f : Fragment Id} (hfits : fits counter budget f = true) :
    0 ≤ budget :=
  (Nat.cast_nonneg _).trans (of_decide_eq_true hfits)

variable [DecidableEq Id] {pool : List (Fragment Id)} {counts : Counts Id}

theorem fits_of_countUntilOver {exact : Nat}
    (hloose : (countUntilOver counter budget pool exact counts).1 = false) :
    ∀ f ∈ pool, fits counter budget f = true := by
  induction pool generalizing exact counts with
  | nil =>
    intro f hf
    cases hf
  | cons first rest ih =>
    rw [countUntilOver] at hloose
    split at hloose
    · cases hloose
    · rename_i hle
      intro f hf
      rcases mem_cons.mp hf with rfl | hf
      · apply decide_eq_true
        have hpart : ((fragmentTokens counter f : Nat) : Rat)
            ≤ (exact + fragmentTokens counter f : Nat) :=
          Nat.cast_le.mpr (Nat.le_add_left _ _)
        exact hpart.trans (not_lt.mp hle)
      · exact ih hloose f hf

theorem fits_of_exceedsBudget (hloose : (exceedsBudget counter pool budget counts).1 = false) :
    ∀ f ∈ pool, fits counter budget f = true := by
  unfold exceedsBudget at hloose
  split at hloose
  · rename_i hupper
    intro f hf
    apply decide_eq_true
    have hpart : ((fragmentTokens counter f : Nat) : Rat) ≤ ((pool.map tokenUpperBound).sum : Nat)
      :=
      Nat.cast_le.mpr ((fragmentTokens_le_upperBound counter f).trans
        (single_le_sum (fun _ _ => Nat.zero_le _) _ (mem_map_of_mem hf)))
    exact hpart.trans hupper
  · exact fits_of_countUntilOver hloose

theorem fittingPool_spec (budget : Rat) (hknown : Known counter counts pool)
    (hagree : Agree counter pool pool) :
    let fitted := fittingPool counter budget pool counts
    fitted.pool = pool.filter (fits counter budget) ∧
      (fitted.binding = false -> pool ≠ [] -> (exactTotal counter pool : Rat) ≤ budget) := by
  have hcounted := hknown.exceedsBudget budget hagree
  unfold fittingPool
  split
  · rename_i rest hexceeds
    have hloose : (exceedsBudget counter pool budget counts).1 = false :=
      congrArg Prod.fst hexceeds
    have hall := fits_of_exceedsBudget hloose
    constructor
    · exact (filter_eq_self.mpr hall).symm
    · intro _ hpool
      obtain ⟨f, hf⟩ := exists_mem_of_ne_nil pool hpool
      exact (exceedsBudget_eq_false_iff counter pool counts
        (budget_nonneg_of_fits (hall f hf))).mp hloose
  · rename_i rest hexceeds
    rw [hexceeds] at hcounted
    constructor
    · apply filter_congr
      intro f hf
      rw [hcounted.countedTokens_eq hf, fits]
    · intro hbinding
      cases hbinding

end

section

variable {Id Value : Type*} [LinearOrder Id] [Score Value] {query : PageQuery Id Value}
  {pool : List (Fragment Id)}

theorem byRank_perm (query : PageQuery Id Value) (fragments : List (Fragment Id)) :
    (query.byRank fragments).Perm fragments :=
  sortByRank_perm _ fragments

structure Round (query : PageQuery Id Value) (pool round : List (Fragment Id)) : Prop where
  nonempty : round ≠ []
  part : round.Subperm pool
  within : (exactTotal query.counter round : Rat) ≤ query.budget

theorem Round.ofSublist {chosen : List (Fragment Id)} (hsub : chosen.Sublist pool)
    (hnonempty : query.byRank chosen ≠ [])
    (hwithin : (exactTotal query.counter chosen : Rat) ≤ query.budget) :
    Round query pool (query.byRank chosen) := by
  refine ⟨hnonempty, ⟨chosen, (byRank_perm query chosen).symm, hsub⟩, ?_⟩
  rwa [exactTotal_perm query.counter (byRank_perm query chosen)]

section

variable (hpool : pool ≠ [])
include hpool

theorem byRank_ne_nil : query.byRank pool ≠ [] := by
  intro hnil
  have hperm := byRank_perm query pool
  rw [hnil] at hperm
  exact hpool hperm.nil_eq.symm

theorem Round.best (hfits : ∀ f ∈ pool, fits query.counter query.budget f = true) :
    Round query pool ((query.byRank pool).take 1) := by
  cases hsorted : query.byRank pool with
  | nil => exact absurd hsorted (byRank_ne_nil hpool)
  | cons best rest =>
    have hperm := byRank_perm query pool
    rw [hsorted] at hperm
    constructor
    · exact cons_ne_nil best []
    · exact ((take_sublist 1 (best :: rest)).subperm).trans hperm.subperm
    · have hbest := of_decide_eq_true (hfits best (hperm.subset mem_cons_self))
      simpa using hbest

theorem selectRound_round (hids : (pool.map Fragment.id).Nodup)
    (hfits : ∀ f ∈ pool, fits query.counter query.budget f = true) (baseline : List Id)
    (counts : Counts Id) : Round query pool (selectRound query pool baseline counts).1 := by
  obtain ⟨first, hfirst⟩ := exists_mem_of_ne_nil pool hpool
  have hbudget : 0 ≤ query.budget := budget_nonneg_of_fits (hfits first hfirst)
  unfold selectRound
  dsimp only
  split
  · exact Round.best hpool hfits
  · rename_i round hround
    obtain ⟨kept, hsound⟩ := selectForRecall_sound query.counter query.scoreOf
      (fun f => if f.id ∈ query.lexicalOnly then 1 else 0) baseline
      (rankCandidateLimit + linkedFragmentLimit) hbudget hids counts
    have hselected := hsound.selected hids
    rw [hselected] at hround ⊢
    exact Round.ofSublist hsound.sublist hround hsound.within

theorem nextRound_round (hids : (pool.map Fragment.id).Nodup)
    (hfits : ∀ f ∈ pool, fits query.counter query.budget f = true)
    (hloose : query.binding = false -> (exactTotal query.counter pool : Rat) ≤ query.budget)
    (baseline : List Id) (counts : Counts Id) :
    Round query pool (nextRound query pool baseline counts).1 := by
  unfold nextRound
  split
  · exact selectRound_round hpool hids hfits baseline counts
  · rename_i hbinding
    exact Round.ofSublist (Sublist.refl pool) (byRank_ne_nil hpool)
      (hloose (Bool.eq_false_iff.mpr hbinding))

end

structure FrontPage (query : PageQuery Id Value) (pool : List (Fragment Id))
    (choice : PageChoice Id) : Prop where
  consumed : choice.consumed = []
  part : choice.page.Subperm pool
  nonempty : pool ≠ [] -> choice.page ≠ []
  within : choice.page = [] ∨ (exactTotal query.counter choice.page : Rat) ≤ query.budget

theorem findPage_front (hoffset : query.offset = 0) (hlength : query.poolLength = pool.length)
    (hsize : 0 < query.pageSize) (hids : (pool.map Fragment.id).Nodup)
    (hfits : ∀ f ∈ pool, fits query.counter query.budget f = true)
    (hloose : query.binding = false -> pool ≠ [] ->
      (exactTotal query.counter pool : Rat) ≤ query.budget) (baseline : List Id)
    (counts : Counts Id) :
    FrontPage query pool (findPage query pool.length pool baseline [] counts) := by
  cases hpool : pool with
  | nil => exact ⟨rfl, Subperm.refl [], fun hne => absurd rfl hne, .inl rfl⟩
  | cons first rest =>
    have hne : pool ≠ [] := by simp [hpool]
    have hround := nextRound_round hne hids hfits (fun hbinding => hloose hbinding hne) baseline
      counts
    rw [← hpool]
    have hlong : query.offset < ([] : List (Fragment Id)).length
        + (nextRound query pool baseline counts).1.length := by
      rw [hoffset, length_nil, Nat.zero_add]
      exact length_pos_iff.mpr hround.nonempty
    have hopen : ¬ (pool = [] ∨ query.poolLength ≤ query.offset) := by
      rw [hoffset, hlength]
      simp [hne]
    have hchoice : findPage query pool.length pool baseline [] counts
        = { page := (nextRound query pool baseline counts).1.take query.pageSize
            consumed := []
            counts := (nextRound query pool baseline counts).2 } := by
      rw [show pool.length = rest.length + 1 by simp [hpool], findPage, if_neg hopen]
      dsimp only
      rw [if_pos hlong, hoffset]
      simp
    rw [hchoice]
    have hsub : ((nextRound query pool baseline counts).1.take query.pageSize).Sublist
        (nextRound query pool baseline counts).1 := take_sublist _ _
    refine ⟨rfl, hsub.subperm.trans hround.part, fun _ => ?_, .inr ?_⟩
    · intro hnil
      rcases take_eq_nil_iff.mp hnil with hzero | hempty
      · omega
      · exact hround.nonempty hempty
    · exact (Nat.cast_le.mpr (exactTotal_le_of_sublist query.counter hsub)).trans hround.within

end

section

variable {Id Value : Type*} [LinearOrder Id]

def foundFragments (backend : Backend Id Value) (params : RecallParams) (anchorTime : Int) :
    List (Fragment Id) :=
  (searchCandidates backend params anchorTime).candidates ++
    loadLinkedFragments backend params anchorTime (searchCandidates backend params anchorTime)

def seenKey (backend : Backend Id Value) (f : Fragment Id) : String :=
  backend.seenKeys.rankingSeenKey f.id

def pagePool (backend : Backend Id Value) (params : RecallParams) (anchorTime : Int) :
    List (Fragment Id) :=
  (foundFragments backend params anchorTime).filter fun f =>
    recallFilter backend params f && fits backend.counter params.budget f

def visible (backend : Backend Id Value) (params : RecallParams) (f : Fragment Id) : Bool :=
  f.linked || finishKeeps backend params f

def eligible (backend : Backend Id Value) (params : RecallParams) (anchorTime : Int) :
    List (Fragment Id) :=
  (pagePool backend params anchorTime).filter (visible backend params)

variable {backend : Backend Id Value} {params : RecallParams} {anchorTime : Int}

theorem pageLimit_pos : 0 < params.pageLimit := by
  have hsize : 0 < (truthy params.pageSize).getD defaultPageSize := by
    cases hpage : truthy params.pageSize with
    | none => decide
    | some size =>
      have hnonzero := (Option.filter_eq_some_iff.mp hpage).2
      exact Nat.pos_of_ne_zero (of_decide_eq_true hnonzero)
  have hmax : 0 < maxPageSize := by decide
  exact lt_min hsize hmax

theorem foundFragments_subset :
    foundFragments backend params anchorTime ⊆ objects backend params anchorTime := by
  intro f hf
  rcases mem_append.mp hf with hf | hf
  · exact mem_append_left _ (partitionCandidates_subset hf)
  · exact mem_append_right _ hf

theorem unseenPool_fits (returned : List (Fragment Id)) :
    (unseenPool backend params (returned.map (seenKey backend))
        (foundFragments backend params anchorTime)).filter (fits backend.counter params.budget)
      = remaining (seenKey backend) (pagePool backend params anchorTime) returned := by
  simp only [unseenPool, pagePool, remaining, filter_filter, seenKey]
  apply filter_congr
  intro f _
  cases recallFilter backend params f <;> simp [Bool.and_comm]

theorem filter_mem_ids_perm {all page : List (Fragment Id)} (hids : (all.map Fragment.id).Nodup)
    (hpage : page.Subperm all) : (all.filter fun f => f.id ∈ page.map Fragment.id).Perm page := by
  obtain ⟨middle, hmiddle, hsub⟩ := hpage
  have hsame : (all.filter fun f => f.id ∈ page.map Fragment.id)
      = all.filter fun f => f.id ∈ middle.map Fragment.id := by
    apply filter_congr
    intro f _
    simp only [(hmiddle.map Fragment.id).mem_iff]
  rw [hsame, filter_mem_ids hsub hids]
  exact hmiddle

theorem respond_fragments {candidates linked page : List (Fragment Id)}
    (hids : ((candidates ++ linked).map Fragment.id).Nodup)
    (hcandidates : ∀ f ∈ candidates, f.linked = false) (hlinked : ∀ f ∈ linked, f.linked = true)
    (hpage : page.Subperm (candidates ++ linked)) :
    ((candidates.filter fun f => f.id ∈ page.map Fragment.id).filter
        (finishKeeps backend params) ++
      linked.filter fun f => f.id ∈ page.map Fragment.id).Perm
      (page.filter (visible backend params)) := by
  have hvisible := (filter_mem_ids_perm hids hpage).filter (visible backend params)
  rw [filter_append, filter_append] at hvisible
  refine Perm.trans ?_ hvisible
  apply Perm.of_eq
  congr 1
  · apply filter_congr
    intro f hf
    simp [visible, hcandidates f (mem_of_mem_filter hf)]
  · refine (filter_eq_self.mpr ?_).symm
    intro f hf
    simp [visible, hlinked f (mem_of_mem_filter hf)]

structure PageOf (backend : Backend Id Value) (params : RecallParams) (anchorTime : Int)
    (returned page : List (Fragment Id)) (response : RecallResponse Id) : Prop where
  part : page.Subperm
    (remaining (seenKey backend) (pagePool backend params anchorTime) returned)
  nonempty : remaining (seenKey backend) (pagePool backend params anchorTime) returned ≠ [] ->
    page ≠ []
  within : page = [] ∨ (exactTotal backend.counter page : Rat) ≤ params.budget
  fragments : response.fragments.Perm (page.filter (visible backend params))
  totalCount : response.totalCount = returned.length +
    (remaining (seenKey backend) (pagePool backend params anchorTime) returned).length
  nextCursor : response.nextCursor =
    if page.length
        < (remaining (seenKey backend) (pagePool backend params anchorTime) returned).length then
      some (encodeSeenCursor ((returned ++ page).map (seenKey backend)) anchorTime)
    else none

theorem foundFragments_idsNodup
    (hkeys : ((foundFragments backend params anchorTime).map (seenKey backend)).Nodup) :
    ((foundFragments backend params anchorTime).map Fragment.id).Nodup := by
  have hmap : (foundFragments backend params anchorTime).map (seenKey backend)
      = ((foundFragments backend params anchorTime).map Fragment.id).map
        backend.seenKeys.rankingSeenKey := by
    rw [map_map]
    rfl
  rw [hmap] at hkeys
  exact hkeys.of_map

variable [Score Value]

theorem selectRankedWithinBudget_page
    (hkeys : ((foundFragments backend params anchorTime).map (seenKey backend)).Nodup)
    (returned : List (Fragment Id)) :
    ∃ page, PageOf backend params anchorTime returned page
      (selectRankedWithinBudget backend params 0 (returned.map (seenKey backend))
        anchorTime) := by
  let partition := searchCandidates backend params anchorTime
  let linked := loadLinkedFragments backend params anchorTime partition
  let unseen := unseenPool backend params (returned.map (seenKey backend))
    (partition.candidates ++ linked)
  let fitted := fittingPool backend.counter params.budget unseen partition.counts
  let query := pageQuery backend params 0 anchorTime partition.candidates linked fitted
  let choice := findPage query fitted.pool.length fitted.pool partition.baselineIds []
    fitted.counts
  have hids := foundFragments_idsNodup hkeys
  have hsub : unseen.Sublist (foundFragments backend params anchorTime) := filter_sublist
  have hobjects : unseen ⊆ objects backend params anchorTime :=
    fun f hf => foundFragments_subset (hsub.subset hf)
  have hknown : Known backend.counter partition.counts unseen := partition_known.mono hobjects
  have hagree : Agree backend.counter unseen unseen := agree_self ((hsub.map _).nodup hids)
  obtain ⟨hpool, hloose⟩ := fittingPool_spec params.budget hknown hagree
  have hremaining : fitted.pool
      = remaining (seenKey backend) (pagePool backend params anchorTime) returned :=
    hpool.trans (unseenPool_fits returned)
  have hpoolSub : fitted.pool.Sublist unseen := by
    rw [hpool]
    exact filter_sublist
  have hfits : ∀ f ∈ fitted.pool, fits query.counter query.budget f = true := by
    intro f hf
    rw [hpool] at hf
    exact (mem_filter.mp hf).2
  have hwhole : query.binding = false -> fitted.pool ≠ [] ->
      (exactTotal query.counter fitted.pool : Rat) ≤ query.budget := by
    intro hbinding hnonempty
    have hunseen : unseen ≠ [] := by
      intro hnil
      rw [hnil] at hpoolSub
      exact hnonempty (sublist_nil.mp hpoolSub)
    exact (Nat.cast_le.mpr (exactTotal_le_of_sublist _ hpoolSub)).trans (hloose hbinding hunseen)
  have hfront : FrontPage query fitted.pool choice :=
    findPage_front rfl rfl pageLimit_pos (((hpoolSub.trans hsub).map _).nodup hids) hfits hwhole
      partition.baselineIds fitted.counts
  refine ⟨choice.page, ?_, ?_, hfront.within, ?_, ?_, ?_⟩
  · exact hremaining ▸ hfront.part
  · exact hremaining ▸ hfront.nonempty
  · refine (byRank_perm query _).trans (respond_fragments hids ?_ ?_ ?_)
    · exact fun f hf => countedResults_notLinked f (partitionCandidates_subset hf)
    · exact loadLinkedFragments_linked
    · exact hfront.part.trans (hpoolSub.trans hsub).subperm
  · change (returned.map (seenKey backend)).length + fitted.pool.length = _
    rw [length_map, hremaining]
  · change (if choice.page ≠ [] ∧ choice.consumed.length + choice.page.length < fitted.pool.length
        then some (encodeSeenCursor (returned.map (seenKey backend) ++
          (choice.consumed ++ choice.page).map (seenKey backend)) anchorTime) else none) = _
    rw [hfront.consumed, ← hremaining, length_nil, Nat.zero_add, nil_append,
      ← map_append]
    by_cases hmore : choice.page.length < fitted.pool.length
    · have hpage : choice.page ≠ [] := by
        apply hfront.nonempty
        intro hnil
        rw [hnil] at hmore
        exact absurd hmore (Nat.not_lt_zero _)
      rw [if_pos ⟨hpage, hmore⟩, if_pos hmore]
    · rw [if_neg (fun hboth => hmore hboth.2), if_neg hmore]

end

variable {Id Value : Type*} {backend : Backend Id Value} {params : RecallParams}

structure Shows (backend : Backend Id Value) (params : RecallParams) (poolSize : Nat)
    (page : List (Fragment Id)) (response : RecallResponse Id) : Prop where
  fragments : response.fragments.Perm (page.filter (visible backend params))
  within : page = [] ∨ (exactTotal backend.counter page : Rat) ≤ params.budget
  totalCount : response.totalCount = poolSize

variable {poolSize : Nat}

theorem Shows.fragments_within {page : List (Fragment Id)} {response : RecallResponse Id}
    (hshows : Shows backend params poolSize page response) :
    response.fragments = [] ∨
      (exactTotal backend.counter response.fragments : Rat) ≤ params.budget := by
  have htotal : exactTotal backend.counter response.fragments
      ≤ exactTotal backend.counter page := by
    rw [exactTotal_perm backend.counter hshows.fragments]
    exact exactTotal_le_of_sublist _ filter_sublist
  rcases hshows.within with rfl | hwithin
  · exact .inl hshows.fragments.eq_nil
  · exact .inr ((Nat.cast_le.mpr htotal).trans hwithin)

variable {pages : List (List (Fragment Id))}

theorem flatMap_fragments_perm {responses : List (RecallResponse Id)}
    (hshows : Forall₂ (Shows backend params poolSize) pages responses) :
    (responses.flatMap RecallResponse.fragments).Perm
      (pages.flatten.filter (visible backend params)) := by
  induction hshows with
  | nil => exact Perm.refl _
  | cons hpage _ ih =>
    rw [flatMap_cons, flatten_cons, filter_append]
    exact hpage.fragments.append ih

theorem Shows.of_mem {responses : List (RecallResponse Id)}
    (hshows : Forall₂ (Shows backend params poolSize) pages responses)
    {response : RecallResponse Id} (hresponse : response ∈ responses) :
    ∃ page, Shows backend params poolSize page response := by
  induction hshows with
  | nil => cases hresponse
  | @cons page _ _ _ hpage _ ih =>
    rcases mem_cons.mp hresponse with rfl | hrest
    · exact ⟨page, hpage⟩
    · exact ih hrest

section

theorem nodup_map_of_subperm {Item Key : Type*} {key : Item -> Key} {part pool : List Item}
    (hkeys : (pool.map key).Nodup) (hpart : part.Subperm pool) : (part.map key).Nodup := by
  obtain ⟨middle, hmiddle, hsub⟩ := hpart
  exact (hmiddle.map key).nodup_iff.mp ((hsub.map key).nodup hkeys)

variable {Id Value : Type*} [LinearOrder Id]

def firstAnchor (params : RecallParams) (clock : Nat -> Int) : Int :=
  params.anchorTime.getD (clock 0)

abbrev drained (backend : Backend Id Value) (params : RecallParams) (clock : Nat -> Int) :
    List (Fragment Id) :=
  pagePool backend params (firstAnchor params clock)

variable {backend : Backend Id Value} {params : RecallParams} {clock : Nat -> Int}

theorem drained_keysNodup
    (hkeys : ((foundFragments backend params (firstAnchor params clock)).map
      (seenKey backend)).Nodup) : ((drained backend params clock).map (seenKey backend)).Nodup :=
  (filter_sublist.map _).nodup hkeys

theorem PageOf.shows
    (hkeys : ((foundFragments backend params (firstAnchor params clock)).map
      (seenKey backend)).Nodup) {returned page : List (Fragment Id)} {response : RecallResponse Id}
    (hpage : PageOf backend params (firstAnchor params clock) returned page response)
    (hreturned : returned.Subperm (drained backend params clock)) :
    Shows backend params (drained backend params clock).length page response := by
  refine ⟨hpage.fragments, hpage.within, ?_⟩
  rw [hpage.totalCount]
  exact length_add_remaining (drained_keysNodup hkeys) hreturned

variable [Score Value]

inductive Followed (backend : Backend Id Value) (params : RecallParams) (clock : Nat -> Int) :
    Nat -> Option Cursor -> List (RecallResponse Id) -> Prop
  | last {call : Nat} {cursor : Option Cursor}
      (hend : («recall» backend params cursor (clock call)).nextCursor = none) :
      Followed backend params clock call cursor [«recall» backend params cursor (clock call)]
  | next {call : Nat} {cursor : Option Cursor} {following : Cursor}
      {rest : List (RecallResponse Id)}
      (hnext : («recall» backend params cursor (clock call)).nextCursor = some following)
      (hrest : Followed backend params clock (call + 1) (some following) rest) :
      Followed backend params clock call cursor
        («recall» backend params cursor (clock call) :: rest)

def AtPosition (backend : Backend Id Value) (params : RecallParams) (clock : Nat -> Int)
    (call : Nat) (cursor : Option Cursor) (returned : List (Fragment Id)) : Prop :=
  «recall» backend params cursor (clock call)
    = selectRankedWithinBudget backend params 0 (returned.map (seenKey backend))
        (firstAnchor params clock)

theorem atPosition_first : AtPosition backend params clock 0 none [] := rfl

variable {returned : List (Fragment Id)}

theorem atPosition_of_cursor (hkeys : (returned.map (seenKey backend)).Nodup) (call : Nat) :
    AtPosition backend params clock call
      (some (encodeSeenCursor (returned.map (seenKey backend)) (firstAnchor params clock)))
      returned := by
  have hmap : returned.map (seenKey backend)
      = (returned.map Fragment.id).map backend.seenKeys.rankingSeenKey := by
    rw [map_map]
    rfl
  rw [hmap] at hkeys
  have hdecode := decode_encodeSeenCursor backend.seenKeys hkeys (firstAnchor params clock)
  rw [AtPosition, «recall», hmap, hdecode]
  rfl

section

variable (hkeys : ((foundFragments backend params (firstAnchor params clock)).map
  (seenKey backend)).Nodup)

include hkeys

variable {cursor : Option Cursor}

theorem Followed.drains {call : Nat} {responses : List (RecallResponse Id)}
    (hfollowed : Followed backend params clock call cursor responses)
    (hreturned : returned.Subperm (drained backend params clock))
    (hposition : AtPosition backend params clock call cursor returned) :
    ∃ pages, Drains (seenKey backend) (drained backend params clock) returned pages ∧
      Forall₂ (Shows backend params (drained backend params clock).length) pages
        responses := by
  induction hfollowed generalizing returned with
  | last hend =>
    obtain ⟨page, hpage⟩ := selectRankedWithinBudget_page hkeys returned
    rw [AtPosition] at hposition
    rw [hposition] at hend ⊢
    rw [hpage.nextCursor] at hend
    have hall : ¬ page.length
        < (remaining (seenKey backend) (drained backend params clock) returned).length := by
      intro hmore
      rw [if_pos hmore] at hend
      cases hend
    refine ⟨[page], .last ?_, .cons (hpage.shows hkeys hreturned) .nil⟩
    exact hpage.part.perm_of_length_le (Nat.le_of_not_lt hall)
  | @next call cursor following rest hnext _ ih =>
    obtain ⟨page, hpage⟩ := selectRankedWithinBudget_page hkeys returned
    rw [AtPosition] at hposition
    rw [hposition] at hnext ⊢
    rw [hpage.nextCursor] at hnext
    have hmore : page.length
        < (remaining (seenKey backend) (drained backend params clock) returned).length := by
      by_contra hall
      rw [if_neg hall] at hnext
      cases hnext
    rw [if_pos hmore] at hnext
    cases hnext
    have hgrown : (returned ++ page).Subperm (drained backend params clock) :=
      append_subperm (drained_keysNodup hkeys) hreturned hpage.part
    obtain ⟨pages, hdrains, hshows⟩ := ih hgrown
      (atPosition_of_cursor (nodup_map_of_subperm (drained_keysNodup hkeys) hgrown) _)
    have hnonempty : page ≠ [] := by
      apply hpage.nonempty
      intro hnil
      rw [hnil] at hmore
      exact absurd hmore (Nat.not_lt_zero _)
    exact ⟨page :: pages, .next hpage.part hnonempty hdrains,
      .cons (hpage.shows hkeys hreturned) hshows⟩

theorem exists_followed (bound : Nat) {call : Nat}
    (hreturned : returned.Subperm (drained backend params clock))
    (hbound : (remaining (seenKey backend) (drained backend params clock) returned).length
      ≤ bound) (hposition : AtPosition backend params clock call cursor returned) :
    ∃ responses, Followed backend params clock call cursor responses := by
  induction bound generalizing call cursor returned with
  | zero =>
    obtain ⟨page, hpage⟩ := selectRankedWithinBudget_page hkeys returned
    refine ⟨_, .last ?_⟩
    rw [AtPosition] at hposition
    rw [hposition, hpage.nextCursor, if_neg]
    exact Nat.not_lt_of_le (hbound.trans (Nat.zero_le _))
  | succ bound ih =>
    obtain ⟨page, hpage⟩ := selectRankedWithinBudget_page hkeys returned
    rw [AtPosition] at hposition
    by_cases hmore : page.length
        < (remaining (seenKey backend) (drained backend params clock) returned).length
    · have hnext := hpage.nextCursor
      rw [if_pos hmore, ← hposition] at hnext
      have hgrown : (returned ++ page).Subperm (drained backend params clock) :=
        append_subperm (drained_keysNodup hkeys) hreturned hpage.part
      have hnonempty : page ≠ [] := by
        apply hpage.nonempty
        intro hnil
        rw [hnil] at hmore
        exact absurd hmore (Nat.not_lt_zero _)
      have hpos := length_pos_iff.mpr hnonempty
      have hsplit := length_add_remaining
        (((remaining_sublist (seenKey backend) _ _).map _).nodup (drained_keysNodup hkeys))
        hpage.part
      rw [← remaining_append] at hsplit
      obtain ⟨rest, hrest⟩ := ih hgrown (by omega)
        (atPosition_of_cursor (nodup_map_of_subperm (drained_keysNodup hkeys) hgrown)
          (call + 1))
      exact ⟨_, .next hnext hrest⟩
    · refine ⟨_, .last ?_⟩
      rw [hposition, hpage.nextCursor, if_neg hmore]

end

/-- Following the cursors of a recall comes to an end, and the answers return
every eligible fragment once, each within the token budget and all with the same
total. -/
theorem recall_pages_return_eligible_once (clock : Nat -> Int)
    (hkeys : ((foundFragments backend params (firstAnchor params clock)).map
      (seenKey backend)).Nodup) :
    (∃ responses, Followed backend params clock 0 none responses) ∧
      ∀ responses, Followed backend params clock 0 none responses ->
        (responses.flatMap RecallResponse.fragments).Perm
            (eligible backend params (firstAnchor params clock)) ∧
          responses.length ≤ (drained backend params clock).length + 1 ∧
          ∀ response ∈ responses,
            response.totalCount = (drained backend params clock).length ∧
              (response.fragments = [] ∨
                (exactTotal backend.counter response.fragments : Rat) ≤ params.budget) := by
  have hempty : ([] : List (Fragment Id)).Subperm (drained backend params clock) :=
    nil_subperm
  constructor
  · exact exists_followed hkeys _ hempty (Nat.le_refl _) atPosition_first
  · intro responses hfollowed
    obtain ⟨pages, hdrains, hshows⟩ := hfollowed.drains hkeys hempty atPosition_first
    have hperm := hdrains.perm (drained_keysNodup hkeys) hempty
    have hlength := hdrains.length_le (drained_keysNodup hkeys) hempty
    rw [remaining_nil] at hlength
    refine ⟨?_, hshows.length_eq ▸ hlength, ?_⟩
    · exact (flatMap_fragments_perm hshows).trans (hperm.filter _)
    · intro response hresponse
      obtain ⟨page, hpage⟩ := Shows.of_mem hshows hresponse
      exact ⟨hpage.totalCount, hpage.fragments_within⟩

end

def markOf (id : String) : String :=
  if id = "a" then "ypeBEsob" else if id = "b" then "PiPoFgA5" else "Ln0sA6lQ"

theorem markOf_valid (id : String) :
    (markOf id).toList.length = seenKeyLength ∧ (markOf id).toList.all isSeenChar = true := by
  unfold markOf
  split
  · decide
  · split <;> decide

/-- Two fragments that fit the budget one at a time, and one that never fits. -/
def smallStore : Backend String Rat where
  counter := approximateCounter
  seenKeys :=
    { rankingSeenKey := markOf
      length_eq := fun id => (markOf_valid id).1
      alphabet := fun id => all_eq_true.mp (markOf_valid id).2 }
  search := fun _ =>
    { ordered :=
      [{ id := "a", estimatedTokens := some 6 }, { id := "b", estimatedTokens := some 5 },
        { id := "c", estimatedTokens := some 20 }]
      idsNodup := by decide
      notLinked := by simp }
  storedTokenCounts := fun _ => none
  linkedRows := fun _ _ => []
  scoreOf := fun _ _ => some 1
  seenInContext := []
  cbrFilter := false

def smallParams : RecallParams := { tokenBudget := some 10 }

/-- Each page holds one of the two, and both pages count two. -/
theorem smallStore_pages :
    (∃ responses, Followed smallStore smallParams (fun _ => 0) 0 none responses) ∧
      (drained smallStore smallParams fun _ => 0).length = 2 ∧
      ∀ responses, Followed smallStore smallParams (fun _ => 0) 0 none responses ->
        (responses.flatMap RecallResponse.fragments).Perm (eligible smallStore smallParams 0) ∧
          ∀ response ∈ responses, response.totalCount = 2 := by
  have hkeys : ((foundFragments smallStore smallParams 0).map (seenKey smallStore)).Nodup := by
    decide +kernel
  have hsize : (drained smallStore smallParams fun _ => 0).length = 2 := by decide +kernel
  obtain ⟨hexists, hall⟩ := recall_pages_return_eligible_once (fun _ => 0) hkeys
  refine ⟨hexists, hsize, fun responses hfollowed => ?_⟩
  obtain ⟨hperm, -, hpages⟩ := hall responses hfollowed
  exact ⟨hperm, fun response hresponse => (hpages response hresponse).1.trans hsize⟩

end AnchorMind.Recall.Paging
