import AnchorMind.Recall.BudgetSelector
import Mathlib.Data.List.MinMax
import Mathlib.Data.Prod.Lex

/-!
# Constructing a selection

Every choice of a construction is the least fitting item in a lexicographic
rank that ends with the id.  Taking an item keeps the books: the taken marks are
the chosen items, the used tokens are their sum.  The fill stage ends only when
nothing fits any more.
-/

namespace AnchorMind.Recall.Construction

open Recall.BudgetSelector List

section

variable {Id Value : Type*} [LinearOrder Id] [Score Value]

def sectionRank (item : Item Id Value) : Nat ×ₗ Valueᵒᵈ ×ₗ Id :=
  toLex (item.tier, toLex (OrderDual.toDual item.score, item.key))

def fillRank (lambda : Value) (state : Build Id Value) (item : Item Id Value) :
    Nat ×ₗ Valueᵒᵈ ×ₗ Valueᵒᵈ ×ₗ Id :=
  toLex (item.tier, toLex (OrderDual.toDual (fillKey lambda state item),
    toLex (OrderDual.toDual item.score, item.key)))

theorem byScoreThenId_eq_lt_iff (a b : Item Id Value) :
    byScoreThenId a b = .lt <-> sectionRank a < sectionRank b := by
  simp only [byScoreThenId, sectionRank, Ordering.then_eq_lt, compare_lt_iff_lt,
    compare_eq_iff_eq, Prod.Lex.toLex_lt_toLex, OrderDual.toDual_lt_toDual,
    EmbeddingLike.apply_eq_iff_eq]
  rw [eq_comm (a := b.score)]

theorem betterFillCandidate_iff (lambda : Value) (state : Build Id Value)
    (item best : Item Id Value) :
    betterFillCandidate item (fillKey lambda state item)
        (some (best, fillKey lambda state best)) = true <->
      fillRank lambda state item < fillRank lambda state best := by
  simp only [betterFillCandidate, fillRank, Prod.Lex.toLex_lt_toLex, OrderDual.toDual_lt_toDual,
    EmbeddingLike.apply_eq_iff_eq]
  by_cases htier : item.tier = best.tier
  · have hrank : sectionRank item < sectionRank best <->
        best.score < item.score \/ item.score = best.score /\ item.key < best.key := by
      simp [sectionRank, Prod.Lex.toLex_lt_toLex, htier]
    rw [if_neg (not_not.mpr htier), Bool.or_eq_true, Bool.and_eq_true, decide_eq_true_iff,
      decide_eq_true_iff, beq_iff_eq, byScoreThenId_eq_lt_iff, hrank]
    simp only [htier, lt_self_iff_false, true_and, false_or]
  · rw [if_pos htier, decide_eq_true_iff]
    simp only [htier, false_and, or_false]

def sectionCandidates (budget : Rat) (state : Build Id Value) (sec : Section)
    (items : List (Item Id Value)) : List (Item Id Value) :=
  items.filter fun item => item.section = sec ∧ 0 < item.score ∧ state.fits budget item

theorem bestOfSection_eq (budget : Rat) (state : Build Id Value) (sec : Section)
    (items : List (Item Id Value)) :
    bestOfSection budget state sec items =
      (sectionCandidates budget state sec items).argmin sectionRank := by
  rw [sectionCandidates, argmin, foldl_filter]
  refine congrArg (fun step => items.foldl step none) ?_
  funext best item
  by_cases hcandidate : item.section = sec ∧ 0 < item.score ∧ state.fits budget item
  · rw [if_pos hcandidate, if_pos (decide_eq_true hcandidate)]
    cases best with
    | none => rfl
    | some other => simp only [byScoreThenId_eq_lt_iff]; rfl
  · rw [if_neg hcandidate, if_neg (by simpa using hcandidate)]

theorem bestFill_eq (budget : Rat) (lambda : Value) (state : Build Id Value)
    (items : List (Item Id Value)) :
    bestFill budget lambda state items =
      ((items.filter (state.fits budget)).argmin (fillRank lambda state)).map
        fun item => (item, fillKey lambda state item) := by
  let step := fun best item =>
    if state.fits budget item then
      argAux (fun a b => fillRank lambda state a < fillRank lambda state b) best item
    else best
  let keyed := Option.map fun item => (item, fillKey lambda state item)
  let fillStep : Best Id Value -> Item Id Value -> Best Id Value := fun best item =>
    if state.fits budget item then
      let key := fillKey lambda state item
      if betterFillCandidate item key best then some (item, key) else best
    else best
  have hstep : ∀ best item, fillStep (keyed best) item = keyed (step best item) := by
    intro best item
    by_cases hfits : state.fits budget item
    · cases best with
      | none => simp [step, keyed, fillStep, hfits, betterFillCandidate, argAux]
      | some other =>
        by_cases hless : fillRank lambda state item < fillRank lambda state other
        · simp [step, keyed, fillStep, hfits, argAux, hless,
            (betterFillCandidate_iff lambda state item other).mpr hless]
        · have hkeep := (not_congr (betterFillCandidate_iff lambda state item other)).mpr hless
          simp [step, keyed, fillStep, hfits, argAux, hless, hkeep]
    · simp [step, fillStep, hfits]
  rw [argmin, foldl_filter]
  exact @foldl_hom _ _ _ keyed step fillStep items none hstep

end

section

variable {Id Value : Type*} {items : List (Item Id Value)}

def tokenSum (items : List (Item Id Value)) : Nat := (items.map Item.tokens).sum

structure Kept (items : List (Item Id Value)) (state : Build Id Value) : Prop where
  subset : state.chosen ⊆ items
  nodup : state.chosen.Nodup
  taken : ∀ item ∈ items, (state.taken item.index = true <-> item ∈ state.chosen)
  used : state.used = tokenSum state.chosen

theorem eq_of_index (hindex : (items.map Item.index).Nodup) {a b : Item Id Value} (ha : a ∈ items)
    (hb : b ∈ items) (hsame : a.index = b.index) : a = b :=
  inj_on_of_nodup_map hindex ha hb hsame

variable {state : Build Id Value} {item : Item Id Value}

theorem fits_iff {budget : Rat} (hkept : Kept items state) (hitem : item ∈ items) :
    state.fits budget item = true <->
      item ∉ state.chosen /\ ((state.used + item.tokens : Nat) : Rat) ≤ budget := by
  rw [Build.fits, Bool.and_eq_true, decide_eq_true_iff, Bool.not_eq_true',
    Bool.eq_false_iff, Ne, hkept.taken item hitem]

theorem Kept.all_chosen (hkept : Kept items state) (hlength : items.length ≤ state.chosen.length)
    (hitem : item ∈ items) : item ∈ state.chosen := by
  have hperm := (subperm_of_subset hkept.nodup hkept.subset).perm_of_length_le hlength
  exact hperm.symm.subset hitem

variable [Score Value]

theorem start_kept : Kept items (Build.start : Build Id Value) :=
  ⟨nil_subset items, nodup_nil, by simp [Build.start], rfl⟩

theorem Kept.take (hindex : (items.map Item.index).Nodup) (hkept : Kept items state)
    (hitem : item ∈ items) (hfresh : item ∉ state.chosen) : Kept items (state.take items item) := by
  refine ⟨?_, ?_, ?_, ?_⟩
  · intro other hother
    rcases mem_append.mp hother with hother | hother
    · exact hkept.subset hother
    · exact mem_singleton.mp hother ▸ hitem
  · refine nodup_append.mpr ⟨hkept.nodup, nodup_singleton item, ?_⟩
    intro other hother last hlast heq
    exact hfresh (mem_singleton.mp hlast ▸ heq ▸ hother)
  · intro other hother
    simp only [Build.take, mem_append, mem_singleton]
    by_cases hsame : other.index = item.index
    · simp [eq_of_index hindex hother hitem hsame]
    · have hne : other ≠ item := fun heq => hsame (congrArg Item.index heq)
      rw [Function.update_of_ne hsame, hkept.taken other hother]
      simp [hne]
  · simp only [Build.take, tokenSum, map_append, sum_append, hkept.used, map_cons,
      map_nil, sum_singleton]

structure Within (items : List (Item Id Value)) (budget : Rat) (state : Build Id Value) : Prop
    extends Kept items state where
  within : (state.used : Rat) ≤ budget

variable {budget : Rat} {lambda : Value}

theorem Within.take (hindex : (items.map Item.index).Nodup) (hwithin : Within items budget state)
    (hitem : item ∈ items) (hfits : state.fits budget item = true) :
    Within items budget (state.take items item) := by
  obtain ⟨hfresh, hle⟩ := (fits_iff hwithin.toKept hitem).mp hfits
  exact ⟨hwithin.toKept.take hindex hitem hfresh, hle⟩

variable {seed : List (Item Id Value)}

/-- The seed is taken unasked, so its total has to fit beforehand. -/
theorem seed_kept (hindex : (items.map Item.index).Nodup) (hkept : Kept items state)
    (hsubset : seed ⊆ items) (hnodup : (state.chosen ++ seed).Nodup) :
    Kept items (seed.foldl (Build.take items) state) /\
      (seed.foldl (Build.take items) state).chosen = state.chosen ++ seed := by
  induction seed generalizing state with
  | nil => exact ⟨hkept, (append_nil _).symm⟩
  | cons item seed ih =>
    have hitem : item ∈ items := hsubset mem_cons_self
    have hfresh : item ∉ state.chosen := fun hmem =>
      (nodup_append.mp hnodup).2.2 item hmem item mem_cons_self rfl
    obtain ⟨hafter, hchosen⟩ := ih (hkept.take hindex hitem hfresh)
      (fun other hother => hsubset (mem_cons_of_mem _ hother))
      (by simpa [Build.take] using hnodup)
    exact ⟨hafter, by rw [foldl_cons, hchosen]; simp [Build.take]⟩

variable [LinearOrder Id] {best : Item Id Value}

theorem bestOfSection_mem {sec : Section}
    (hbest : bestOfSection budget state sec items = some best) :
    best ∈ items /\ state.fits budget best = true := by
  rw [bestOfSection_eq] at hbest
  have hmem := argmin_mem hbest
  simp only [sectionCandidates, mem_filter, decide_eq_true_iff] at hmem
  exact ⟨hmem.1, hmem.2.2.2⟩

theorem representSections_within (hindex : (items.map Item.index).Nodup)
    (represented : List Section) (hwithin : Within items budget state) :
    Within items budget (representSections items budget represented state) := by
  unfold representSections
  induction sectionOrder generalizing state with
  | nil => exact hwithin
  | cons sec rest ih =>
    rw [foldl_cons]
    refine ih ?_
    split
    · exact hwithin
    · cases hbest : bestOfSection budget state sec items with
      | none => exact hwithin
      | some best =>
        obtain ⟨hitem, hfits⟩ := bestOfSection_mem hbest
        exact hwithin.take hindex hitem hfits

theorem bestFill_mem {key : Value} (hbest : bestFill budget lambda state items = some (best, key)) :
    best ∈ items /\ state.fits budget best = true := by
  rw [bestFill_eq, Option.map_eq_some_iff] at hbest
  obtain ⟨item, hleast, hpair⟩ := hbest
  obtain ⟨rfl, -⟩ := Prod.mk.inj hpair
  exact mem_filter.mp (argmin_mem hleast)

theorem bestFill_eq_none_iff :
    bestFill budget lambda state items = none <->
      ∀ item ∈ items, state.fits budget item = false := by
  rw [bestFill_eq, Option.map_eq_none_iff, argmin_eq_none, filter_eq_nil_iff]
  simp only [Bool.not_eq_true]

theorem fill_spec (lambda : Value) (hindex : (items.map Item.index).Nodup) {rounds : Nat}
    (hwithin : Within items budget state) (hrounds : items.length ≤ state.chosen.length + rounds) :
    Within items budget (fill items budget lambda rounds state) /\
      ∀ item ∈ items,
        (fill items budget lambda rounds state).fits budget item = false := by
  induction rounds generalizing state with
  | zero =>
    refine ⟨hwithin, fun item hitem => Bool.eq_false_iff.mpr fun hfits => ?_⟩
    exact ((fits_iff hwithin.toKept hitem).mp hfits).1 (hwithin.all_chosen hrounds hitem)
  | succ rounds ih =>
    rw [fill]
    cases hbest : bestFill budget lambda state items with
    | none => exact ⟨hwithin, bestFill_eq_none_iff.mp hbest⟩
    | some pair =>
      obtain ⟨hitem, hfits⟩ := bestFill_mem hbest
      refine ih (hwithin.take hindex hitem hfits) ?_
      simp only [Build.take, length_append, length_singleton]
      omega

/-- A construction from a seed that fits stays within the budget, and nothing it
left out still fits. -/
theorem buildSolution_spec (lambda : Value) (hindex : (items.map Item.index).Nodup)
    (hseed : seed.Sublist items) (hbudget : (tokenSum seed : Rat) ≤ budget) :
    Within items budget (buildSolution items budget seed lambda) /\
      ∀ item ∈ items, item ∉ (buildSolution items budget seed lambda).chosen ->
        budget < ((buildSolution items budget seed lambda).used + item.tokens : Nat) := by
  have hnodup : seed.Nodup := hseed.nodup (Nodup.of_map _ hindex)
  obtain ⟨hkept, hchosen⟩ := seed_kept hindex start_kept hseed.subset
    (by simpa [Build.start] using hnodup)
  have hseeded : Within items budget (seed.foldl (Build.take items) Build.start) := by
    refine ⟨hkept, ?_⟩
    rw [hkept.used, hchosen]
    exact hbudget
  have hrepresented := representSections_within hindex
    ((seed.foldl (Build.take items) Build.start).chosen.map Item.section) hseeded
  obtain ⟨hwithin, hstuck⟩ := fill_spec lambda hindex hrepresented
    (Nat.le_add_left items.length _)
  refine ⟨hwithin, fun item hitem hout => not_le.mp fun hle => ?_⟩
  exact Bool.eq_false_iff.mp (hstuck item hitem)
    ((fits_iff hwithin.toKept hitem).mpr ⟨hout, hle⟩)

end

end AnchorMind.Recall.Construction
