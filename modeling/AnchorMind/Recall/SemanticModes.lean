import Mathlib.Data.Int.ConditionallyCompleteOrder
import Mathlib.Data.Prod.Lex
import AnchorMind.Kernel.KeyedTable
import AnchorMind.Recall.RankingOrder

/-!
# Where the similarity threshold stands

The nearest-neighbour query applies its threshold among its conditions, or behind a wider cut
that an outer query filters, orders again, and cuts.  A cosine distance and one minus it are
both exact, so the threshold keeps the nearest rows, and the two statements have the same
answers.
-/

namespace AnchorMind.Recall.SemanticModes

open Kernel.KeyedTable (Table)
open Kernel.RoundedSum (sortByKey)
open Kernel.TopRows Recall.RankingCursor List
open Recall.Tokens (Fragment)

inductive ThresholdMode where
  | inner
  | outer
  deriving DecidableEq

def semanticMinCandidates : Nat := 80

variable {Id : Type*}

structure Stored (Id : Type*) where
  fragment : Fragment Id
  distance : Rat

def Stored.id (row : Stored Id) : Id := row.fragment.id

def Stored.similarity (row : Stored Id) : Rat := 1 - row.distance

def Stored.select (row : Stored Id) : Fragment Id :=
  { row.fragment with similarity := some row.similarity }

def reaches (minSimilarity : Rat) (row : Stored Id) : Bool :=
    decide (minSimilarity ≤ row.similarity)

def Answers (mode : ThresholdMode) (limit : Nat) (minSimilarity : Rat)
    (rows chosen : List (Stored Id)) : Prop :=
  match mode with
  | .inner => Top Stored.distance limit (rows.filter (reaches minSimilarity)) chosen
  | .outer => exists near, Top Stored.distance (max limit semanticMinCandidates) rows near /\
      Top (fun row => OrderDual.toDual row.similarity) limit
        (near.filter (reaches minSimilarity)) chosen

variable [LinearOrder Id]

def SearchBySemantic (mode : ThresholdMode) (limit : Nat) (minSimilarity : Rat)
    (table : Table (Stored.id : Stored Id -> Id) fun _ => True)
    (result : List (Fragment Id)) : Prop :=
  ∃ chosen, Answers mode limit minSimilarity table.rows chosen /\
    result = sortByRank Fragment.similarity (chosen.map Stored.select)

section

variable {Value : Type*} [LinearOrder Value]

def scoreKey : Option Value -> WithTop (OrderDual Value)
  | none => ⊤
  | some score => ↑(OrderDual.toDual score)

def timeKey : Option Int -> WithBot (OrderDual Int)
  | none => ⊥
  | some time => ↑(OrderDual.toDual time)

def rankKey (scoreOf : Fragment Id -> Option Value) (f : Fragment Id) :
    WithTop (OrderDual Value) ×ₗ (WithBot (OrderDual Int) ×ₗ Id) :=
  toLex (scoreKey (scoreOf f), toLex (timeKey f.createdAt, f.id))

omit [LinearOrder Id]

theorem compareScoresDescending_eq (a b : Option Value) :
    compareScoresDescending a b = compare (scoreKey a) (scoreKey b) := by
  cases a with
  | none =>
    cases b with
    | none => exact (compare_eq_iff_eq.mpr rfl).symm
    | some b => exact (compare_gt_iff_gt.mpr (WithTop.coe_lt_top _)).symm
  | some a =>
    cases b with
    | none => exact (compare_lt_iff_lt.mpr (WithTop.coe_lt_top _)).symm
    | some b =>
      rw [compareScoresDescending, scoreKey, scoreKey]
      rcases lt_trichotomy b a with hless | rfl | hless
      · rw [compare_lt_iff_lt.mpr hless, compare_lt_iff_lt.mpr]
        exact WithTop.coe_lt_coe.mpr hless
      · rw [compare_eq_iff_eq.mpr rfl, compare_eq_iff_eq.mpr rfl]
      · rw [compare_gt_iff_gt.mpr hless, compare_gt_iff_gt.mpr]
        exact WithTop.coe_lt_coe.mpr hless

theorem compareCreatedAtDescending_eq (a b : Option Int) :
    compareCreatedAtDescending a b = compare (timeKey a) (timeKey b) := by
  cases a with
  | none =>
    cases b with
    | none => exact (compare_eq_iff_eq.mpr rfl).symm
    | some b => exact (compare_lt_iff_lt.mpr (WithBot.bot_lt_coe _)).symm
  | some a =>
    cases b with
    | none => exact (compare_gt_iff_gt.mpr (WithBot.bot_lt_coe _)).symm
    | some b =>
      rw [compareCreatedAtDescending, timeKey, timeKey]
      rcases lt_trichotomy b a with hless | rfl | hless
      · rw [compare_lt_iff_lt.mpr hless, compare_lt_iff_lt.mpr]
        exact WithBot.coe_lt_coe.mpr hless
      · rw [compare_eq_iff_eq.mpr rfl, compare_eq_iff_eq.mpr rfl]
      · rw [compare_gt_iff_gt.mpr hless, compare_gt_iff_gt.mpr]
        exact WithBot.coe_lt_coe.mpr hless

end

theorem compareRankedFragments_eq {Value : Type*} [LinearOrder Value]
    (scoreOf : Fragment Id -> Option Value) (a b : Fragment Id) :
    compareRankedFragments scoreOf a b = compare (rankKey scoreOf a) (rankKey scoreOf b) := by
  rw [compareRankedFragments, compareScoresDescending_eq, compareDeterministicTies,
    compareCreatedAtDescending_eq]
  rfl

def order (row : Stored Id) : WithTop (OrderDual Rat) ×ₗ (WithBot (OrderDual Int) ×ₗ Id) :=
  rankKey Fragment.similarity row.select

theorem sortByRank_select (chosen : List (Stored Id)) :
    sortByRank Fragment.similarity (chosen.map Stored.select) =
      (sortByKey order chosen).map Stored.select := by
  refine (map_insertionSort _ _ _ _ fun a _ b _ => ?_).symm
  rw [compareRankedFragments_eq, ne_eq, compare_gt_iff_gt, not_lt]
  rfl

omit [LinearOrder Id] in
theorem similarity_le_iff (a b : Stored Id) :
    a.distance ≤ b.distance <->
      OrderDual.toDual a.similarity ≤ OrderDual.toDual b.similarity := by
  rw [OrderDual.toDual_le_toDual, Stored.similarity, Stored.similarity]
  exact (sub_le_sub_iff_left 1).symm

theorem distance_le_of_order (a b : Stored Id) (horder : order a ≤ order b) :
    a.distance ≤ b.distance := by
  have hscore : scoreKey a.select.similarity ≤ scoreKey b.select.similarity :=
    Prod.Lex.monotone_fst _ _ horder
  exact (similarity_le_iff a b).mpr (WithTop.coe_le_coe.mp hscore)

omit [LinearOrder Id] in
theorem order_nodup {rows : List (Stored Id)} (hids : (rows.map Stored.id).Nodup) :
    (rows.map order).Nodup := by
  refine Nodup.of_map (fun key => (ofLex (ofLex key).2).2) ?_
  rw [map_map]
  exact hids

omit [LinearOrder Id] in
theorem reaches_of_le {minSimilarity : Rat} (a b : Stored Id) (hle : a.distance ≤ b.distance)
    (hreaches : reaches minSimilarity b = true) : reaches minSimilarity a = true := by
  have hsimilar := OrderDual.toDual_le_toDual.mp ((similarity_le_iff a b).mp hle)
  exact decide_eq_true ((of_decide_eq_true hreaches).trans hsimilar)

omit [LinearOrder Id] in
theorem answers_outer_iff {limit : Nat} {minSimilarity : Rat} {rows chosen : List (Stored Id)} :
    Answers .outer limit minSimilarity rows chosen <->
      Answers .inner limit minSimilarity rows chosen := by
  have hagain : ∀ near : List (Stored Id),
      Top Stored.distance limit near chosen <->
        Top (fun row => OrderDual.toDual row.similarity) limit near chosen :=
    fun near => top_iff_of_le_iff similarity_le_iff
  simp only [Answers, ← hagain]
  exact top_filter_iff (le_max_left _ _) reaches_of_le

omit [LinearOrder Id] in
theorem sameButCut_select {first second : List (Stored Id)}
    (hsame : SameButCut Stored.distance first second) :
    SameButCut Fragment.similarity (first.map Stored.select) (second.map Stored.select) := by
  obtain ⟨front, left, right, rfl, rfl, hlength, hcut⟩ := hsame
  refine ⟨front.map Stored.select, left.map Stored.select, right.map Stored.select,
    map_append, map_append, by rw [length_map, length_map, hlength], ?_⟩
  intro a b ha hb
  rw [← map_append] at ha hb
  obtain ⟨first, hfirst, rfl⟩ := mem_map.mp ha
  obtain ⟨second, hsecond, rfl⟩ := mem_map.mp hb
  exact congrArg (fun distance => some (1 - distance)) (hcut first second hfirst hsecond)

variable {limit : Nat} {minSimilarity : Rat}
  {table : Table (Stored.id : Stored Id -> Id) fun _ => True}

/-- The modes have the same results, and two results are the same rows in the same order but
for rows of equal similarity at the cut. -/
theorem searchBySemantic_modes :
    (∀ result, SearchBySemantic .outer limit minSimilarity table result <->
      SearchBySemantic .inner limit minSimilarity table result) /\
    ∀ inner outer, SearchBySemantic .inner limit minSimilarity table inner ->
      SearchBySemantic .outer limit minSimilarity table outer ->
        SameButCut Fragment.similarity inner outer := by
  constructor
  · exact fun result => exists_congr fun chosen => and_congr_left fun _ => answers_outer_iff
  · rintro _ _ ⟨first, hfirst, rfl⟩ ⟨second, hsecond, rfl⟩
    rw [answers_outer_iff] at hsecond
    rw [sortByRank_select, sortByRank_select]
    have hids : ((table.rows.filter (reaches minSimilarity)).map Stored.id).Nodup :=
      table.keysNodup.sublist (filter_sublist.map _)
    exact sameButCut_select
      (sameButCut_of_top distance_le_of_order (order_nodup hids) hfirst hsecond)

/-- Two fragments at one distance from the query. -/
def twins : Table (Stored.id : Stored Nat -> Nat) fun _ => True where
  rows := [⟨{ id := 1 }, 1 / 4⟩, ⟨{ id := 2 }, 1 / 4⟩]
  keysNodup := by decide
  checked := fun _ _ => trivial

theorem twins_reach : twins.rows.filter (reaches (1 / 2)) = twins.rows :=
  filter_eq_self.mpr (by decide +kernel)

theorem twins_sorted {front back : Stored Nat} (hsame : front.distance = back.distance) :
    [front, back].Pairwise fun a b => a.distance ≤ b.distance :=
  pairwise_pair.mpr (le_of_eq hsame)

theorem twins_inner : SearchBySemantic .inner 1 (1 / 2) twins
    [{ id := 1, similarity := some (1 - 1 / 4) }] := by
  refine ⟨_, ⟨twins.rows, ?_, twins_sorted rfl, rfl⟩, rfl⟩
  rw [twins_reach]

theorem twins_outer : SearchBySemantic .outer 1 (1 / 2) twins
    [{ id := 2, similarity := some (1 - 1 / 4) }] := by
  refine ⟨_, answers_outer_iff.mpr ⟨twins.rows.reverse, ?_, twins_sorted rfl, rfl⟩, rfl⟩
  rw [twins_reach]
  exact reverse_perm _

theorem searchBySemantic_twins :
    SameButCut Fragment.similarity [({ id := 1, similarity := some (1 - 1 / 4) } : Fragment Nat)]
      [{ id := 2, similarity := some (1 - 1 / 4) }] :=
  searchBySemantic_modes.2 _ _ twins_inner twins_outer

end AnchorMind.Recall.SemanticModes
