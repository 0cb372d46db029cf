import AnchorMind.Kernel.InsertionMap
import AnchorMind.Recall.SelectionRule

/-!
# Merging segment hits into the whole-text candidates

A hit on a part of a text may raise a candidate of the whole-text search or bring a new
one.  What the hits change is capped: the best of them are adopted, the candidates and the
adopted hits are sorted again, and the list is cut.
-/

namespace AnchorMind.Recall.SegmentMerge

open Std Kernel.Comparators Kernel.InsertionMap RankingOrder Rows List
open Text.JsonText (ofString)

section

variable (convert : Conversions) (rounded : Rat -> Number)

/-- The comparison `value > other`. -/
def exceeds (value : Rat) : Number -> Bool
  | .nan => false
  | .infinite negative => negative
  | .finite other => other < value

/-- `Number(hit.similarity) * decay` where it is finite.  Products are rounded. -/
def segSim (decay : Rat) (hit : Row) : Option Rat :=
  match toNumber convert (read (some hit) "similarity") with
  | .finite similarity => (rounded (similarity * decay)).finite?
  | _ => none

structure Candidate where
  fragment : Row
  similarity : Rat
  isNew : Bool

def Candidate.object (candidate : Candidate) : Fragment :=
  some [("similarity", .number (.finite candidate.similarity))]

def segmentMarks (similarity : Rat) (original : Input) : Row :=
  [("_segmentMatch", .boolean true), ("_segmentSimilarity", .number (.finite similarity)),
    ("_wholeSimilarity", original)]

def influence (baseById : Map Input Row) (decay : Rat) (hit : Row) : Option Candidate :=
  match segSim convert rounded decay hit with
  | none => none
  | some similarity =>
    match baseById.get hit.id with
    | some existing =>
      if exceeds similarity (toNumber convert existing.similarity) then
        some { fragment := existing, similarity := similarity, isNew := false }
      else none
    | none => some { fragment := hit, similarity := similarity, isNew := true }

def adoptedRow (candidate : Candidate) : Row :=
  let original := if candidate.isNew then .null else candidate.fragment.similarity
  assign candidate.fragment
    (("similarity", .number (.finite candidate.similarity)) ::
      segmentMarks candidate.similarity original)

/-- `new Map(rows.map(f => [f.id, f]))` -/
def byId (rows : List Row) : Map Input Row :=
  Map.empty.setAll (fun row => (row.id, row)) rows

def adopted (base segmentHits : List Row) (adoptLimit : Int) (decay : Rat) : List Candidate :=
  let influenced := segmentHits.filterMap (influence convert rounded (byId base) decay)
  (sortBy (byDescendingScore convert Candidate.object fun c => read c "similarity") influenced).take
    (max 0 adoptLimit).toNat

def merged (base segmentHits : List Row) (adoptLimit : Int) (decay : Rat) : Map Input Row :=
  (byId base).setAll (fun candidate => (candidate.fragment.id, adoptedRow candidate))
    (adopted convert rounded base segmentHits adoptLimit decay)

def mergeSegmentHits (base segmentHits : List Row) (limit : Nat) (adoptLimit : Int)
    (decay : Rat) : List Row :=
  if segmentHits = [] then base
  else
    let out := (merged convert rounded base segmentHits adoptLimit decay).entries.map Prod.snd
    (sortBy (byDescendingScore convert some similarityOrZero) out).take limit

theorem id_adoptedRow (candidate : Candidate) : (adoptedRow candidate).id = candidate.fragment.id :=
  read_assign _ _ _

theorem similarity_adoptedRow (candidate : Candidate) :
    (adoptedRow candidate).similarity = .number (.finite candidate.similarity) := by
  have hread : RankingOrder.read (some (adoptedRow candidate)) "similarity" =
      .number (.finite candidate.similarity) :=
    read_assign _ _ _
  simp only [Row.similarity, similarityOrZero, hread]

variable {base segmentHits : List Row} {adoptLimit : Int} {decay : Rat}

theorem entries_byId (hids : (base.map Row.id).Nodup) :
    (byId base).entries = base.map fun row => (row.id, row) := by
  refine (Map.entries_setAll_of_fresh ?_).trans (nil_append _)
  exact hids

variable {entry : Input × Row}

theorem mem_byId (hentry : entry ∈ (byId base).entries) :
    entry.2 ∈ base /\ entry.1 = entry.2.id := by
  rcases Map.mem_entries_setAll hentry with ⟨row, hrow, rfl⟩ | hnil
  · exact ⟨hrow, rfl⟩
  · exact absurd hnil not_mem_nil

theorem of_get_byId {id : Input} {existing : Row} (hget : (byId base).get id = some existing) :
    existing ∈ base /\ existing.id = id := by
  obtain ⟨entry, hfind, rfl⟩ := Option.map_eq_some_iff.mp hget
  obtain ⟨hmem, hkey⟩ := mem_byId (mem_of_find?_eq_some hfind)
  exact ⟨hmem, hkey.symm.trans (of_decide_eq_true (find?_some hfind :))⟩

theorem exceeds_of_adopted {candidate : Candidate}
    (hcandidate : candidate ∈ adopted convert rounded base segmentHits adoptLimit decay)
    {before : Row} (hbefore : before ∈ base) (hid : candidate.fragment.id = before.id)
    (hids : (base.map Row.id).Nodup) :
    exceeds candidate.similarity (toNumber convert before.similarity) = true := by
  have hmem := (sortBy_perm _ _).subset (mem_of_mem_take hcandidate)
  obtain ⟨hit, -, hinfluence⟩ := mem_filterMap.mp hmem
  unfold influence at hinfluence
  cases hsim : segSim convert rounded decay hit with
  | none => simp [hsim] at hinfluence
  | some similarity =>
    cases hget : (byId base).get hit.id with
    | some existing =>
      obtain ⟨hexisting, -⟩ := of_get_byId hget
      simp only [hsim, hget, Option.ite_none_right_eq_some, Option.some.injEq] at hinfluence
      obtain ⟨hexceeds, rfl⟩ := hinfluence
      rwa [← inj_on_of_nodup_map hids hexisting hbefore hid]
    | none =>
      -- The id of a new row is not that of a base row.
      simp only [hsim, hget, Option.some.injEq] at hinfluence
      subst hinfluence
      have hmissing := find?_eq_none.mp (Option.map_eq_none_iff.mp hget)
      rw [entries_byId hids] at hmissing
      refine absurd (decide_eq_true hid.symm) (hmissing (before.id, before) ?_)
      exact mem_map_of_mem hbefore

theorem mem_merged
    (hentry : entry ∈ (merged convert rounded base segmentHits adoptLimit decay).entries) :
    (∃ candidate ∈ adopted convert rounded base segmentHits adoptLimit decay,
          entry = (candidate.fragment.id, adoptedRow candidate)) \/
      entry.2 ∈ base /\ entry.1 = entry.2.id :=
  (Map.mem_entries_setAll hentry).imp_right mem_byId

theorem ids_merged :
    ((merged convert rounded base segmentHits adoptLimit decay).entries.map Prod.snd).map Row.id =
      (merged convert rounded base segmentHits adoptLimit decay).entries.map Prod.fst := by
  rw [map_map]
  refine map_congr_left fun entry hentry => ?_
  rcases mem_merged convert rounded hentry with ⟨candidate, -, rfl⟩ | ⟨-, hkey⟩
  · exact id_adoptedRow candidate
  · exact hkey.symm

theorem length_adopted_le :
    (adopted convert rounded base segmentHits adoptLimit decay).length ≤ adoptLimit.toNat := by
  refine (length_take_le _ _).trans ?_
  omega

theorem countP_merged_le {p : Row -> Bool} (hbase : ∀ row ∈ base, p row = false) :
    ((merged convert rounded base segmentHits adoptLimit decay).entries.map Prod.snd).countP p ≤
      adoptLimit.toNat := by
  have hnone : ((byId base).entries.map Prod.snd).countP p = 0 := by
    rw [countP_eq_zero]
    intro row hrow
    obtain ⟨entry, hentry, rfl⟩ := mem_map.mp hrow
    exact Bool.eq_false_iff.mp (hbase _ (mem_byId hentry).1)
  rw [countP_map] at hnone ⊢
  refine (Map.countP_entries_setAll _ _ _ _).trans ?_
  rw [hnone, Nat.zero_add]
  exact length_adopted_le convert rounded

theorem countP_notMem_le {Item : Type*} [DecidableEq Item] {fewer more : List Item}
    (hfewer : fewer.Nodup) (hmore : more.Nodup) (hlength : fewer.length ≤ more.length) :
    (fewer.countP fun item => decide (item ∉ more)) ≤
      more.countP fun item => decide (item ∉ fewer) := by
  have hshared : (fewer.filter fun item => decide (item ∈ more)).Perm
      (more.filter fun item => decide (item ∈ fewer)) := by
    rw [perm_ext_iff_of_nodup (hfewer.filter _) (hmore.filter _)]
    intro item
    simp only [mem_filter, decide_eq_true_eq]
    exact and_comm
  have hcounts := hshared.length_eq
  rw [← countP_eq_length_filter, ← countP_eq_length_filter] at hcounts
  have hsplit : ∀ items other : List Item,
      items.length = (items.countP fun item => decide (item ∈ other)) +
        items.countP fun item => decide (item ∉ other) := by
    intro items other
    simpa using length_eq_countP_add_countP (fun item => decide (item ∈ other)) (l := items)
  have hleft := hsplit fewer more
  have hright := hsplit more fewer
  omega

def Sorted (rows : List Row) : Prop :=
  rows.Pairwise fun a b => (compareScoresDescending convert a.similarity b.similarity).isLE = true

def NotLowered (before after : Row) : Prop :=
  after.similarity = before.similarity \/
    ∃ value, after.similarity = .number (.finite value) /\
      exceeds value (toNumber convert before.similarity) = true

def influencedRows (base result : List Row) : List Row :=
  result.filter fun row => row ∉ base

def missingRows (base result : List Row) : List Row :=
  base.filter fun row => row.id ∉ result.map Row.id

def ranked (base segmentHits : List Row) (adoptLimit : Int) (decay : Rat) : List Row :=
  sortBy (byDescendingScore convert some similarityOrZero)
    ((merged convert rounded base segmentHits adoptLimit decay).entries.map Prod.snd)

theorem ranked_sorted (base segmentHits : List Row) (adoptLimit : Int) (decay : Rat) :
    Sorted convert (ranked convert rounded base segmentHits adoptLimit decay) := by
  have htrans : TransCmp (@byDescendingScore convert Row some similarityOrZero) :=
    inferInstanceAs (TransCmp (byKey some (compareRankedFragments convert similarityOrZero)))
  refine (sortBy_pairwise _).imp ?_
  intro a b hle
  unfold byDescendingScore byKey at hle
  rw [compareRankedFragments_eq, compareLex] at hle
  exact Ordering.isLE_left_of_isLE_then hle

theorem ranked_perm (base segmentHits : List Row) (adoptLimit : Int) (decay : Rat) :
    (ranked convert rounded base segmentHits adoptLimit decay).Perm
      ((merged convert rounded base segmentHits adoptLimit decay).entries.map Prod.snd) :=
  sortBy_perm _ _

theorem ids_ranked_nodup :
    ((ranked convert rounded base segmentHits adoptLimit decay).map Row.id).Nodup := by
  have hids := (ranked_perm convert rounded base segmentHits adoptLimit decay).map Row.id
  rw [hids.nodup_iff, ids_merged]
  exact (merged convert rounded base segmentHits adoptLimit decay).keysNodup

theorem base_ids_ranked (hids : (base.map Row.id).Nodup) :
    base.map Row.id ⊆ (ranked convert rounded base segmentHits adoptLimit decay).map Row.id := by
  intro id hid
  have hkeys : id ∈ (byId base).entries.map Prod.fst := by
    rw [entries_byId hids, map_map]
    exact hid
  have hmerged := Map.keys_subset_setAll (byId base)
    (fun candidate => (candidate.fragment.id, adoptedRow candidate))
    (adopted convert rounded base segmentHits adoptLimit decay) hkeys
  have hperm := (ranked_perm convert rounded base segmentHits adoptLimit decay).map Row.id
  rw [hperm.mem_iff, ids_merged]
  exact hmerged

theorem ranked_notLowered (hids : (base.map Row.id).Nodup) {before after : Row}
    (hbefore : before ∈ base)
    (hafter : after ∈ ranked convert rounded base segmentHits adoptLimit decay)
    (hid : after.id = before.id) : NotLowered convert before after := by
  obtain ⟨entry, hentry, rfl⟩ := mem_map.mp
    ((ranked_perm convert rounded base segmentHits adoptLimit decay).subset hafter)
  rcases mem_merged convert rounded hentry with ⟨candidate, hcandidate, rfl⟩ | ⟨hbase, -⟩
  · have hfragment : candidate.fragment.id = before.id := (id_adoptedRow candidate).symm.trans hid
    refine .inr ⟨candidate.similarity, similarity_adoptedRow candidate, ?_⟩
    exact exceeds_of_adopted convert rounded hcandidate hbefore hfragment hids
  · exact .inl (congrArg Row.similarity (inj_on_of_nodup_map hids hbase hbefore hid))

theorem countP_take_le {p : Row -> Bool} (hbase : ∀ row ∈ base, p row = false) (limit : Nat) :
    ((ranked convert rounded base segmentHits adoptLimit decay).take limit).countP p ≤
      adoptLimit.toNat := by
  refine ((take_sublist _ _).countP_le).trans ?_
  rw [(ranked_perm convert rounded base segmentHits adoptLimit decay).countP_eq]
  exact countP_merged_le convert rounded hbase

theorem missing_take_le (hids : (base.map Row.id).Nodup) {limit : Nat}
    (hlength : base.length ≤ limit) :
    (missingRows base
        ((ranked convert rounded base segmentHits adoptLimit decay).take limit)).length ≤
      adoptLimit.toNat := by
  generalize hrows : ranked convert rounded base segmentHits adoptLimit decay = rows
  have hnodup : (rows.map Row.id).Nodup := hrows ▸ ids_ranked_nodup convert rounded
  have hsubset : base.map Row.id ⊆ rows.map Row.id := hrows ▸ base_ids_ranked convert rounded hids
  have hnew : ((rows.take limit).countP fun row => decide (row.id ∉ base.map Row.id)) ≤
      adoptLimit.toNat := by
    rw [← hrows]
    refine countP_take_le convert rounded ?_ limit
    intro row hrow
    exact decide_eq_false (not_not_intro (mem_map_of_mem hrow))
  have hmissing : (missingRows base (rows.take limit)).length =
      (base.map Row.id).countP fun id => decide (id ∉ (rows.take limit).map Row.id) := by
    rw [missingRows, countP_map, countP_eq_length_filter]
    rfl
  rw [hmissing]
  by_cases hcut : rows.length ≤ limit
  · -- Nothing is cut.
    rw [take_of_length_le hcut, countP_eq_zero.mpr]
    · exact Nat.zero_le _
    · intro id hid
      rw [decide_eq_true_eq]
      exact not_not_intro (hsubset hid)
  · have hfull : ((rows.take limit).map Row.id).length = limit := by
      rw [length_map, length_take]
      omega
    have hlonger : (base.map Row.id).length ≤ ((rows.take limit).map Row.id).length := by
      rw [hfull, length_map]
      exact hlength
    have htake : ((rows.take limit).map Row.id).Nodup :=
      hnodup.sublist ((take_sublist _ _).map _)
    refine (countP_notMem_le hids htake hlonger).trans ?_
    rw [countP_map]
    exact hnew

/-- The bounds hold for every base and every hits; the order needs a sorted base where there
are no hits. -/
theorem mergeSegmentHits_adopts (limit : Nat) (hids : (base.map Row.id).Nodup)
    (hlength : base.length ≤ limit) :
    (mergeSegmentHits convert rounded base segmentHits limit adoptLimit decay).length ≤ limit /\
      ((mergeSegmentHits convert rounded base segmentHits limit adoptLimit decay).map
        Row.id).Nodup /\
      (segmentHits ≠ [] \/ Sorted convert base ->
        Sorted convert
          (mergeSegmentHits convert rounded base segmentHits limit adoptLimit decay)) /\
      (∀ before ∈ base,
        ∀ after ∈ mergeSegmentHits convert rounded base segmentHits limit adoptLimit decay,
        after.id = before.id -> NotLowered convert before after) /\
      (influencedRows base
        (mergeSegmentHits convert rounded base segmentHits limit adoptLimit decay)).length ≤
          adoptLimit.toNat /\
      (missingRows base
        (mergeSegmentHits convert rounded base segmentHits limit adoptLimit decay)).length ≤
          adoptLimit.toNat := by
  by_cases hhits : segmentHits = []
  · have hbase : mergeSegmentHits convert rounded base segmentHits limit adoptLimit decay = base :=
      if_pos hhits
    rw [hbase]
    refine ⟨hlength, hids, fun hsorted => hsorted.resolve_left (not_not_intro hhits), ?_, ?_, ?_⟩
    · intro before hbefore after hafter hid
      exact .inl (congrArg Row.similarity (inj_on_of_nodup_map hids hafter hbefore hid))
    · rw [influencedRows, filter_eq_nil_iff.mpr]
      · exact Nat.zero_le _
      · intro row hrow
        rw [decide_eq_true_eq]
        exact not_not_intro hrow
    · rw [missingRows, filter_eq_nil_iff.mpr]
      · exact Nat.zero_le _
      · intro row hrow
        rw [decide_eq_true_eq]
        exact not_not_intro (mem_map_of_mem hrow)
  · have htake : mergeSegmentHits convert rounded base segmentHits limit adoptLimit decay =
        (ranked convert rounded base segmentHits adoptLimit decay).take limit := if_neg hhits
    rw [htake]
    refine ⟨length_take_le _ _, ?_, ?_, ?_, ?_, ?_⟩
    · exact (ids_ranked_nodup convert rounded).sublist ((take_sublist _ _).map _)
    · intro _
      exact (ranked_sorted convert rounded base segmentHits adoptLimit decay).sublist
        (take_sublist _ _)
    · intro before hbefore after hafter hid
      exact ranked_notLowered convert rounded hids hbefore (mem_of_mem_take hafter) hid
    · rw [influencedRows, ← countP_eq_length_filter]
      refine countP_take_le convert rounded ?_ limit
      intro row hrow
      exact decide_eq_false (not_not_intro hrow)
    · exact missing_take_le convert rounded hids hlength

end

def rowOf (id : String) (similarity : Rat) : Row :=
  [("id", .string (ofString id)), ("similarity", .number (.finite similarity))]

/-- One hit raises the second of two rows to the front. -/
theorem mergeSegmentHits_adopts_raised :
    ([rowOf "a" (9 / 10), rowOf "b" (1 / 2)].map Row.id).Nodup /\
      Sorted unreadable (mergeSegmentHits unreadable .finite
        [rowOf "a" (9 / 10), rowOf "b" (1 / 2)] [rowOf "b" (49 / 50)] 2 1 (19 / 20)) := by
  have hids : ([rowOf "a" (9 / 10), rowOf "b" (1 / 2)].map Row.id).Nodup := by decide
  refine ⟨hids, ?_⟩
  have hadopts := @mergeSegmentHits_adopts unreadable .finite
    [rowOf "a" (9 / 10), rowOf "b" (1 / 2)] [rowOf "b" (49 / 50)] 1 (19 / 20) 2 hids (Nat.le_refl 2)
  exact hadopts.2.2.1 (.inl (cons_ne_nil _ _))

/-- With no hits the base is returned as it is. -/
theorem mergeSegmentHits_unsorted :
    ([rowOf "a" 0, rowOf "b" 1].map Row.id).Nodup /\ ([] : List Row).Nodup /\
      [rowOf "a" 0, rowOf "b" 1].length ≤ 2 /\
      ¬ Sorted unreadable
        (mergeSegmentHits unreadable .finite [rowOf "a" 0, rowOf "b" 1] [] 2 1 1) := by
  refine ⟨by decide, nodup_nil, Nat.le_refl 2, ?_⟩
  intro hsorted
  have hpair := rel_of_pairwise_cons hsorted mem_cons_self
  exact absurd hpair (by decide +kernel)

end AnchorMind.Recall.SegmentMerge
