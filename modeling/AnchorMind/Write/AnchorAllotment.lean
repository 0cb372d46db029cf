import AnchorMind.Write.BatchDedup
import AnchorMind.Write.FragmentWriter

/-!
# What the two write paths add to a table

Whatever kind of row is counted, a single write adds at most its row and a batch adds
at most the rows it sends; both keep the listed indexes unique.
-/

namespace AnchorMind.Write.WriteGrowth

open List

open Kernel.UniqueIndex Kernel.FirstOf Write.Fragments Write.DedupScope Write.BatchInsert
  Write.BatchAnswers Write.BatchDedup Write.FragmentWriter

variable {hash : ContentHash} {context : WriteContext} {table : List Row} {select : Row -> Bool}

theorem consistent_iff : context.upsert.Consistent table <-> Satisfies context.indexes table := by
  constructor
  · intro hconsistent name hname
    exact hconsistent name (mem_enforced.mpr hname)
  · intro hsatisfies name hname
    exact hsatisfies name (mem_enforced.mp hname)

section Single

variable {row : Row} {written : Written}

theorem insertOnce_grows (hsatisfies : Satisfies context.indexes table)
    (hselects : context.upsert.Selects select [row])
    (hwrite : insertOnce context table row = .ok written) :
    written.table = table \/ context.upsert.Grows select table [row] written.table := by
  unfold insertOnce at hwrite
  dsimp only at hwrite
  split at hwrite
  · cases hwrite
    exact .inl rfl
  · split at hwrite
    · cases hwrite
    · rename_i hstatement
      cases hwrite
      exact .inr (Upsert.statement_grows hselects (consistent_iff.mpr hsatisfies) hstatement)

theorem runInsert_grows (hsatisfies : Satisfies context.indexes table)
    (hselects : context.upsert.Selects select [row])
    (hwrite : runInsert context table row = .ok written) :
    written.table = table \/ context.upsert.Grows select table [row] written.table := by
  unfold runInsert at hwrite
  cases honce : insertOnce context table row with
  | ok first =>
    simp only [honce] at hwrite
    cases hwrite
    exact insertOnce_grows hsatisfies hselects honce
  | error refusal =>
    simp only [honce] at hwrite
    split at hwrite
    · split at hwrite
      · cases hwrite
        exact .inl rfl
      · cases hwrite
    · cases hwrite

end Single

section Batch

variable {items : List (Item hash)} {results : Results} {outcome : Outcome}

theorem insertAccepted_grows (hsatisfies : Satisfies context.indexes table)
    (hselects : context.upsert.Selects select (sentRows context table items))
    (hwrite : insertAccepted context table items results = .ok outcome) :
    context.upsert.Grows select table (sentRows context table items) outcome.table := by
  have hflat := (insertChunks_flatten context _).trans (collapse_rows context table items)
  unfold insertAccepted at hwrite
  simp only [resolveDuplicates_eq] at hwrite
  split at hwrite
  · cases hwrite
  · rename_i hchunks
    cases hwrite
    have hgrows := Upsert.statements_grows (hflat.symm ▸ hselects)
      (consistent_iff.mpr hsatisfies) hchunks
    rwa [hflat] at hgrows

theorem sentRows_length_le : (sentRows context table items).length ≤ items.length := by
  rw [sentRows, length_map]
  exact ((firsts_sublist _).trans filter_sublist).length_le

end Batch

end AnchorMind.Write.WriteGrowth

/-!
# What the anchor quota grants and what writes make of it

The allotment of a batch counts every designation it keeps, and each of them had room
below the limit when its turn came.  A write makes no more live anchors than the rows
it sends ask for, whether it inserts them or merges them into rows it meets.
-/

namespace AnchorMind.Write.AnchorAllotment

open List

open Kernel.UniqueIndex Kernel.FirstOf Write.Fragments Write.DedupScope Write.BatchInsert
  Write.BatchAnswers Write.BatchDedup Write.FragmentWriter Write.WriteGrowth

section Allotments

variable {hash : ContentHash} {context : WriteContext} {table : List Row}
variable {items done rest : List (Item hash)} {item : Item hash} {results : Results}

def designates (item : Item hash) : Bool := item.fragment.isAnchor && item.fragment.anchorQuota

structure Granted (context : WriteContext) (start : Nat) (state : Allotment hash) : Prop where
  count : state.count = start + state.kept.countP designates
  room : ∀ done item rest, state.kept = done ++ item :: rest -> designates item = true ->
    start + done.countP designates < context.anchorLimit
  total : state.kept.countP designates = 0 \/
    start + state.kept.countP designates ≤ context.anchorLimit

variable {state : Allotment hash}

theorem Granted.concat {start : Nat} (hgranted : Granted context start state) {count : Nat}
    {results : Results} (hcount : count = state.count + if designates item then 1 else 0)
    (hroom : designates item = true -> state.count < context.anchorLimit) :
    Granted context start ⟨count, state.kept ++ [item], results⟩ := by
  constructor
  · rw [hcount, hgranted.count, countP_append, countP_singleton, Nat.add_assoc]
  · intro done other rest hkept hother
    rcases eq_nil_or_concat rest with rfl | ⟨rest, last, rfl⟩
    · obtain ⟨hdone, hitem⟩ := append_inj' hkept rfl
      rw [<- hdone, <- hgranted.count]
      cases hitem
      exact hroom hother
    · have hkept : state.kept ++ [item] = (done ++ other :: rest) ++ [last] := by
        simpa using hkept
      exact hgranted.room done other rest (append_inj' hkept rfl).1 hother
  · cases hdesignates : designates item with
    | true =>
      have hbelow := hroom hdesignates
      rw [hgranted.count] at hbelow
      simp only [countP_append, countP_singleton, hdesignates, if_true]
      omega
    | false =>
      have htotal := hgranted.total
      simp only [countP_append, countP_singleton, hdesignates]
      simpa using htotal

theorem granted_allotAnchor {start : Nat} (hgranted : Granted context start state)
    (item : Item hash) : Granted context start (allotAnchor context state item) := by
  unfold allotAnchor
  split
  · rename_i hdesignates
    have hdesignates : designates item = true := hdesignates
    split
    · rename_i hroom
      exact hgranted.concat (by simp [hdesignates]) fun _ => hroom
    · split
      · exact ⟨hgranted.count, hgranted.room, hgranted.total⟩
      · have hwithout : designates (withoutAnchor item) = false := rfl
        apply hgranted.concat
        · simp [hwithout]
        · intro hgiven
          rw [hwithout] at hgiven
          cases hgiven
  · rename_i hdesignates
    have hdesignates : designates item = false := by simpa [designates] using hdesignates
    apply hgranted.concat
    · simp [hdesignates]
    · intro hgiven
      rw [hdesignates] at hgiven
      cases hgiven

theorem granted_applyAnchorQuotaToBatch (context : WriteContext) (table : List Row)
    (items : List (Item hash)) (results : Results) :
    Granted context (countLiveAnchors table context.keyId)
      (applyAnchorQuotaToBatch context table items results) := by
  have hstart : Granted context (countLiveAnchors table context.keyId)
      (⟨countLiveAnchors table context.keyId, [], results⟩ : Allotment hash) := by
    constructor
    · rfl
    · intro done item rest hkept
      simp at hkept
    · exact .inl rfl
  unfold applyAnchorQuotaToBatch
  generalize (⟨countLiveAnchors table context.keyId, [], results⟩ : Allotment hash) =
    state at hstart
  induction items generalizing state with
  | nil => exact hstart
  | cons item rest ih => exact ih _ (granted_allotAnchor hstart item)

theorem countP_unique_le (scope : Scope) (items : List (Item hash)) :
    (collapseHashDuplicates items scope).unique.countP (fun item => item.fragment.isAnchor) ≤
      items.countP fun item => item.fragment.isAnchor := by
  induction items using reverseRecOn with
  | nil => simp [collapseHashDuplicates]
  | append_singleton items last ih =>
    rw [collapse_concat, countP_append, countP_singleton]
    rcases collapseStep_cases scope (collapseHashDuplicates items scope) last with
      ⟨primary, -, hstep⟩ | ⟨-, hstep⟩
    · rw [hstep]
      have honce : (collapseHashDuplicates items scope).unique.Pairwise fun left right =>
          Not (itemKey scope left = itemKey scope last /\
            itemKey scope right = itemKey scope last) := by
        rw [collapse_unique, pairwise_map]
        refine (firsts_pairwise items).imp ?_
        rintro left right hne ⟨hleft, hright⟩
        rw [itemKey_gather] at hleft hright
        exact hne (hleft.trans hright.symm)
      refine Nat.le_trans (countP_map_le honce (fun other _ hmiss => if_neg hmiss) ?_)
        (Nat.add_le_add_right ih _)
      intro other _ hkey
      rw [if_pos hkey]
      cases hother : other.fragment.isAnchor <;> cases hlast : last.fragment.isAnchor <;>
        simp [absorbItem, hother, hlast]
    · rw [hstep, countP_append, countP_singleton]
      exact Nat.add_le_add_right ih _

end Allotments

section Growth

variable {hash : ContentHash} {context : WriteContext} {table : List Row}

theorem countLiveAnchors_append (left right : List Row) (keyId : Option String) :
    countLiveAnchors (left ++ right) keyId =
      countLiveAnchors left keyId + countLiveAnchors right keyId :=
  countP_append

def liveAnchor (keyId : Option String) (row : Row) : Bool :=
  decide (row.keyId = keyId) && row.validTo.isNone && row.isAnchor

theorem selects_liveAnchor {news : List Row}
    (hnews : ∀ row ∈ news, row.keyId = context.keyId /\ row.validTo = none) :
    context.upsert.Selects (liveAnchor context.keyId) news := by
  intro new hnew old hmerged
  obtain ⟨hkey, hlive⟩ := hnews new hnew
  have hmerged : liveAnchor context.keyId (mergeRow old new) = true := hmerged
  simp only [liveAnchor, mergeRow, Bool.and_eq_true, Bool.or_eq_true] at hmerged
  rcases hmerged.2 with hold | hanchor
  · left
    simp only [liveAnchor, Bool.and_eq_true]
    exact ⟨hmerged.1, hold⟩
  · right
    simp [liveAnchor, hkey, hlive, hanchor]

structure AddsAnchors (context : WriteContext) (table last : List Row) (extra : Nat) : Prop where
  satisfies : Satisfies context.indexes last
  count : countLiveAnchors last context.keyId ≤ countLiveAnchors table context.keyId + extra

theorem addsAnchors_of_grows {news last : List Row} {extra : Nat}
    (hgrows : context.upsert.Grows (liveAnchor context.keyId) table news last)
    (hextra : news.countP (liveAnchor context.keyId) ≤ extra) :
    AddsAnchors context table last extra := by
  constructor
  · exact consistent_iff.mp hgrows.consistent
  · exact Nat.le_trans hgrows.count (Nat.add_le_add_left hextra _)

theorem runInsert_anchors {row : Row} {written : Written}
    (hsatisfies : Satisfies context.indexes table) (hkey : row.keyId = context.keyId)
    (hlive : row.validTo = none) (hwrite : runInsert context table row = .ok written) :
    AddsAnchors context table written.table row.isAnchor.toNat := by
  have hselects : context.upsert.Selects (liveAnchor context.keyId) [row] := by
    apply selects_liveAnchor
    intro other hother
    rw [mem_singleton.mp hother]
    exact ⟨hkey, hlive⟩
  rcases runInsert_grows hsatisfies hselects hwrite with hsame | hgrows
  · rw [hsame]
    exact ⟨hsatisfies, Nat.le_add_right _ _⟩
  · apply addsAnchors_of_grows hgrows
    rw [countP_singleton]
    cases hanchor : row.isAnchor <;> simp [liveAnchor, hanchor, hkey, hlive]

theorem insertAccepted_anchors {items : List (Item hash)} {results : Results} {outcome : Outcome}
    (hsatisfies : Satisfies context.indexes table)
    (hwrite : insertAccepted context table items results = .ok outcome) :
    AddsAnchors context table outcome.table
      (items.countP fun item => item.fragment.isAnchor) := by
  have hselects : context.upsert.Selects (liveAnchor context.keyId)
      (sentRows context table items) := by
    apply selects_liveAnchor
    intro row hrow
    obtain ⟨first, -, rfl⟩ := mem_sentRows.mp hrow
    exact ⟨rfl, rfl⟩
  apply addsAnchors_of_grows (insertAccepted_grows hsatisfies hselects hwrite)
  have hrows : (sentRows context table items).countP (liveAnchor context.keyId) =
      (collapseHashDuplicates (leftItems context table items) context.scope).unique.countP
        fun item => item.fragment.isAnchor := by
    rw [<- collapse_rows, countP_map]
    apply countP_congr
    intro item _
    simp [liveAnchor, rowBinding]
  have hfold := countP_unique_le context.scope (leftItems context table items)
  have hleft : (leftItems context table items).countP (fun item => item.fragment.isAnchor) ≤
      items.countP fun item => item.fragment.isAnchor := filter_sublist.countP_le
  omega

end Growth

end AnchorMind.Write.AnchorAllotment
