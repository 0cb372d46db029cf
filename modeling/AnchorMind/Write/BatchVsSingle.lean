import AnchorMind.Write.AnchorAllotment
import AnchorMind.Write.SingleWrites

/-!
# A batch and the same fragments remembered one at a time

Both paths answer an item with the same stored duplicate or the same new row, and
they insert the same rows.  They treat what they hit differently: the batch merges
the importance and the anchor mark of the items that meet a stored row in the
arbiter into that row, and single writes leave it alone.
-/

namespace AnchorMind.Write.BatchVsSingle

open Kernel.UniqueIndex Kernel.FirstOf Write.Fragments Write.DedupScope Write.BatchInsert List
  Write.BatchAnswers Write.BatchDedup Write.FragmentWriter Write.SingleWrites Write.AnchorAllotment

variable {sha : Sha256} {context : WriteContext} {table : List Row}
variable {items done rest : List (Item sha.hashContent)} {item : Item sha.hashContent}

theorem countLiveAnchors_singleTable_le (done : List (Item sha.hashContent)) :
    countLiveAnchors (singleTable context table done) context.keyId ≤
      countLiveAnchors table context.keyId +
        done.countP fun item => item.fragment.isAnchor := by
  have hold : countLiveAnchors (table.map (rehash sha)) context.keyId =
      countLiveAnchors table context.keyId := by
    rw [countLiveAnchors, countP_map]
    rfl
  have hnew : countLiveAnchors ((newItems context table done).map
      fun item => prepareInsertRow sha context.keyId item.fragment) context.keyId =
        (newItems context table done).countP fun item => item.fragment.isAnchor := by
    rw [countLiveAnchors, countP_map]
    apply countP_congr
    intro item _
    simp [prepareInsertRow]
  have hsublist : (newItems context table done).Sublist done :=
    (firsts_sublist _).trans filter_sublist
  rw [singleTable, countLiveAnchors_append, hold, hnew]
  have hle : (newItems context table done).countP (fun item => item.fragment.isAnchor) ≤
      done.countP fun item => item.fragment.isAnchor := hsublist.countP_le
  omega

theorem applyAnchorQuota_of_granted {state : Allotment sha.hashContent}
    (hgranted : Granted context (countLiveAnchors table context.keyId) state)
    (hcomparable : Comparable context table state.kept)
    (hkept : state.kept = done ++ item :: rest) :
    applyAnchorQuota context (singleTable context table done) item.fragment =
      .ok item.fragment := by
  unfold applyAnchorQuota
  split
  · rename_i hdesignates
    have hdesignates : item.fragment.anchorQuota = true /\ item.fragment.isAnchor = true := by
      simpa using hdesignates
    have hmem : item ∈ state.kept := by
      rw [hkept]
      exact mem_append_right _ mem_cons_self
    have hroom := hgranted.room done item rest hkept (by simp [designates, hdesignates])
    have hmarks : ∀ other ∈ state.kept, other.fragment.isAnchor = true ->
        other.fragment.anchorQuota = true := by
      rcases hcomparable.marks with hall | hnone
      · exact hall
      · rw [hnone item hmem] at hdesignates
        cases hdesignates.1
    have hsame : done.countP (fun item => item.fragment.isAnchor) = done.countP designates := by
      apply countP_congr
      intro other hother
      have hother : other ∈ state.kept := by
        rw [hkept]
        exact mem_append_left _ hother
      simp only [designates, Bool.and_eq_true]
      constructor
      · intro hanchor
        exact ⟨hanchor, hmarks other hother hanchor⟩
      · intro hanchor
        exact hanchor.1
    have hle : countLiveAnchors (singleTable context table done) context.keyId ≤
        countLiveAnchors table context.keyId + done.countP designates :=
      hsame ▸ countLiveAnchors_singleTable_le done
    rw [if_pos (by omega)]
  · rfl

variable {first : Item sha.hashContent} {old : Row}

section

variable (hcomparable : Comparable context table items)
include hcomparable

theorem conflicts_iff (hold : old ∈ table) {row : Row} (hkey : row.keyId = context.keyId)
    (hnormal : NormalWorkspace row.workspace) :
    context.upsert.Conflicts old row <->
      old.keyId = context.keyId /\ old.contentHash = row.contentHash /\
        (context.arbiter = some (legacyIndex context.keyId) \/
          context.arbiter = some (scopedIndex context.keyId) /\
            workspaceKey old.workspace = workspaceKey row.workspace) := by
  constructor
  · rintro ⟨name, harbiter, hclash⟩
    have harbiter : context.arbiter = some name := harbiter
    rcases name_of_clash hkey hclash with rfl | rfl
    · obtain ⟨holdKey, hhash⟩ := (clash_legacyIndex hkey).mp hclash
      exact ⟨holdKey, hhash, .inl harbiter⟩
    · obtain ⟨holdKey, hhash, hcell⟩ := (clash_scopedIndex hkey).mp hclash
      rw [(hcomparable.stored_workspace old hold holdKey).coalesce, hnormal.coalesce] at hcell
      exact ⟨holdKey, hhash, Or.inr ⟨harbiter, hcell⟩⟩
  · rintro ⟨holdKey, hhash, harbiter | ⟨harbiter, hcell⟩⟩
    · exact ⟨_, harbiter, (clash_legacyIndex hkey).mpr ⟨holdKey, hhash⟩⟩
    · refine ⟨_, harbiter, (clash_scopedIndex hkey).mpr ⟨holdKey, hhash, ?_⟩⟩
      rw [(hcomparable.stored_workspace old hold holdKey).coalesce, hnormal.coalesce, hcell]

def meets (context : WriteContext) (old : Row) (item : Item sha.hashContent) : Bool :=
  decide (context.upsert.Conflicts old (rowBinding context.keyId item.fragment))

theorem meets_iff (hold : old ∈ table) :
    meets context old item = true <->
      old ∈ sameContent table context.keyId item.fragment.contentHash /\
        (context.arbiter = some (legacyIndex context.keyId) \/
          context.arbiter = some (scopedIndex context.keyId) /\
            workspaceKey old.workspace = workspaceKey item.fragment.workspace) := by
  have hcell : workspaceKey (rowBinding context.keyId item.fragment).workspace =
      workspaceKey item.fragment.workspace := workspaceKey_normalizeWorkspace _
  rw [meets, decide_eq_true_iff, conflicts_iff hcomparable hold rfl
    (normalWorkspace_normalizeWorkspace _), hcell, mem_sameContent]
  constructor
  · rintro ⟨hkey, hhash, harbiter⟩
    exact ⟨⟨hold, hkey, hhash⟩, harbiter⟩
  · rintro ⟨⟨-, hkey, hhash⟩, harbiter⟩
    exact ⟨hkey, hhash, harbiter⟩

omit hcomparable in
theorem conflicts_sent (first : Item sha.hashContent) :
    context.upsert.Conflicts old
        (rowBinding context.keyId (sentItem context table items first).fragment) <->
      meets context old first = true := by
  have hentry (name : IndexName) := indexEntry_of_bare
    (bare_rowBinding_gather context.keyId context.scope (leftItems context table items) first) name
  rw [meets, decide_eq_true_iff]
  constructor
  · rintro ⟨name, harbiter, hclash⟩
    exact ⟨name, harbiter, ((clash_congr (hentry name)).mp hclash.symm).symm⟩
  · rintro ⟨name, harbiter, hclash⟩
    exact ⟨name, harbiter, ((clash_congr (hentry name)).mpr hclash.symm).symm⟩

/-- What the lookup finds and leaves, the arbiter finds. -/
theorem meets_pick_of_left (hleft : item ∈ leftItems context table items) {pick : Row}
    (hpick : pickStored context table item.fragment = some pick) :
    meets context pick item = true := by
  have hmem : pick ∈ sameContent table context.keyId item.fragment.contentHash :=
    pickDuplicate_mem hpick
  refine (meets_iff hcomparable (mem_sameContent.mp hmem).1).mpr ⟨hmem, ?_⟩
  rcases Classical.em (context.arbiter = some (legacyIndex context.keyId)) with hlegacy | hlegacy
  · exact .inl hlegacy
  · rcases pick_of_left hleft (lookupRequired_of_arbiter hlegacy) with
      hnone | ⟨row, hrow, hsome, hcell⟩
    · cases hpick.symm.trans hnone
    · have hsame : pick = row := Option.some.inj (hpick.symm.trans hrow)
      subst hsame
      rcases arbiter_cases context with ⟨harbiter, -⟩ | ⟨harbiter, -, -⟩ | ⟨harbiter, -⟩
      · exact absurd harbiter hlegacy
      · exact Or.inr ⟨harbiter, hcell⟩
      · exact absurd harbiter hsome

omit hcomparable in
theorem not_meets_of_pick_none (hnone : pickStored context table item.fragment = none)
    (hold : old ∈ table) : meets context old item = false := by
  have hapart : context.upsert.Apart old (rowBinding context.keyId item.fragment) :=
    apart_of_pick_none rfl (coalesceWorkspace_normalizeWorkspace _) hnone hold
  simpa [meets] using hapart.not_conflicts

theorem free_sent_iff (hleft : item ∈ leftItems context table items) :
    context.upsert.Free table
        (rowBinding context.keyId (sentItem context table items item).fragment) <->
      pickStored context table item.fragment = none := by
  constructor
  · intro hfree
    cases hpick : pickStored context table item.fragment with
    | none => rfl
    | some pick =>
      have hmem := (mem_sameContent.mp (pickDuplicate_mem hpick)).1
      exact absurd ((conflicts_sent item).mpr (meets_pick_of_left hcomparable hleft hpick))
        (hfree pick hmem)
  · intro hnone old hold hconflict
    have hmeets := (conflicts_sent item).mp hconflict
    rw [not_meets_of_pick_none hnone hold] at hmeets
    cases hmeets

theorem mem_left_of_meets (hitem : item ∈ items) (hold : old ∈ table)
    (hmeets : meets context old item = true) : item ∈ leftItems context table items := by
  refine mem_filter.mpr ⟨hitem, ?_⟩
  rw [Option.isNone_iff_eq_none]
  obtain ⟨hmem, harbiter | ⟨harbiter, hcell⟩⟩ := (meets_iff hcomparable hold).mp hmeets
  · have hnot : lookupRequired context.indexes context.keyId = false := by
      have hconflict : conflictIndex context.indexes context.keyId =
          some (legacyIndex context.keyId) := harbiter
      simp [lookupRequired, hconflict]
    simp [storedHit, hnot]
  · unfold storedHit
    split
    · rw [Option.filter_eq_none_iff]
      intro pick hpick
      have hexact := exact_of_pickDuplicate hpick hmem hcell
      have hpickCell : workspaceKey pick.workspace = workspaceKey item.fragment.workspace := by
        simpa using find?_some hexact
      simp [harbiter, hpickCell]
    · rfl

theorem meets_of_itemKey (hcells : CellsAgree context table items) (hold : old ∈ table)
    (hfirst : first ∈ leftItems context table items) (hitem : item ∈ leftItems context table items)
    (hkey : itemKey context.scope first = itemKey context.scope item)
    (hmeets : meets context old first = true) : meets context old item = true := by
  have hhash := contentHash_of_itemKey hkey
  obtain ⟨hmem, harbiter⟩ := (meets_iff hcomparable hold).mp hmeets
  have hmemItem : old ∈ sameContent table context.keyId item.fragment.contentHash := by
    rwa [<- hhash]
  refine (meets_iff hcomparable hold).mpr ⟨hmemItem, ?_⟩
  rcases harbiter with harbiter | ⟨harbiter, hcell⟩
  · exact .inl harbiter
  · refine Or.inr ⟨harbiter, hcell.trans ?_⟩
    cases hscope : context.scope with
    | workspace =>
      rw [hscope] at hkey
      exact ((foldKey_workspace_eq _ _).mp hkey).1
    | key =>
      have hstored : StoredInCell context table item.fragment := by
        cases hpick : pickStored context table item.fragment with
        | none =>
          rw [(pickDuplicate_eq_none.mp hpick).2.2 hscope] at hmemItem
          cases hmemItem
        | some pick =>
          have hpickMem := pickDuplicate_mem hpick
          have hpickMeets := meets_pick_of_left hcomparable hitem hpick
          rcases ((meets_iff hcomparable (mem_sameContent.mp hpickMem).1).mp hpickMeets).2
            with hlegacy | ⟨-, hpickCell⟩
          · rw [harbiter] at hlegacy
            exact absurd (Option.some.inj hlegacy).symm (legacyIndex_ne_scopedIndex _)
          · exact ⟨pick, hpickMem, hpickCell⟩
      exact hcells.key hscope harbiter first item (mem_filter.mp hfirst).1
        (mem_filter.mp hitem).1 hhash ⟨old, hmem, hcell⟩ hstored

omit hcomparable in
theorem leftItems_filter_new :
    (leftItems context table items).filter
        (fun item => (pickStored context table item.fragment).isNone) =
      items.filter fun item => (pickStored context table item.fragment).isNone := by
  rw [leftItems, filter_filter]
  apply filter_congr
  intro item _
  cases hpick : pickStored context table item.fragment with
  | some pick => rfl
  | none =>
    have hnone : pickDuplicate (sameContent table context.keyId item.fragment.contentHash)
        item.fragment.workspace context.scope = none := hpick
    have hstored : storedHit context table item.fragment = none := by simp [storedHit, hnone]
    simp [hstored]

omit hcomparable in
theorem newItems_eq :
    newItems context table items =
      (firsts (itemKey context.scope) (leftItems context table items)).filter
        fun item => (pickStored context table item.fragment).isNone := by
  rw [newItems, <- leftItems_filter_new, filter_firsts]
  intro left right _ _ hkey
  exact pickStored_isNone_congr hkey

/-- The batch and single writes end with the same rows, the merged columns and the
hash format aside. -/
theorem settled_plain :
    (context.upsert.settled table (sentRows context table items)).map plain =
      (singleTable context table items).map plain := by
  have hold : (table.map (context.upsert.absorb (sentRows context table items))).map plain =
      (table.map (rehash sha)).map plain := by
    rw [map_map, map_map]
    apply map_congr_left
    intro old _
    have hbare : bare (context.upsert.absorb (sentRows context table items) old) = bare old := by
      unfold Upsert.absorb
      split
      · exact bare_mergeRow old _
      · rfl
    exact (plain_of_bare hbare).trans (plain_rehash old).symm
  have hfilter : (sentRows context table items).filter
      (fun row => decide (context.upsert.Free table row)) =
        (newItems context table items).map fun first =>
          rowBinding context.keyId (sentItem context table items first).fragment := by
    rw [sentRows, filter_map, newItems_eq]
    congr 1
    apply filter_congr
    intro first hfirst
    have hiff := free_sent_iff hcomparable (mem_of_mem_firsts hfirst)
    simp only [Function.comp, hiff]
    cases pickStored context table first.fragment <;> rfl
  have hnew : ((newItems context table items).map fun first =>
      rowBinding context.keyId (sentItem context table items first).fragment).map plain =
        ((newItems context table items).map fun first =>
          prepareInsertRow sha context.keyId first.fragment).map plain := by
    rw [map_map, map_map]
    apply map_congr_left
    intro first hfirst
    have hplain := plain_of_bare (bare_rowBinding_gather context.keyId context.scope
      (leftItems context table items) first)
    have hkey := hcomparable.no_idempotencyKey first (mem_newItems hfirst).1
    refine Eq.trans hplain ?_
    simp only [Function.comp, plain, rowBinding, prepareInsertRow, hkey]
  rw [Upsert.settled, hfilter, map_append, hold, hnew, <- map_append]
  rfl

theorem answerRow_id (hcells : CellsAgree context table items)
    (hsatisfies : Satisfies context.indexes table) (hitem : item ∈ items) :
    (answerRow context table items item).id = answerId context table items item := by
  cases hstored : storedHit context table item.fragment with
  | some row =>
    have hpick : pickStored context table item.fragment = some row := by
      unfold storedHit at hstored
      split at hstored
      · exact (Option.filter_eq_some_iff.mp hstored).1
      · cases hstored
    simp only [answerRow, answerId, hstored, hpick]
  | none =>
    have hleft : item ∈ leftItems context table items :=
      mem_filter.mpr ⟨hitem, by rw [hstored]; rfl⟩
    let first := leader (itemKey context.scope) (leftItems context table items) item
    have hlead : itemKey context.scope first = itemKey context.scope item := key_leader _ item
    have hfirst : first ∈ firsts (itemKey context.scope) (leftItems context table items) :=
      leader_mem_firsts hleft rfl
    have hfirstLeft : first ∈ leftItems context table items := mem_of_mem_firsts hfirst
    let sent := rowBinding context.keyId (sentItem context table items first).fragment
    have hanswer : answerRow context table items item = context.upsert.target table sent := by
      simp only [answerRow, hstored]
      rfl
    rw [hanswer]
    have hnew : (pickStored context table first.fragment).isNone =
        (pickStored context table item.fragment).isNone := pickStored_isNone_congr hlead
    cases hpick : pickStored context table item.fragment with
    | none =>
      rw [hpick] at hnew
      have hnone : pickStored context table first.fragment = none := by simpa using hnew
      rw [Upsert.target_of_free ((free_sent_iff hcomparable hfirstLeft).mpr hnone)]
      have hmem : first ∈ newItems context table items := by
        rw [newItems_eq]
        exact mem_filter.mpr ⟨hfirst, hnew⟩
      have hsame := eq_leader hmem hlead
      simp only [answerId, hpick]
      rw [<- hsame]
      exact (sent_columns context table items first).1
    | some pick =>
      simp only [answerId, hpick]
      have hpickMem := (mem_sameContent.mp (pickDuplicate_mem hpick)).1
      have hpickMeets := meets_pick_of_left hcomparable hleft hpick
      have hpickFirst : context.upsert.Conflicts pick sent := (conflicts_sent first).mpr
        (meets_of_itemKey hcomparable hcells hpickMem hleft hfirstLeft hlead.symm hpickMeets)
      cases hfind : table.find? (fun old => decide (context.upsert.Conflicts old sent)) with
      | none => simpa [hpickFirst] using find?_eq_none.mp hfind pick hpickMem
      | some old =>
        have hconflict : context.upsert.Conflicts old sent := by simpa using find?_some hfind
        have hsame : old = pick := by
          obtain ⟨name, harbiter, hclash⟩ := hconflict
          obtain ⟨name', harbiter', hclash'⟩ := hpickFirst
          have hname : name = name' := Option.some.inj (harbiter.symm.trans harbiter')
          subst hname
          exact (hsatisfies name (existing_of_conflictIndex harbiter)).eq_of_clash
            (mem_of_find?_eq_some hfind) hpickMem (hclash.trans hclash'.symm)
        rw [Upsert.target_of_find hfind, hsame]
        rfl

def mergeItems (keyId : Option String) (old : Row) (items : List (Item sha.hashContent)) : Row :=
  items.foldl (fun row item => mergeRow row (rowBinding keyId item.fragment)) old

omit hcomparable in
theorem mergeRow_absorbItem (keyId : Option String) (old : Row)
    (primary item : Item sha.hashContent) :
    mergeRow old (rowBinding keyId (absorbItem primary item).fragment) =
      mergeRow (mergeRow old (rowBinding keyId primary.fragment))
        (rowBinding keyId item.fragment) := by
  simp [mergeRow, rowBinding, absorbItem, max_assoc, Bool.or_assoc]

omit hcomparable in
theorem mergeRow_foldl_absorbItem (keyId : Option String) (old : Row) (first : Item sha.hashContent)
    (rest : List (Item sha.hashContent)) :
    mergeRow old (rowBinding keyId (rest.foldl absorbItem first).fragment) =
      mergeItems keyId old (first :: rest) := by
  induction rest generalizing first with
  | nil => rfl
  | cons item rest ih =>
    rw [foldl_cons, ih]
    simp only [mergeItems, foldl_cons, mergeRow_absorbItem]

theorem absorb_sentRows (hcells : CellsAgree context table items) (hold : old ∈ table) :
    context.upsert.absorb (sentRows context table items) old =
      mergeItems context.keyId old (items.filter (meets context old)) := by
  cases hfind : (sentRows context table items).find?
      (fun new => decide (context.upsert.Conflicts old new)) with
  | none =>
    have hnone : items.filter (meets context old) = [] := by
      rw [filter_eq_nil_iff]
      intro item hitem hmeets
      have hleft := mem_left_of_meets hcomparable hitem hold hmeets
      let first := leader (itemKey context.scope) (leftItems context table items) item
      have hfirst : first ∈ firsts (itemKey context.scope) (leftItems context table items) :=
        leader_mem_firsts hleft rfl
      have hfirstMeets := meets_of_itemKey hcomparable hcells hold hleft
        (mem_of_mem_firsts hfirst) (key_leader _ item).symm hmeets
      have hnot := find?_eq_none.mp hfind _ (mem_sentRows.mpr ⟨first, hfirst, rfl⟩)
      simp [(conflicts_sent first).mpr hfirstMeets] at hnot
    simp only [Upsert.absorb, hfind, hnone]
    rfl
  | some new =>
    obtain ⟨first, hfirst, rfl⟩ := mem_sentRows.mp (mem_of_find?_eq_some hfind)
    have hfirstLeft : first ∈ leftItems context table items := mem_of_mem_firsts hfirst
    have hconflict : context.upsert.Conflicts old
        (rowBinding context.keyId (sentItem context table items first).fragment) := by
      simpa using find?_some hfind
    have hfirstMeets := (conflicts_sent first).mp hconflict
    -- The items that meet the row are those of one fold key.
    have hclass : items.filter (meets context old) =
        (leftItems context table items).filter
          fun item => itemKey context.scope item = itemKey context.scope first := by
      rw [leftItems, filter_filter]
      apply filter_congr
      intro item hitem
      rw [Bool.eq_iff_iff]
      constructor
      · intro hmeets
        have hleft := mem_left_of_meets hcomparable hitem hold hmeets
        let other := leader (itemKey context.scope) (leftItems context table items) item
        have hother : other ∈ firsts (itemKey context.scope) (leftItems context table items) :=
          leader_mem_firsts hleft rfl
        have hotherMeets := meets_of_itemKey hcomparable hcells hold hleft
          (mem_of_mem_firsts hother) (key_leader _ item).symm hmeets
        have hkey : itemKey context.scope other = itemKey context.scope first := by
          by_contra hne
          exact ((conflicts_sent other).mpr hotherMeets).not_apart hconflict (sent_apart hne)
        have hnone : storedHit context table item.fragment = none := by
          simpa using (mem_filter.mp hleft).2
        simp [hnone, <- hkey, other, key_leader]
      · intro hboth
        rw [Bool.and_eq_true, decide_eq_true_iff] at hboth
        have hleft : item ∈ leftItems context table items :=
          mem_filter.mpr ⟨hitem, hboth.2⟩
        exact meets_of_itemKey hcomparable hcells hold hfirstLeft hleft hboth.1.symm hfirstMeets
    have hhead : (leftItems context table items).filter
        (fun item => decide (itemKey context.scope item = itemKey context.scope first)) =
          first :: ((leftItems context table items).filter
            fun item => itemKey context.scope item = itemKey context.scope first).drop 1 :=
      filter_leader hfirst
    simp only [Upsert.absorb, hfind]
    rw [hclass, hhead, <- mergeRow_foldl_absorbItem]
    rfl

theorem settled_take (hcells : CellsAgree context table items) :
    (context.upsert.settled table (sentRows context table items)).take table.length =
      table.map fun old => mergeItems context.keyId old (items.filter (meets context old)) := by
  have hmap : table.map (context.upsert.absorb (sentRows context table items)) =
      table.map fun old => mergeItems context.keyId old (items.filter (meets context old)) :=
    map_congr_left fun old hold => absorb_sentRows hcomparable hcells hold
  rw [Upsert.settled, hmap]
  exact take_left' (by simp)

end

/-- The batch inserts the rows single writes insert and answers every accepted item
with the same id; of a stored row it raises the importance and the anchor mark to
those of the items that meet it, while single writes leave the row as it is. -/
theorem insertInTransaction_agrees (results : Results)
    (hsatisfies : Satisfies context.indexes table) (hindexes : (items.map Item.index).Nodup)
    (hcomparable : Comparable context table (acceptedItems context table items results))
    (hcells : CellsAgree context table (acceptedItems context table items results)) :
    let accepted := acceptedItems context table items results
    let single := rememberAll sha context (table.map (rehash sha)) (accepted.map Item.fragment)
    exists outcome,
      insertInTransaction context table items results dedupRetries = .ok outcome /\
      accepted.map (fun item => (outcome.results item.index).id) = single.1 /\
      outcome.table.map plain = single.2.map plain /\
      outcome.table.take table.length = table.map (fun old =>
        mergeItems context.keyId old (accepted.filter (meets context old))) /\
      single.2.take table.length = table.map (rehash sha) := by
  intro accepted single
  have hgranted := granted_applyAnchorQuotaToBatch context table items results
  have hsingle : single = (accepted.map fun item => some (answerId context table accepted item),
      singleTable context table accepted) := by
    have hstart : singleTable context table ([] : List (Item sha.hashContent)) =
        table.map (rehash sha) := append_nil _
    have hall := rememberAll_from hcomparable hcells
      (fun done item rest hsplit => applyAnchorQuota_of_granted hgranted hcomparable hsplit)
      (nil_append accepted).symm
    rwa [hstart] at hall
  have hnotsplit : Not (SplitCell context table accepted) := by
    rintro ⟨-, -, item, -, row, hrow, hkey, -, hcell, hne⟩
    exact hne ((hcomparable.stored_workspace row hrow hkey).coalesce.trans hcell)
  obtain ⟨outcome, hrun, htable, hanswers⟩ := insertAccepted_ok
    (hindexes.sublist (acceptedItems_indexes context table items results))
    (sentRows_fits hnotsplit) (applyAnchorQuotaToBatch context table items results).results
  refine ⟨outcome, ?_, ?_, ?_, ?_, ?_⟩
  · rw [insertInTransaction_eq_once]
    exact hrun
  · rw [hsingle]
    apply map_congr_left
    intro item hitem
    rw [hanswers item hitem, answerRow_id hcomparable hcells hsatisfies hitem]
  · rw [hsingle, htable]
    exact settled_plain hcomparable
  · rw [htable]
    exact settled_take hcomparable hcells
  · rw [hsingle]
    exact take_left' (by simp)

theorem comparable_sample (context : WriteContext) {workspace : Option String}
    (hnormal : NormalWorkspace workspace) (item : Item sampleDigest.hashContent)
    (hcontent : item.fragment.content = (sampleRow workspace).content)
    (hidempotencyKey : item.fragment.idempotencyKey = none)
    (hmark : item.fragment.anchorQuota = false) :
    Comparable context [sampleRow workspace] [item] := by
  constructor
  · intro row hrow _
    rw [mem_singleton.mp hrow]
    exact (sampleItem workspace).fragment.hashed
  · intro row hrow _
    rw [mem_singleton.mp hrow]
    exact hnormal
  · intro left right hleft hright _
    have hsame : ∀ content ∈ [sampleRow workspace].map Row.content ++
        [item].map (fun item => item.fragment.content),
          content = (sampleRow workspace).content := by
      simp [hcontent]
    rw [hsame left hleft, hsame right hright]
  · intro other hother
    rw [mem_singleton.mp hother]
    exact hidempotencyKey
  · refine Or.inr ?_
    intro other hother
    rw [mem_singleton.mp hother]
    exact hmark

theorem insertInTransaction_agrees_stored_item :
    let accepted := acceptedItems (sampleContext true) [sampleRow (some "ws-a")]
      [sampleItem (some "ws-b")] startResults
    let single := rememberAll sampleDigest (sampleContext true)
      ([sampleRow (some "ws-a")].map (rehash sampleDigest)) (accepted.map Item.fragment)
    exists outcome,
      insertInTransaction (sampleContext true) [sampleRow (some "ws-a")]
        [sampleItem (some "ws-b")] startResults dedupRetries = .ok outcome /\
      accepted.map (fun item => (outcome.results item.index).id) = single.1 /\
      outcome.table.map plain = single.2.map plain /\
      outcome.table.take 1 = [sampleRow (some "ws-a")].map (fun old =>
        mergeItems (some "key-a") old (accepted.filter (meets (sampleContext true) old))) /\
      single.2.take 1 = [sampleRow (some "ws-a")].map (rehash sampleDigest) := by
  apply insertInTransaction_agrees startResults (satisfies_sampleRow _ _) (by decide)
  · have hnormal : NormalWorkspace (some "ws-a") := by
      unfold NormalWorkspace
      decide +kernel
    exact comparable_sample (sampleContext true) hnormal (sampleItem (some "ws-b")) rfl rfl rfl
  · constructor
    · intro _
      exact pairwise_singleton _ _
    · intro _ _ left right hleft hright _ _ _
      rw [mem_singleton.mp hleft, mem_singleton.mp hright]

def importantItem : Item sampleDigest.hashContent where
  index := 0
  fragment := { (sampleItem none).fragment with
    importance := some (FragmentWriter.maxInitialImportance "preference")
    hashed := sampleItem_hashed }

/-- The batch raises the importance of the row it hits and single writes do not; and
on the very same table the writer's longer hash misses the row of the batch. -/
theorem insertInTransaction_raises_importance :
    (∃ outcome,
      insertInTransaction (sampleContext true) [sampleRow none] [importantItem] startResults
        dedupRetries = .ok outcome /\
      outcome.table.map (fun row => (row.id, row.importance.val)) = [("frag-stored", 9 / 10)]) /\
    (rememberAll sampleDigest (sampleContext true) [rehash sampleDigest (sampleRow none)]
      [importantItem.fragment]).2.map (fun row => (row.id, row.importance.val)) =
        [("frag-stored", 1 / 2)] /\
    (rememberAll sampleDigest (sampleContext true) [sampleRow none]
      [importantItem.fragment]).2.map Row.id = ["frag-stored", "frag-new"] := by
  refine ⟨⟨_, rfl, ?_⟩, ?_, ?_⟩
  · decide +kernel
  · decide +kernel
  · decide +kernel

end AnchorMind.Write.BatchVsSingle
