import AnchorMind.Write.BatchAnswers

/-!
# The batch insert against the unique indexes

The arbiter, the lookup, and the fold key are three functions of the index state.
They line up for every index state but one: a legacy index that is listed but not
valid still forbids a second row of a hash, while the scoped index that arbitrates
keeps a blank stored workspace apart from no workspace at all.
-/

namespace AnchorMind.Write.BatchDedup

open Kernel.UniqueIndex Kernel.FirstOf Write.Fragments Write.DedupScope Write.BatchInsert List
  Write.BatchAnswers

variable {hash : ContentHash}

def Satisfies (indexes : DedupIndexState) (table : List Row) : Prop :=
  ∀ name, indexes.existing name = true -> Unique (indexEntry name) table

def SplitCell (context : WriteContext) (table : List Row) (items : List (Item hash)) : Prop :=
  context.indexes.listed (legacyIndex context.keyId) = some false /\
    context.indexes.valid (scopedIndex context.keyId) = true /\
    ∃ item ∈ items, ∃ row ∈ table,
      row.keyId = context.keyId /\ row.contentHash = item.fragment.contentHash /\
      workspaceKey row.workspace = workspaceKey item.fragment.workspace /\
      coalesceWorkspace row.workspace ≠ workspaceKey item.fragment.workspace

def Answered (context : WriteContext) (outcome : Outcome) (item : Item hash) : Prop :=
  ∃ row ∈ outcome.table, (outcome.results item.index).id = some row.id /\
    row.keyId = context.keyId /\ row.contentHash = item.fragment.contentHash /\
    (context.scope = .key \/
      workspaceKey row.workspace = workspaceKey item.fragment.workspace \/ row.workspace = none)

section

variable {context : WriteContext}

theorem scope_of_legacy (hlegacy : context.indexes.existing (legacyIndex context.keyId) = true) :
    context.scope = .key := by
  simp [WriteContext.scope, effectiveDedupScope, hlegacy]

theorem mem_enforced {name : IndexName} :
    name ∈ context.upsert.enforced <-> context.indexes.existing name = true := by
  simp [WriteContext.upsert, IndexName.mem_all]

theorem arbiter_cases (context : WriteContext) :
    (context.arbiter = some (legacyIndex context.keyId) /\
        context.indexes.valid (legacyIndex context.keyId) = true) \/
      (context.arbiter = some (scopedIndex context.keyId) /\
        context.indexes.valid (legacyIndex context.keyId) = false /\
        context.indexes.valid (scopedIndex context.keyId) = true) \/
      (context.arbiter = none /\ context.indexes.valid (legacyIndex context.keyId) = false) := by
  unfold WriteContext.arbiter conflictIndex
  split
  · rename_i hlegacy
    exact Or.inl ⟨rfl, hlegacy⟩
  · rename_i hlegacy
    have hlegacy : context.indexes.valid (legacyIndex context.keyId) = false := by
      simpa using hlegacy
    split
    · rename_i hscoped
      exact .inr (Or.inl ⟨rfl, hlegacy, hscoped⟩)
    · exact .inr (Or.inr ⟨rfl, hlegacy⟩)

theorem legacyIndex_ne_scopedIndex (keyId : Option String) :
    legacyIndex keyId ≠ scopedIndex keyId := by
  cases keyId <;> simp [legacyIndex, scopedIndex]

theorem lookupRequired_of_arbiter (harbiter : context.arbiter ≠ some (legacyIndex context.keyId)) :
    lookupRequired context.indexes context.keyId = true := by
  have hne : conflictIndex context.indexes context.keyId ≠ some (legacyIndex context.keyId) :=
    harbiter
  simpa [lookupRequired] using hne

theorem listed_of_not_valid {name : IndexName} (hexisting : context.indexes.existing name = true)
    (hinvalid : context.indexes.valid name = false) : context.indexes.listed name = some false := by
  unfold DedupIndexState.existing at hexisting
  unfold DedupIndexState.valid at hinvalid
  cases hlisted : context.indexes.listed name with
  | none => simp [hlisted] at hexisting
  | some valid =>
    cases valid with
    | false => rfl
    | true => simp [hlisted] at hinvalid

end

section

variable {context : WriteContext} {table : List Row} {row old : Row} {workspace : Option String}

theorem sameContent_of_clash {name : IndexName} (hkey : row.keyId = context.keyId)
    (hclash : Clash (indexEntry name) old row) (hold : old ∈ table) :
    old ∈ sameContent table context.keyId row.contentHash := by
  have hlegacy : Clash (indexEntry (legacyIndex context.keyId)) old row := by
    rcases name_of_clash hkey hclash with rfl | rfl
    · exact hclash
    · exact clash_legacy_of_scoped hkey hclash
  exact mem_sameContent.mpr ⟨hold, (clash_legacyIndex hkey).mp hlegacy⟩

theorem apart_of_pick_none (hkey : row.keyId = context.keyId)
    (hcell : coalesceWorkspace row.workspace = workspaceKey workspace)
    (hnone : pickDuplicate (sameContent table context.keyId row.contentHash) workspace
      context.scope = none) (hold : old ∈ table) : context.upsert.Apart old row := by
  intro name hname hclash
  have hsame := sameContent_of_clash hkey hclash hold
  obtain ⟨hexact, -, hempty⟩ := pickDuplicate_eq_none.mp hnone
  rcases name_of_clash hkey hclash with rfl | rfl
  · rw [hempty (scope_of_legacy (mem_enforced.mp hname))] at hsame
    cases hsame
  · have hcells := ((clash_scopedIndex hkey).mp hclash).2.2
    rw [hcell] at hcells
    exact hexact old hsame (workspaceKey_of_coalesce hcells)

end

section

variable {context : WriteContext} {table : List Row} {items : List (Item hash)}
variable {first item : Item hash}

theorem sent_columns (context : WriteContext) (table : List Row) (items : List (Item hash))
    (first : Item hash) :
    let row := rowBinding context.keyId (sentItem context table items first).fragment
    row.id = first.fragment.id /\ row.keyId = context.keyId /\
      row.contentHash = first.fragment.contentHash /\
      row.workspace = normalizeWorkspace first.fragment.workspace := by
  have hbare := bare_rowBinding_gather context.keyId context.scope
    (leftItems context table items) first
  have hid := congrArg Row.id hbare
  have hhash := congrArg Row.contentHash hbare
  have hworkspace := congrArg Row.workspace hbare
  exact ⟨hid, rfl, hhash, hworkspace⟩

theorem mem_sentRows {row : Row} : row ∈ sentRows context table items <->
    ∃ first ∈ firsts (itemKey context.scope) (leftItems context table items),
      rowBinding context.keyId (sentItem context table items first).fragment = row := by
  simp [sentRows]

theorem contentHash_of_itemKey {scope : Scope} (hkey : itemKey scope first = itemKey scope item) :
    first.fragment.contentHash = item.fragment.contentHash :=
  contentHash_of_foldKey first.fragment item.fragment hkey

theorem sent_apart (hkey : itemKey context.scope first ≠ itemKey context.scope item) :
    context.upsert.Apart (rowBinding context.keyId (sentItem context table items first).fragment)
      (rowBinding context.keyId (sentItem context table items item).fragment) := by
  obtain ⟨-, hfirstKey, hfirstHash, hfirstCell⟩ := sent_columns context table items first
  obtain ⟨-, hitemKey, hitemHash, hitemCell⟩ := sent_columns context table items item
  intro name hname hclash
  apply hkey
  rcases name_of_clash hitemKey hclash with rfl | rfl
  · rw [mem_enforced] at hname
    have hclash := (clash_legacyIndex hitemKey).mp hclash
    rw [scope_of_legacy hname]
    exact (foldKey_key_eq first.fragment item.fragment).mpr
      (hfirstHash.symm.trans (hclash.2.trans hitemHash))
  · obtain ⟨-, hhash, hcell⟩ := (clash_scopedIndex hitemKey).mp hclash
    have hhash := hfirstHash.symm.trans (hhash.trans hitemHash)
    rw [hfirstCell, hitemCell, coalesceWorkspace_normalizeWorkspace,
      coalesceWorkspace_normalizeWorkspace] at hcell
    cases context.scope with
    | key => exact (foldKey_key_eq first.fragment item.fragment).mpr hhash
    | workspace => exact (foldKey_workspace_eq first.fragment item.fragment).mpr ⟨hcell, hhash⟩

theorem sentRows_apart : (sentRows context table items).Pairwise context.upsert.Apart := by
  rw [sentRows, pairwise_map]
  refine (firsts_pairwise _).imp ?_
  intro first item hkey
  exact sent_apart hkey

theorem pick_of_left (hleft : item ∈ leftItems context table items)
    (hrequired : lookupRequired context.indexes context.keyId = true) :
    let rows := sameContent table context.keyId item.fragment.contentHash
    pickDuplicate rows item.fragment.workspace context.scope = none \/
      ∃ row, pickDuplicate rows item.fragment.workspace context.scope = some row /\
        context.arbiter ≠ none /\
        workspaceKey row.workspace = workspaceKey item.fragment.workspace := by
  intro rows
  have hnone : storedHit context table item.fragment = none := by
    simpa using (mem_filter.mp hleft).2
  rw [storedHit, if_pos hrequired] at hnone
  cases hpick : pickDuplicate rows item.fragment.workspace context.scope with
  | none => exact .inl rfl
  | some row =>
    have hdrop := Option.filter_eq_none_iff.mp hnone row hpick
    refine Or.inr ⟨row, rfl, ?_⟩
    simpa using hdrop

theorem sent_meets (hsplit : Not (SplitCell context table items))
    (hfirst : first ∈ leftItems context table items) :
    let row := rowBinding context.keyId (sentItem context table items first).fragment
    (∃ old ∈ table, context.upsert.Conflicts old row) \/
      ∀ old ∈ table, context.upsert.Apart old row := by
  intro row
  obtain ⟨-, hkey, hhash, hcell⟩ := sent_columns context table items first
  have hnormal : coalesceWorkspace row.workspace = workspaceKey first.fragment.workspace := by
    rw [hcell, coalesceWorkspace_normalizeWorkspace]
  have hfree (hnone : pickDuplicate (sameContent table context.keyId first.fragment.contentHash)
      first.fragment.workspace context.scope = none) {old : Row} (hold : old ∈ table) :
      context.upsert.Apart old row :=
    apart_of_pick_none hkey hnormal (hhash.symm ▸ hnone) hold
  rcases arbiter_cases context with
    ⟨harbiter, -⟩ | ⟨harbiter, hinvalid, hvalid⟩ | ⟨harbiter, -⟩
  · -- The legacy index arbitrates: it sees whatever the other one holds.
    by_contra hneither
    rw [not_or] at hneither
    apply hneither.2
    intro old hold name _ hclash
    apply hneither.1
    rcases name_of_clash hkey hclash with rfl | rfl
    · exact ⟨old, hold, _, harbiter, hclash⟩
    · exact ⟨old, hold, _, harbiter, clash_legacy_of_scoped hkey hclash⟩
  · -- The scoped index arbitrates: what the lookup left lies in the item's own cell.
    have hne : context.arbiter ≠ some (legacyIndex context.keyId) := by
      rw [harbiter]
      intro hsome
      exact legacyIndex_ne_scopedIndex context.keyId (Option.some.inj hsome).symm
    rcases pick_of_left hfirst (lookupRequired_of_arbiter hne) with
      hnone | ⟨pick, hpick, -, hpickCell⟩
    · exact .inr fun old hold => hfree hnone hold
    · have hmem := mem_sameContent.mp (pickDuplicate_mem hpick)
      by_contra hneither
      rw [not_or] at hneither
      have hcells : coalesceWorkspace pick.workspace ≠ coalesceWorkspace row.workspace := by
        intro hcells
        exact hneither.1 ⟨pick, hmem.1, _, harbiter, (clash_scopedIndex hkey).mpr
          ⟨hmem.2.1, hmem.2.2.trans hhash.symm, hcells⟩⟩
      rw [hnormal] at hcells
      apply hneither.2
      intro old hold name hname hclash
      rcases name_of_clash hkey hclash with rfl | rfl
      · -- Only the legacy index holds it, which is listed and not valid.
        exact hsplit ⟨listed_of_not_valid (mem_enforced.mp hname) hinvalid, hvalid, first,
          (mem_filter.mp hfirst).1, pick, hmem.1, hmem.2.1, hmem.2.2, hpickCell, hcells⟩
      · exact hneither.1 ⟨old, hold, _, harbiter, hclash⟩
  · -- Nothing arbitrates: the lookup has answered every item with a duplicate.
    have hrequired : lookupRequired context.indexes context.keyId = true := by
      apply lookupRequired_of_arbiter
      rw [harbiter]
      simp
    rcases pick_of_left hfirst hrequired with hnone | ⟨pick, -, hsome, -⟩
    · exact .inr fun old hold => hfree hnone hold
    · exact absurd harbiter hsome

theorem sentRows_fits (hsplit : Not (SplitCell context table items)) :
    context.upsert.Fits table (sentRows context table items) := by
  constructor
  · exact sentRows_apart
  · intro row hrow
    obtain ⟨first, hfirst, rfl⟩ := mem_sentRows.mp hrow
    exact sent_meets hsplit (mem_of_mem_firsts hfirst)

theorem sent_barred (hunique : Unique (indexEntry (legacyIndex context.keyId)) table)
    (hsplit : SplitCell context table items) :
    ∃ row ∈ sentRows context table items, context.upsert.Barred table row := by
  obtain ⟨hlisted, hvalid, item, hitem, row, hrow, hkey, hhash, hcell, hcoalesce⟩ := hsplit
  have hexisting : context.indexes.existing (legacyIndex context.keyId) = true := by
    simp [DedupIndexState.existing, hlisted]
  have hscope := scope_of_legacy hexisting
  have harbiter : context.arbiter = some (scopedIndex context.keyId) := by
    have hinvalid : context.indexes.valid (legacyIndex context.keyId) = false := by
      simp [DedupIndexState.valid, hlisted]
    simp [WriteContext.arbiter, conflictIndex, hinvalid, hvalid]
  have hrequired : lookupRequired context.indexes context.keyId = true := by
    apply lookupRequired_of_arbiter
    rw [harbiter]
    intro hsome
    exact legacyIndex_ne_scopedIndex context.keyId (Option.some.inj hsome).symm
  have honly : ∀ other ∈ sameContent table context.keyId item.fragment.contentHash,
      other = row := by
    intro other hother
    obtain ⟨hmem, hotherKey, hotherHash⟩ := mem_sameContent.mp hother
    apply hunique.eq_of_clash hmem hrow
    exact (clash_legacyIndex hkey).mpr ⟨hotherKey, hotherHash.trans hhash.symm⟩
  have hleft : item ∈ leftItems context table items := by
    refine mem_filter.mpr ⟨hitem, ?_⟩
    rw [Option.isNone_iff_eq_none, storedHit, if_pos hrequired, Option.filter_eq_none_iff]
    intro pick hpick
    rw [honly pick (pickDuplicate_mem hpick)]
    simp [harbiter, hcell]
  let first := leader (itemKey context.scope) (leftItems context table items) item
  have hfirst : first ∈ firsts (itemKey context.scope) (leftItems context table items) :=
    leader_mem_firsts hleft rfl
  have hfirstHash : first.fragment.contentHash = item.fragment.contentHash :=
    contentHash_of_itemKey (key_leader _ item)
  have hfirstCell : workspaceKey first.fragment.workspace =
      workspaceKey item.fragment.workspace := by
    rcases pick_of_left (mem_of_mem_firsts hfirst) hrequired with hnone | ⟨pick, hpick, -, hsame⟩
    · obtain ⟨-, -, hempty⟩ := pickDuplicate_eq_none.mp hnone
      have hmem : row ∈ sameContent table context.keyId first.fragment.contentHash :=
        mem_sameContent.mpr ⟨hrow, hkey, hhash.trans hfirstHash.symm⟩
      rw [hempty hscope] at hmem
      cases hmem
    · have hmem := pickDuplicate_mem hpick
      rw [hfirstHash] at hmem
      rw [honly pick hmem] at hsame
      rw [<- hsame, hcell]
  obtain ⟨-, hsentKey, hsentHash, hsentCell⟩ := sent_columns context table items first
  refine ⟨_, mem_sentRows.mpr ⟨first, hfirst, rfl⟩, ?_, row, hrow, ?_⟩
  · rintro old hold ⟨name, hname, hclash⟩
    have hname : scopedIndex context.keyId = name := Option.some.inj (harbiter.symm.trans hname)
    subst hname
    have hsame := sameContent_of_clash hsentKey hclash hold
    rw [hsentHash, hfirstHash] at hsame
    have hcells := ((clash_scopedIndex hsentKey).mp hclash).2.2
    rw [honly old hsame, hsentCell, coalesceWorkspace_normalizeWorkspace, hfirstCell] at hcells
    exact hcoalesce hcells
  · intro hapart
    refine hapart _ (mem_enforced.mpr hexisting) ((clash_legacyIndex hsentKey).mpr ⟨hkey, ?_⟩)
    rw [hhash, hsentHash, hfirstHash]

end

section

variable {context : WriteContext} {table : List Row} {items : List (Item hash)}

theorem absorbed_row (context : WriteContext) {old : Row} (hold : old ∈ table) (news : List Row) :
    ∃ row ∈ context.upsert.settled table news, bare row = bare old := by
  refine ⟨context.upsert.absorb news old, Upsert.mem_settled.mpr (Or.inl ⟨old, hold, rfl⟩), ?_⟩
  unfold Upsert.absorb
  split
  · exact bare_mergeRow old _
  · rfl

theorem columns_of_bare {left right : Row} (hbare : bare left = bare right) :
    left.id = right.id /\ left.keyId = right.keyId /\ left.workspace = right.workspace /\
      left.contentHash = right.contentHash := by
  have hid := congrArg Row.id hbare
  have hkey := congrArg Row.keyId hbare
  have hworkspace := congrArg Row.workspace hbare
  have hhash := congrArg Row.contentHash hbare
  exact ⟨hid, hkey, hworkspace, hhash⟩

theorem answerRow_settled (context : WriteContext) (table : List Row) {item : Item hash}
    (hitem : item ∈ items) :
    ∃ row ∈ context.upsert.settled table (sentRows context table items),
      row.id = (answerRow context table items item).id /\ row.keyId = context.keyId /\
      row.contentHash = item.fragment.contentHash /\
      (context.scope = .key \/
        workspaceKey row.workspace = workspaceKey item.fragment.workspace \/
          row.workspace = none) := by
  cases hstored : storedHit context table item.fragment with
  | some pick =>
    have hpick : pickDuplicate
        (sameContent table context.keyId item.fragment.contentHash) item.fragment.workspace
        context.scope = some pick := by
      unfold storedHit at hstored
      split at hstored
      · exact (Option.filter_eq_some_iff.mp hstored).1
      · cases hstored
    have hmem := mem_sameContent.mp (pickDuplicate_mem hpick)
    obtain ⟨row, hrow, hbare⟩ := absorbed_row context hmem.1 (sentRows context table items)
    obtain ⟨hid, hkey, hworkspace, hhash⟩ := columns_of_bare hbare
    refine ⟨row, hrow, ?_, hkey.trans hmem.2.1, hhash.trans hmem.2.2, ?_⟩
    · simp only [answerRow, hstored, hid]
    · rw [hworkspace]
      exact pickDuplicate_scope hpick
  | none =>
    have hleft : item ∈ leftItems context table items :=
      mem_filter.mpr ⟨hitem, by rw [hstored]; rfl⟩
    let first := leader (itemKey context.scope) (leftItems context table items) item
    have hlead : itemKey context.scope first = itemKey context.scope item := key_leader _ item
    have hfirst : first ∈ firsts (itemKey context.scope) (leftItems context table items) :=
      leader_mem_firsts hleft rfl
    have hfirstHash := contentHash_of_itemKey hlead
    have hfirstCell : context.scope = .workspace ->
        workspaceKey first.fragment.workspace = workspaceKey item.fragment.workspace := by
      intro hscope
      rw [hscope] at hlead
      exact ((foldKey_workspace_eq _ _).mp hlead).1
    let sent := rowBinding context.keyId (sentItem context table items first).fragment
    obtain ⟨hsentId, hsentKey, hsentHash, hsentCell⟩ := sent_columns context table items first
    have hanswer : answerRow context table items item = context.upsert.target table sent := by
      simp only [answerRow, hstored]
      rfl
    rw [hanswer]
    cases hfind : table.find? (fun old => decide (context.upsert.Conflicts old sent)) with
    | some old =>
      have hold := mem_of_find?_eq_some hfind
      have hconflict : context.upsert.Conflicts old sent := by simpa using find?_some hfind
      obtain ⟨name, harbiter, hclash⟩ := hconflict
      have hsame := mem_sameContent.mp (sameContent_of_clash hsentKey hclash hold)
      obtain ⟨row, hrow, hbare⟩ := absorbed_row context hold (sentRows context table items)
      obtain ⟨hid, hkey, hworkspace, hhash⟩ := columns_of_bare hbare
      refine ⟨row, hrow, ?_, hkey.trans hsame.2.1,
        ((hhash.trans hsame.2.2).trans hsentHash).trans hfirstHash, ?_⟩
      · rw [Upsert.target_of_find hfind, hid]
        rfl
      · cases hscope : context.scope with
        | key => exact .inl rfl
        | workspace =>
          refine .inr (Or.inl ?_)
          have hname : name = scopedIndex context.keyId := by
            rcases name_of_clash hsentKey hclash with rfl | hname
            · have hexisting := mem_enforced.mp (context.upsert.arbiter_enforced _ harbiter)
              rw [scope_of_legacy hexisting] at hscope
              cases hscope
            · exact hname
          subst hname
          have hcells := ((clash_scopedIndex hsentKey).mp hclash).2.2
          rw [hsentCell, coalesceWorkspace_normalizeWorkspace] at hcells
          rw [hworkspace, workspaceKey_of_coalesce hcells, hfirstCell hscope]
    | none =>
      have hfree : context.upsert.Free table sent := by
        intro old hold hconflict
        simpa [hconflict] using find?_eq_none.mp hfind old hold
      refine ⟨sent, Upsert.mem_settled.mpr (Or.inr ⟨mem_sentRows.mpr ⟨first, hfirst, rfl⟩, hfree⟩),
        ?_, hsentKey, hsentHash.trans hfirstHash, ?_⟩
      · rw [Upsert.target_of_free hfree]
      · cases hscope : context.scope with
        | key => exact .inl rfl
        | workspace =>
          refine .inr (Or.inl ?_)
          rw [hsentCell, workspaceKey_normalizeWorkspace, hfirstCell hscope]

end

section

variable (context : WriteContext) (table : List Row) (items : List (Item hash))
variable (results : Results)

def acceptedItems : List (Item hash) :=
  (applyAnchorQuotaToBatch context table items results).kept

theorem acceptedItems_indexes :
    ((acceptedItems context table items results).map Item.index).Sublist
      (items.map Item.index) := by
  unfold acceptedItems applyAnchorQuotaToBatch
  induction items using reverseRecOn with
  | nil => exact Sublist.slnil
  | append_singleton items last ih =>
    rw [foldl_append, foldl_cons, foldl_nil, map_append]
    rcases allotAnchor_kept context (items.foldl (allotAnchor context) _) last with
      hkept | hkept | hkept
    · rw [hkept]
      exact ih.trans (sublist_append_left _ _)
    · rw [hkept, map_append]
      exact ih.append (Sublist.refl _)
    · rw [hkept, map_append]
      exact ih.append (Sublist.refl _)

variable {context table items}

/-- The batch insert violates no index, writes no row twice in one statement, and
answers every accepted item from its dedup scope, exactly when no accepted item
meets a stored row in a split cell. -/
theorem insertInTransaction_answers_iff (hsatisfies : Satisfies context.indexes table)
    (hindexes : (items.map Item.index).Nodup) :
    (∃ outcome,
        insertInTransaction context table items results dedupRetries = .ok outcome /\
        ∀ item ∈ acceptedItems context table items results,
          Answered context outcome item) <->
      Not (SplitCell context table (acceptedItems context table items results)) := by
  rw [insertInTransaction_eq_once]
  unfold insertInTransactionOnce
  have haccepted : ((acceptedItems context table items results).map Item.index).Nodup :=
    hindexes.sublist (acceptedItems_indexes context table items results)
  constructor
  · rintro ⟨outcome, hrun, -⟩ hsplit
    have hexisting : context.indexes.existing (legacyIndex context.keyId) = true := by
      simp [DedupIndexState.existing, hsplit.1]
    obtain ⟨row, hrow, hbarred⟩ := sent_barred (hsatisfies _ hexisting) hsplit
    have hflat := (insertChunks_flatten context _).trans
      (collapse_rows context table (acceptedItems context table items results))
    obtain ⟨refusal, hrefused⟩ := Upsert.statements_barred (hflat.symm ▸ sentRows_apart)
      (hflat.symm ▸ hrow) hbarred
    have hresolved := resolveDuplicates_eq context table
      (acceptedItems context table items results)
    unfold acceptedItems at hresolved hrefused
    unfold insertAccepted at hrun
    simp only [hresolved, insertChunks, hrefused] at hrun
    cases hrun
  · intro hsplit
    obtain ⟨outcome, hrun, htable, hanswers⟩ := insertAccepted_ok haccepted
      (sentRows_fits hsplit) (applyAnchorQuotaToBatch context table items results).results
    refine ⟨outcome, hrun, ?_⟩
    intro item hitem
    obtain ⟨row, hrow, hid, hkey, hhash, hscope⟩ :=
      answerRow_settled context table hitem
    refine ⟨row, ?_, ?_, hkey, hhash, hscope⟩
    · rw [htable]
      exact hrow
    · rw [hanswers item hitem, hid]

end

def sampleDigest : Sha256 where
  hex _ := "049bfad7ee66af3ebd64c620d4fd4f2f05ee2bb83914525360e7ba4fc5f8b9b1"
  length_hex _ := by decide +kernel

def sampleRow (workspace : Option String) : Row where
  id := "frag-stored"
  keyId := some "key-a"
  workspace := workspace
  content := "The nightly backup runs at two."
  type := "fact"
  contentHash := "049bfad7ee66af3e"
  importance := defaultImportance
  isAnchor := false
  idempotencyKey := none
  validTo := none

def sampleItem (workspace : Option String) : Item sampleDigest.hashContent where
  index := 0
  fragment := {
    id := "frag-new"
    content := "The nightly backup runs at two."
    type := "fact"
    contentHash := "049bfad7ee66af3e"
    importance := none
    isAnchor := false
    anchorQuota := false
    workspace := workspace
    idempotencyKey := none
    hashed := by decide +kernel }

theorem sampleItem_hashed : (sampleItem none).fragment.contentHash =
    sampleDigest.hashContent.of (sampleItem none).fragment.content :=
  (sampleItem none).fragment.hashed

def sampleContext (legacyValid : Bool) : WriteContext where
  keyId := some "key-a"
  indexes := ⟨fun
    | .keyLegacy => some legacyValid
    | .keyScoped => some true
    | .masterLegacy => none
    | .masterScoped => none⟩
  configured := .workspace
  anchorLimit := 1000
  enforceAnchors := false

def startResults : Results := fun _ => ⟨none, none, []⟩

theorem satisfies_sampleRow (context : WriteContext) (workspace : Option String) :
    Satisfies context.indexes [sampleRow workspace] :=
  fun _ _ => pairwise_singleton _ _

theorem insertInTransaction_answers_stored_item :
    ∃ outcome,
      insertInTransaction (sampleContext true) [sampleRow (some "ws-a")]
        [sampleItem (some "ws-b")] startResults dedupRetries = .ok outcome /\
      ∀ item ∈ acceptedItems (sampleContext true) [sampleRow (some "ws-a")]
          [sampleItem (some "ws-b")] startResults,
        Answered (sampleContext true) outcome item := by
  refine (insertInTransaction_answers_iff startResults (satisfies_sampleRow _ _) (by decide)).mpr ?_
  rintro ⟨hlisted, -⟩
  exact absurd hlisted (by decide)

/-- A stored blank workspace and an item without one share a cell in the lookup and
not in the arbiter, and the insert runs into the legacy index. -/
theorem insertInTransaction_violates_legacy :
    Satisfies (sampleContext false).indexes [sampleRow (some "  ")] /\
      (sampleContext false).arbiter = some .keyScoped /\
      insertInTransaction (sampleContext false) [sampleRow (some "  ")] [sampleItem none]
        startResults dedupRetries = .error (.uniqueViolation .keyLegacy) :=
  ⟨satisfies_sampleRow _ _, by decide, by rfl⟩

end AnchorMind.Write.BatchDedup
