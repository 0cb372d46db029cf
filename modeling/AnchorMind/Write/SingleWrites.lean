import AnchorMind.Write.BatchDedup
import AnchorMind.Write.FragmentWriter

/-!
# The items of a batch remembered one at a time

The two write paths keep different hash formats, so a batch on a table of batch rows
is compared with single writes on the same rows in the writer's format.  Single
writes answer a fragment with the stored duplicate, or else with the first fragment
of its fold key, and they leave the stored rows as they are.
-/

namespace AnchorMind.Write.SingleWrites

open Kernel.UniqueIndex Kernel.FirstOf Write.Fragments Write.DedupScope Write.BatchInsert List
  Write.BatchAnswers Write.BatchDedup Write.FragmentWriter

variable {sha : Sha256}

def rehash (sha : Sha256) (row : Row) : Row :=
  { row with contentHash := sha.computeContentHash.of row.content }

/-- The columns both paths write alike: the hash format and the merged columns aside. -/
def plain (row : Row) : Row :=
  { row with contentHash := "", importance := defaultImportance, isAnchor := false }

@[simp] theorem plain_rehash (row : Row) : plain (rehash sha row) = plain row := rfl

theorem plain_of_bare {left right : Row} (hbare : bare left = bare right) :
    plain left = plain right := by
  have hself (row : Row) : plain (bare row) = plain row := rfl
  rw [<- hself left, <- hself right, hbare]

def pickStored {hash : ContentHash} (context : WriteContext) (table : List Row)
    (fragment : Fragment hash) : Option Row :=
  pickDuplicate (sameContent table context.keyId fragment.contentHash) fragment.workspace
    context.scope

def StoredInCell {hash : ContentHash} (context : WriteContext) (table : List Row)
    (fragment : Fragment hash) : Prop :=
  ∃ row ∈ sameContent table context.keyId fragment.contentHash,
    workspaceKey row.workspace = workspaceKey fragment.workspace

variable {old new : List Row} {workspace : Option String} {scope : Scope} {row : Row}

theorem pickDuplicate_congr {other : Option String}
    (hcell : workspaceKey workspace = workspaceKey other) (rows : List Row) :
    pickDuplicate rows workspace scope = pickDuplicate rows other scope := by
  simp only [pickDuplicate, hcell]

theorem pickDuplicate_rehash (rows : List Row) :
    pickDuplicate (rows.map (rehash sha)) workspace scope =
      (pickDuplicate rows workspace scope).map (rehash sha) := by
  have hexact : (rows.map (rehash sha)).find? (fun row =>
      decide (workspaceKey row.workspace = workspaceKey workspace)) =
        (rows.find? fun row =>
          decide (workspaceKey row.workspace = workspaceKey workspace)).map (rehash sha) := by
    rw [find?_map]
    rfl
  have hglobal : (rows.map (rehash sha)).find? (fun row => decide (row.workspace = none)) =
      (rows.find? fun row => decide (row.workspace = none)).map (rehash sha) := by
    rw [find?_map]
    rfl
  unfold pickDuplicate
  rw [hexact, hglobal]
  cases rows.find? (fun row => decide (workspaceKey row.workspace = workspaceKey workspace)) with
  | some exact => rfl
  | none =>
    cases rows.find? (fun row => decide (row.workspace = none)) with
    | some global => rfl
    | none =>
      cases scope with
      | key => simp
      | workspace => rfl

theorem pickDuplicate_append_of_some (hpick : pickDuplicate old workspace scope = some row)
    (hnew : new = [] \/ workspaceKey row.workspace = workspaceKey workspace) :
    pickDuplicate (old ++ new) workspace scope = some row := by
  rcases hnew with rfl | hexact
  · rwa [append_nil]
  · apply pickDuplicate_of_exact
    rw [find?_append, exact_of_pickDuplicate hpick (pickDuplicate_mem hpick) hexact]
    rfl

theorem pickDuplicate_append_of_none (hpick : pickDuplicate old workspace scope = none) :
    pickDuplicate (old ++ new) workspace scope = pickDuplicate new workspace scope := by
  obtain ⟨hexact, hglobal, hkey⟩ := pickDuplicate_eq_none.mp hpick
  cases scope with
  | key => rw [hkey rfl, nil_append]
  | workspace =>
    have hexact' : old.find? (fun row => decide (workspaceKey row.workspace =
        workspaceKey workspace)) = none := by simpa using hexact
    have hglobal' : old.find? (fun row => decide (row.workspace = none)) = none := by
      simpa using hglobal
    unfold pickDuplicate
    rw [find?_append, hexact', Option.none_or, find?_append, hglobal', Option.none_or]

/-- The stored rows of the key are in the batch's hash format and in normalized
workspaces, no two contents at hand share a hash, the items carry no idempotency
key, and the gate marked all anchor designations of the batch or none. -/
structure Comparable (context : WriteContext) (table : List Row)
    (items : List (Item sha.hashContent)) : Prop where
  stored_hash : ∀ row ∈ table, row.keyId = context.keyId ->
    row.contentHash = sha.hashContent.of row.content
  stored_workspace : ∀ row ∈ table, row.keyId = context.keyId ->
    NormalWorkspace row.workspace
  separate : ∀ left right,
    left ∈ table.map Row.content ++ items.map (fun item => item.fragment.content) ->
    right ∈ table.map Row.content ++ items.map (fun item => item.fragment.content) ->
    sha.hashContent.of left = sha.hashContent.of right -> left = right
  no_idempotencyKey : ∀ item ∈ items, item.fragment.idempotencyKey = none
  marks : (∀ item ∈ items,
      item.fragment.isAnchor = true -> item.fragment.anchorQuota = true) \/
    ∀ item ∈ items, item.fragment.anchorQuota = false

structure CellsAgree {hash : ContentHash} (context : WriteContext) (table : List Row)
    (items : List (Item hash)) : Prop where
  workspace : context.scope = .workspace -> items.Pairwise fun first later =>
    first.fragment.contentHash = later.fragment.contentHash ->
    workspaceKey first.fragment.workspace = "" ->
    workspaceKey later.fragment.workspace = "" \/ pickStored context table later.fragment ≠ none
  key : context.scope = .key -> context.arbiter = some (scopedIndex context.keyId) ->
    ∀ left right, left ∈ items -> right ∈ items ->
      left.fragment.contentHash = right.fragment.contentHash ->
      StoredInCell context table left.fragment -> StoredInCell context table right.fragment ->
      workspaceKey left.fragment.workspace = workspaceKey right.fragment.workspace

def newItems {hash : ContentHash} (context : WriteContext) (table : List Row)
    (items : List (Item hash)) : List (Item hash) :=
  firsts (itemKey context.scope)
    (items.filter fun item => (pickStored context table item.fragment).isNone)

def answerId {hash : ContentHash} (context : WriteContext) (table : List Row)
    (items : List (Item hash)) (item : Item hash) : String :=
  match pickStored context table item.fragment with
  | some row => row.id
  | none => (leader (itemKey context.scope)
      (items.filter fun item => (pickStored context table item.fragment).isNone) item).fragment.id

variable {hash : ContentHash} {context : WriteContext} {table : List Row}
variable {items : List (Item hash)} {left right : Item hash}

theorem pickStored_isNone_congr (hkey : itemKey context.scope left = itemKey context.scope right) :
    (pickStored context table left.fragment).isNone =
      (pickStored context table right.fragment).isNone := by
  have hhash := contentHash_of_itemKey hkey
  unfold pickStored
  rw [hhash]
  cases hscope : context.scope with
  | workspace =>
    rw [hscope] at hkey
    rw [pickDuplicate_congr ((foldKey_workspace_eq _ _).mp hkey).1]
  | key =>
    let rows := sameContent table context.keyId right.fragment.contentHash
    have hempty (workspace : Option String) :
        (pickDuplicate rows workspace .key).isNone = rows.isEmpty := by
      cases hrows : rows with
      | nil => rfl
      | cons row rest =>
        have hne : pickDuplicate (row :: rest) workspace .key ≠ none := by
          intro hnone
          have hnil := (pickDuplicate_eq_none.mp hnone).2.2 rfl
          cases hnil
        simpa using Option.isSome_iff_ne_none.mpr hne
    rw [hempty, hempty]

theorem itemKey_eq {scope : Scope} (hhash : left.fragment.contentHash = right.fragment.contentHash)
    (hcell : scope = .key \/
      workspaceKey left.fragment.workspace = workspaceKey right.fragment.workspace) :
    itemKey scope left = itemKey scope right := by
  cases scope with
  | key => exact (foldKey_key_eq _ _).mpr hhash
  | workspace =>
    rcases hcell with hscope | hcell
    · cases hscope
    · exact (foldKey_workspace_eq _ _).mpr ⟨hcell, hhash⟩

theorem mem_newItems (hleft : left ∈ newItems context table items) :
    left ∈ items /\ pickStored context table left.fragment = none := by
  obtain ⟨hmem, hnone⟩ := mem_filter.mp (mem_of_mem_firsts hleft)
  exact ⟨hmem, by simpa using hnone⟩

def singleTable (context : WriteContext) (table : List Row)
    (items : List (Item sha.hashContent)) : List Row :=
  table.map (rehash sha) ++
    (newItems context table items).map fun item => prepareInsertRow sha context.keyId item.fragment

theorem hashContent_of_computeContentHash {left right : String}
    (hfull : sha.computeContentHash.of left = sha.computeContentHash.of right) :
    sha.hashContent.of left = sha.hashContent.of right := by
  have hhex : sha.hex left = sha.hex right := hfull
  simp only [Sha256.hashContent, hhex]

variable {done rest : List (Item sha.hashContent)}
variable {item : Item sha.hashContent} {items : List (Item sha.hashContent)}

theorem computeContentHash_eq_iff (hcomparable : Comparable context table items)
    (hitem : item ∈ items) {content : String}
    (hcontent : content ∈ table.map Row.content ++ items.map (fun item => item.fragment.content)) :
    sha.computeContentHash.of content = sha.computeContentHash.of item.fragment.content <->
      sha.hashContent.of content = item.fragment.contentHash := by
  rw [item.fragment.hashed]
  constructor
  · exact hashContent_of_computeContentHash
  · intro hshort
    have hmem : item.fragment.content ∈
        table.map Row.content ++ items.map (fun item => item.fragment.content) :=
      mem_append_right _ (mem_map.mpr ⟨item, hitem, rfl⟩)
    rw [hcomparable.separate _ _ hcontent hmem hshort]

theorem sameContent_singleTable (hcomparable : Comparable context table (done ++ item :: rest)) :
    sameContent (singleTable context table done) context.keyId
        (sha.computeContentHash.of item.fragment.content) =
      (sameContent table context.keyId item.fragment.contentHash).map (rehash sha) ++
        ((newItems context table done).filter fun other =>
          other.fragment.contentHash = item.fragment.contentHash).map
            fun other => prepareInsertRow sha context.keyId other.fragment := by
  have hitem : item ∈ done ++ item :: rest := mem_append_right _ mem_cons_self
  unfold sameContent singleTable
  rw [filter_append, filter_map, filter_map]
  congr 1
  · congr 1
    apply filter_congr
    intro row hrow
    rcases Classical.em (row.keyId = context.keyId) with hkey | hkey
    · have hiff := computeContentHash_eq_iff hcomparable hitem
        (mem_append_left _ (mem_map.mpr ⟨row, hrow, rfl⟩))
      rw [<- hcomparable.stored_hash row hrow hkey] at hiff
      simp [rehash, hkey, hiff]
    · simp [rehash, hkey]
  · congr 1
    apply filter_congr
    intro other hother
    have hdone := (mem_newItems hother).1
    have hiff := computeContentHash_eq_iff hcomparable hitem
      (mem_append_right _ (mem_map.mpr ⟨other, mem_append_left _ hdone, rfl⟩))
    rw [<- other.fragment.hashed] at hiff
    simp [prepareInsertRow, hiff]

theorem findContentHashMatches_single (table : List Row) (keyId : Option String) (text : String) :
    findContentHashMatches table keyId [text] none = sameContent table keyId text := by
  unfold findContentHashMatches sameContent
  apply filter_congr
  intro row _
  simp [Bool.and_comm]

theorem runInsert_of_pick {row existing : Row}
    (hpick : pickDuplicate (sameContent table context.keyId row.contentHash) row.workspace
      context.scope = some existing) :
    runInsert context table row = .ok ⟨existing.id, false, table⟩ := by
  have honce : insertOnce context table row = .ok ⟨existing.id, false, table⟩ := by
    simp only [insertOnce, findContentHashMatches_single, hpick]
  simp only [runInsert, honce]

/-- A fragment without one is appended: no listed index stands in its way. -/
theorem runInsert_of_none {row : Row} (hkey : row.keyId = context.keyId)
    (hnormal : NormalWorkspace row.workspace)
    (hnone : pickDuplicate (sameContent table context.keyId row.contentHash) row.workspace
      context.scope = none) :
    ∃ created, runInsert context table row = .ok ⟨row.id, created, table ++ [row]⟩ := by
  have hapart : ∀ old ∈ table, context.upsert.Apart old row :=
    fun old hold => apart_of_pick_none hkey hnormal.coalesce hnone hold
  have hfits : context.upsert.Fits table [row] := by
    constructor
    · exact pairwise_singleton _ _
    · intro new hnew
      rw [mem_singleton.mp hnew]
      exact .inr hapart
  have hfree : context.upsert.Free table row := fun old hold => (hapart old hold).not_conflicts
  refine ⟨decide (context.upsert.Free table row), ?_⟩
  have honce : insertOnce context table row =
      .ok ⟨row.id, decide (context.upsert.Free table row), table ++ [row]⟩ := by
    simp only [insertOnce, findContentHashMatches_single, hnone, Upsert.statement_ok hfits,
      Upsert.settled_single_of_free hfree, map_cons, map_nil,
      Upsert.target_of_free hfree, head?_cons, Option.map_some, Option.getD_some]
  simp only [runInsert, honce]

theorem pick_singleTable (hcomparable : Comparable context table (done ++ item :: rest))
    (hcells : CellsAgree context table (done ++ item :: rest)) :
    pickDuplicate (sameContent (singleTable context table done) context.keyId
        (sha.computeContentHash.of item.fragment.content)) item.fragment.workspace context.scope =
      match pickStored context table item.fragment with
      | some row => some (rehash sha row)
      | none => ((newItems context table done).find? fun other =>
            itemKey context.scope other = itemKey context.scope item).map
          fun other => prepareInsertRow sha context.keyId other.fragment := by
  rw [sameContent_singleTable hcomparable]
  let stored := sameContent table context.keyId item.fragment.contentHash
  let news := (newItems context table done).filter fun other =>
    other.fragment.contentHash = item.fragment.contentHash
  have hnews : ∀ other ∈ news, other ∈ newItems context table done /\
      other.fragment.contentHash = item.fragment.contentHash := by
    intro other hother
    obtain ⟨hmem, hhash⟩ := mem_filter.mp hother
    exact ⟨hmem, by simpa using hhash⟩
  -- A new item of this hash was picked nothing among the same stored rows.
  have hunpicked : ∀ other ∈ news,
      pickDuplicate stored other.fragment.workspace context.scope = none := by
    intro other hother
    obtain ⟨hmem, hhash⟩ := hnews other hother
    have hnone := (mem_newItems hmem).2
    rwa [pickStored, hhash] at hnone
  cases hstored : pickStored context table item.fragment with
  | some row =>
    have hpick : pickDuplicate stored item.fragment.workspace context.scope = some row := hstored
    apply pickDuplicate_append_of_some
    · rw [pickDuplicate_rehash, hpick]
      rfl
    · rcases pickDuplicate_scope hpick with hscope | hexact | hglobal
      · refine .inl (map_eq_nil_iff.mpr (eq_nil_iff_forall_not_mem.mpr ?_))
        intro other hother
        have hempty := (pickDuplicate_eq_none.mp (hunpicked other hother)).2.2 hscope
        exact ne_nil_of_mem (pickDuplicate_mem hpick) hempty
      · exact .inr hexact
      · refine .inl (map_eq_nil_iff.mpr (eq_nil_iff_forall_not_mem.mpr ?_))
        intro other hother
        have hglobals := (pickDuplicate_eq_none.mp (hunpicked other hother)).2.1
        exact hglobals row (pickDuplicate_mem hpick) hglobal
  | none =>
    have hpick : pickDuplicate stored item.fragment.workspace context.scope = none := hstored
    rw [pickDuplicate_append_of_none (by rw [pickDuplicate_rehash, hpick]; rfl)]
    have hcell (other : Item sha.hashContent) :
        workspaceKey (prepareInsertRow sha context.keyId other.fragment).workspace =
          workspaceKey other.fragment.workspace :=
      workspaceKey_normalizeWorkspace _
    cases hfind : (newItems context table done).find? (fun other =>
        decide (itemKey context.scope other = itemKey context.scope item)) with
    | some first =>
      have hfirst := mem_of_find?_eq_some hfind
      have hkey : itemKey context.scope first = itemKey context.scope item := by
        simpa using find?_some hfind
      have hmem : first ∈ news :=
        mem_filter.mpr ⟨hfirst, by simpa using contentHash_of_itemKey hkey⟩
      cases hpicked : pickDuplicate
          (news.map fun other => prepareInsertRow sha context.keyId other.fragment)
          item.fragment.workspace context.scope with
      | none =>
        obtain ⟨hexact, -, hempty⟩ := pickDuplicate_eq_none.mp hpicked
        cases hscope : context.scope with
        | key =>
          have hnil := map_eq_nil_iff.mp (hempty hscope)
          rw [hnil] at hmem
          cases hmem
        | workspace =>
          rw [hscope] at hkey
          have hcells := ((foldKey_workspace_eq _ _).mp hkey).1
          exact absurd ((hcell first).trans hcells)
            (hexact _ (mem_map.mpr ⟨first, hmem, rfl⟩))
      | some row =>
        obtain ⟨other, hother, rfl⟩ := mem_map.mp (pickDuplicate_mem hpicked)
        have hsame : itemKey context.scope other = itemKey context.scope item := by
          apply itemKey_eq (hnews other hother).2
          cases hscope : context.scope with
          | key => exact .inl rfl
          | workspace =>
            rw [hscope] at hkey
            have hcells := ((foldKey_workspace_eq _ _).mp hkey).1
            have hexact := exact_of_pickDuplicate hpicked
              (mem_map.mpr ⟨first, hmem, rfl⟩) ((hcell first).trans hcells)
            refine .inr ((hcell other).symm.trans ?_)
            simpa using find?_some hexact
        have honly : other = first :=
          eq_of_mem_firsts (hnews other hother).1 hfirst (hsame.trans hkey.symm)
        rw [honly]
        rfl
    | none =>
      have hnokey : ∀ other ∈ news,
          itemKey context.scope other ≠ itemKey context.scope item := by
        intro other hother hkey
        simpa [hkey] using find?_eq_none.mp hfind other (hnews other hother).1
      refine pickDuplicate_eq_none.mpr ⟨?_, ?_, ?_⟩
      · intro row hrow hexact
        obtain ⟨other, hother, rfl⟩ := mem_map.mp hrow
        exact hnokey other hother
          (itemKey_eq (hnews other hother).2 (.inr ((hcell other).symm.trans hexact)))
      · intro row hrow hglobal
        obtain ⟨other, hother, rfl⟩ := mem_map.mp hrow
        apply hnokey other hother
        apply itemKey_eq (hnews other hother).2
        cases hscope : context.scope with
        | key => exact .inl rfl
        | workspace =>
          -- The one place where an earlier item of another cell would answer.
          have hbefore := (pairwise_append.mp (hcells.workspace hscope)).2.2
            other (mem_newItems (hnews other hother).1).1 item mem_cons_self
          have hempty : workspaceKey other.fragment.workspace = "" :=
            workspaceKey_eq_empty.mpr hglobal
          rcases hbefore (hnews other hother).2 hempty with hboth | hpicked
          · exact .inr (hempty.trans hboth.symm)
          · exact absurd hstored hpicked
      · intro hscope
        refine map_eq_nil_iff.mpr (eq_nil_iff_forall_not_mem.mpr ?_)
        intro other hother
        exact hnokey other hother (itemKey_eq (hnews other hother).2 (.inl hscope))

theorem newItems_concat_of_some (hstored : pickStored context table item.fragment ≠ none) :
    newItems context table (done ++ [item]) = newItems context table done := by
  have hdrop : [item].filter (fun item => (pickStored context table item.fragment).isNone) = [] :=
    by
    simpa using hstored
  rw [newItems, newItems, filter_append, hdrop, append_nil]

theorem filter_new_concat (hstored : pickStored context table item.fragment = none) :
    (done ++ [item]).filter (fun item => (pickStored context table item.fragment).isNone) =
      done.filter (fun item => (pickStored context table item.fragment).isNone) ++ [item] := by
  rw [filter_append]
  simp [hstored]

/-- One call of `remember` answers as the closed form says and leaves its table. -/
theorem remember_step (hcomparable : Comparable context table (done ++ item :: rest))
    (hcells : CellsAgree context table (done ++ item :: rest))
    (hanchor : applyAnchorQuota context (singleTable context table done) item.fragment =
      .ok item.fragment) :
    ∃ created, remember sha context (singleTable context table done) item.fragment =
      .ok ⟨answerId context table (done ++ item :: rest) item, created,
        singleTable context table (done ++ [item])⟩ := by
  have hitem : item ∈ done ++ item :: rest := mem_append_right _ mem_cons_self
  have hkey : checkIdempotency context (singleTable context table done) item.fragment = none := by
    simp only [checkIdempotency, hcomparable.no_idempotencyKey item hitem]
  let row := prepareInsertRow sha context.keyId item.fragment
  have hcell : workspaceKey row.workspace = workspaceKey item.fragment.workspace :=
    workspaceKey_normalizeWorkspace _
  have hpick : pickDuplicate (sameContent (singleTable context table done) context.keyId
      row.contentHash) row.workspace context.scope = _ :=
    (pickDuplicate_congr hcell _).trans (pick_singleTable hcomparable hcells)
  have hfilter : (done ++ item :: rest).filter
      (fun item => (pickStored context table item.fragment).isNone) =
        done.filter (fun item => (pickStored context table item.fragment).isNone) ++
          (item :: rest).filter fun item => (pickStored context table item.fragment).isNone :=
    filter_append _ _
  cases hstored : pickStored context table item.fragment with
  | some existing =>
    rw [hstored] at hpick
    have hrun := runInsert_of_pick hpick
    have htable : singleTable context table (done ++ [item]) = singleTable context table done := by
      rw [singleTable, newItems_concat_of_some (by rw [hstored]; simp)]
      rfl
    have hanswer : answerId context table (done ++ item :: rest) item = existing.id := by
      simp only [answerId, hstored]
    refine ⟨false, ?_⟩
    rw [htable, hanswer]
    simp only [remember, hkey, insertDetailed, hanchor]
    rw [hrun]
    rfl
  | none =>
    have hanswer : answerId context table (done ++ item :: rest) item =
        (leader (itemKey context.scope) ((done ++ item :: rest).filter
          fun item => (pickStored context table item.fragment).isNone) item).fragment.id := by
      simp only [answerId, hstored]
    rw [hstored] at hpick
    cases hfind : (newItems context table done).find? (fun other =>
        decide (itemKey context.scope other = itemKey context.scope item)) with
    | some first =>
      have hfirst := mem_of_find?_eq_some hfind
      have hsame : itemKey context.scope first = itemKey context.scope item := by
        simpa using find?_some hfind
      have hlead : leader (itemKey context.scope) ((done ++ item :: rest).filter
          fun item => (pickStored context table item.fragment).isNone) item = first := by
        rw [hfilter, leader_append (mem_of_mem_firsts hfirst) hsame]
        exact (eq_leader hfirst hsame).symm
      have htable : singleTable context table (done ++ [item]) =
          singleTable context table done := by
        rw [singleTable, newItems, filter_new_concat hstored,
          firsts_concat_of_seen (mem_of_mem_firsts hfirst) hsame]
        rfl
      simp only [hfind, Option.map_some] at hpick
      have hrun := runInsert_of_pick hpick
      refine ⟨false, ?_⟩
      rw [htable, hanswer, hlead]
      simp only [remember, hkey, insertDetailed, hanchor]
      rw [hrun]
      rfl
    | none =>
      have hnew : ∀ other ∈ done.filter
          (fun item => (pickStored context table item.fragment).isNone),
            itemKey context.scope other ≠ itemKey context.scope item := by
        intro other hother hsame
        have hlead := leader_mem_firsts hother hsame
        have hnone := find?_eq_none.mp hfind _ hlead
        simp [key_leader] at hnone
      have hlead : leader (itemKey context.scope) ((done ++ item :: rest).filter
          fun item => (pickStored context table item.fragment).isNone) item = item := by
        have hcons : (item :: rest).filter
            (fun item => (pickStored context table item.fragment).isNone) =
              item :: rest.filter
                fun item => (pickStored context table item.fragment).isNone := by
          simp [hstored]
        rw [hfilter, hcons]
        exact leader_concat_self hnew _
      have htable : singleTable context table (done ++ [item]) =
          singleTable context table done ++ [row] := by
        rw [singleTable, newItems, filter_new_concat hstored, firsts_concat_of_new hnew,
          map_append, <- append_assoc]
        rfl
      simp only [hfind, Option.map_none] at hpick
      obtain ⟨created, hrun⟩ := runInsert_of_none (rfl : row.keyId = context.keyId)
        (normalWorkspace_normalizeWorkspace _) hpick
      refine ⟨created, ?_⟩
      rw [htable, hanswer, hlead]
      simp only [remember, hkey, insertDetailed, hanchor]
      rw [show prepareInsertRow sha context.keyId item.fragment = row from rfl, hrun]
      rfl

theorem rememberAll_from (hcomparable : Comparable context table items)
    (hcells : CellsAgree context table items)
    (hanchors : ∀ done item rest, items = done ++ item :: rest ->
      applyAnchorQuota context (singleTable context table done) item.fragment =
        .ok item.fragment) (hsplit : items = done ++ rest) :
    rememberAll sha context (singleTable context table done) (rest.map Item.fragment) =
      (rest.map fun item => some (answerId context table items item),
        singleTable context table items) := by
  induction rest generalizing done with
  | nil =>
    rw [append_nil] at hsplit
    rw [hsplit]
    rfl
  | cons item rest ih =>
    have hanchor := hanchors done item rest hsplit
    subst hsplit
    obtain ⟨created, hstep⟩ := remember_step hcomparable hcells hanchor
    have hmore : rememberAll sha context (singleTable context table (done ++ [item]))
        (rest.map Item.fragment) = _ := ih (by simp)
    simp only [map_cons, rememberAll, hstep, hmore]

end AnchorMind.Write.SingleWrites
