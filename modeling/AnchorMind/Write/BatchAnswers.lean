import AnchorMind.Write.BatchInsert

/-!
# What a batch answers and what it leaves

Folding keeps the first item of each fold key and gathers the importance and the
anchor mark of the others into it.  When the rows that are sent fit the table, the
batch succeeds; every item is then answered with the stored row the lookup found,
or with the row in which the first item of its fold key ended.
-/

namespace AnchorMind.Write.BatchAnswers

open Kernel.UniqueIndex Kernel.FirstOf Write.Fragments Write.DedupScope Write.BatchInsert List

variable {hash : ContentHash}

def itemKey (scope : Scope) (item : Item hash) : Option String := foldKey item.fragment scope

theorem itemKey_ne_none (scope : Scope) (item : Item hash) : itemKey scope item ≠ none := by
  cases scope <;> simp [itemKey, foldKey, item.fragment.contentHash_ne_empty]

def gather (scope : Scope) (items : List (Item hash)) (first : Item hash) : Item hash :=
  ((items.filter fun item => itemKey scope item = itemKey scope first).drop 1).foldl
    absorbItem first

theorem foldl_absorbItem {Value : Type*} (read : Item hash -> Value)
    (hread : ∀ primary item, read (absorbItem primary item) = read primary)
    (items : List (Item hash)) (first : Item hash) :
    read (items.foldl absorbItem first) = read first := by
  induction items generalizing first with
  | nil => rfl
  | cons item rest ih => rw [foldl_cons, ih, hread]

section

variable (scope : Scope) (items : List (Item hash)) (first : Item hash)

@[simp] theorem gather_index : (gather scope items first).index = first.index :=
  foldl_absorbItem Item.index (fun _ _ => rfl) _ first

@[simp] theorem itemKey_gather (other : Scope) :
    itemKey other (gather scope items first) = itemKey other first :=
  foldl_absorbItem (itemKey other) (fun _ _ => by cases other <;> rfl) _ first

end

/-- A row without the two columns a conflict merges. -/
def bare (row : Row) : Row := { row with importance := defaultImportance, isAnchor := false }

@[simp] theorem bare_mergeRow (old excluded : Row) : bare (mergeRow old excluded) = bare old := rfl

theorem indexEntry_of_bare {left right : Row} (hbare : bare left = bare right) (name : IndexName) :
    indexEntry name left = indexEntry name right := by
  have hself (row : Row) : indexEntry name (bare row) = indexEntry name row := by cases name <;> rfl
  rw [<- hself left, <- hself right, hbare]

@[simp] theorem bare_rowBinding_gather (keyId : Option String) (scope : Scope)
    (items : List (Item hash)) (first : Item hash) :
    bare (rowBinding keyId (gather scope items first).fragment) =
      bare (rowBinding keyId first.fragment) :=
  foldl_absorbItem (fun item => bare (rowBinding keyId item.fragment)) (fun _ _ => rfl) _ first

section

variable (scope : Scope)

theorem collapseStep_cases (state : Collapsed hash) (item : Item hash) :
    (∃ primary,
        state.unique.find? (fun primary => itemKey scope primary = itemKey scope item) =
          some primary /\
        collapseStep scope state item =
          { unique := state.unique.map fun other =>
              if itemKey scope other = itemKey scope item then absorbItem other item else other
            aliases := state.aliases ++ [(item.index, primary.index)] }) \/
      (state.unique.find? (fun primary => itemKey scope primary = itemKey scope item) = none /\
        collapseStep scope state item = { state with unique := state.unique ++ [item] }) := by
  have hkey : ∃ key, itemKey scope item = some key :=
    Option.ne_none_iff_exists'.mp (itemKey_ne_none scope item)
  obtain ⟨key, hkey⟩ := hkey
  have hfold : foldKey item.fragment scope = some key := hkey
  rw [hkey]
  simp only [collapseStep, hfold, itemKey]
  cases hfind : state.unique.find? (fun primary =>
      decide (foldKey primary.fragment scope = some key)) with
  | none => exact Or.inr ⟨hfind, rfl⟩
  | some primary => exact Or.inl ⟨primary, hfind, rfl⟩

theorem collapse_concat (items : List (Item hash)) (last : Item hash) :
    collapseHashDuplicates (items ++ [last]) scope =
      collapseStep scope (collapseHashDuplicates items scope) last := by
  simp [collapseHashDuplicates, foldl_append]

theorem unique_collapseStep (state : Collapsed hash) (item : Item hash) :
    (collapseStep scope state item).unique =
      mergeStep (itemKey scope) absorbItem state.unique item := by
  rw [mergeStep]
  rcases collapseStep_cases scope state item with ⟨primary, hfind, hstep⟩ | ⟨hfind, hstep⟩
  · have hkey : itemKey scope primary = itemKey scope item := by simpa using find?_some hfind
    rw [hstep, if_pos ⟨primary, mem_of_find?_eq_some hfind, hkey⟩]
  · have hnone : Not (∃ primary ∈ state.unique,
        itemKey scope primary = itemKey scope item) := by simpa using hfind
    rw [hstep, if_neg hnone]

theorem collapse_unique (items : List (Item hash)) :
    (collapseHashDuplicates items scope).unique =
      (firsts (itemKey scope) items).map (gather scope items) := by
  have hfold : (collapseHashDuplicates items scope).unique =
      items.foldl (mergeStep (itemKey scope) absorbItem) [] := by
    induction items using reverseRecOn with
    | nil => rfl
    | append_singleton items last ih =>
      rw [collapse_concat, unique_collapseStep, ih, foldl_append]
      rfl
  rw [hfold]
  exact foldl_mergeStep (fun _ _ => by cases scope <;> rfl) items

theorem collapse_aliases (items : List (Item hash)) :
    (∀ item ∈ items, item ∈ firsts (itemKey scope) items \/
        (item.index, (leader (itemKey scope) items item).index) ∈
          (collapseHashDuplicates items scope).aliases) /\
      ((collapseHashDuplicates items scope).aliases.map Prod.fst ++
        (firsts (itemKey scope) items).map Item.index).Perm (items.map Item.index) /\
      ∀ link ∈ (collapseHashDuplicates items scope).aliases,
        ∃ first ∈ firsts (itemKey scope) items, link.2 = first.index := by
  induction items using reverseRecOn with
  | nil => exact ⟨by simp, by simp [collapseHashDuplicates], by simp [collapseHashDuplicates]⟩
  | append_singleton items last ih =>
    obtain ⟨hall, hperm, hfirst⟩ := ih
    rw [collapse_concat]
    rcases collapseStep_cases scope (collapseHashDuplicates items scope) last with
      ⟨primary, hfind, hstep⟩ | ⟨hfind, hstep⟩
    · rw [collapse_unique] at hfind
      obtain ⟨first, hmem, rfl⟩ := mem_map.mp (mem_of_find?_eq_some hfind)
      have hkey : itemKey scope first = itemKey scope last := by simpa using find?_some hfind
      have hseen := mem_of_mem_firsts hmem
      have hlead : first = leader (itemKey scope) (items ++ [last]) last := by
        rw [leader_append hseen hkey]
        exact eq_leader hmem hkey
      rw [hstep, firsts_concat_of_seen hseen hkey]
      refine ⟨?_, ?_, ?_⟩
      · intro item hitem
        rcases mem_append.mp hitem with hold | hlast
        · rw [leader_append hold rfl]
          exact (hall item hold).imp_right fun hlink => mem_append_left _ hlink
        · rw [mem_singleton.mp hlast, <- hlead]
          exact .inr (by simp)
      · simp only [map_append, map_cons, map_nil, append_assoc]
        refine Perm.trans ?_ (hperm.append_right _)
        rw [append_assoc]
        exact (perm_append_comm).append_left _
      · intro link hlink
        rcases mem_append.mp hlink with hold | hnew
        · exact hfirst link hold
        · rw [mem_singleton.mp hnew]
          exact ⟨first, hmem, by simp⟩
    · have hnew : ∀ item ∈ items, itemKey scope item ≠ itemKey scope last := by
        intro item hitem hkey
        have hlead := leader_mem_firsts hitem (rfl : itemKey scope item = itemKey scope item)
        have hnone := find?_eq_none.mp hfind
          (gather scope items (leader (itemKey scope) items item))
          (by rw [collapse_unique]; exact mem_map.mpr ⟨_, hlead, rfl⟩)
        simp [key_leader, hkey] at hnone
      rw [hstep, firsts_concat_of_new hnew]
      refine ⟨?_, ?_, ?_⟩
      · intro item hitem
        rcases mem_append.mp hitem with hold | hlast
        · rw [leader_append hold rfl]
          exact (hall item hold).imp_left fun h => mem_append_left _ h
        · exact .inl (mem_append_right _ hlast)
      · rw [map_append, map_append, <- append_assoc]
        exact hperm.append_right _
      · intro link hlink
        obtain ⟨first, hmem, hindex⟩ := hfirst link hlink
        exact ⟨first, mem_append_left _ hmem, hindex⟩

end

variable {results : Results} {index : Nat}

@[simp] theorem setId_same (id : Option String) : (results.setId index id index).id = id := by
  simp [Results.setId]

theorem setId_other {other : Nat} (id : Option String) (hne : other ≠ index) :
    results.setId index id other = results other := by
  simp [Results.setId, hne]

variable {items : List (Item hash)}

theorem assignIds_other {rows : List Row} (hnot : index ∉ items.map Item.index) :
    assignIds results items rows index = results index := by
  induction items generalizing results rows with
  | nil => rfl
  | cons item rest ih =>
    rw [map_cons, mem_cons, not_or] at hnot
    cases rows <;> rw [assignIds, ih hnot.2, setId_other _ hnot.1]

theorem assignIds_of_mem {answer : Item hash -> Row} {item : Item hash}
    (hnodup : (items.map Item.index).Nodup) (hitem : item ∈ items) :
    (assignIds results items (items.map answer) item.index).id = some (answer item).id := by
  induction items generalizing results with
  | nil => cases hitem
  | cons first rest ih =>
    rw [map_cons, nodup_cons] at hnodup
    rw [map_cons, assignIds]
    rcases mem_cons.mp hitem with rfl | hrest
    · rw [assignIds_other hnodup.1, setId_same]
    · exact ih hnodup.2 hrest

variable {links : List (Nat × Nat)}

theorem assignAliases_other (hnot : index ∉ links.map Prod.fst) :
    assignAliases results links index = results index := by
  induction links generalizing results with
  | nil => rfl
  | cons link rest ih =>
    rw [map_cons, mem_cons, not_or] at hnot
    exact (ih hnot.2).trans (setId_other _ hnot.1)

theorem assignAliases_of_mem {link : Nat × Nat} (hnodup : (links.map Prod.fst).Nodup)
    (htargets : ∀ link ∈ links, link.2 ∉ links.map Prod.fst) (hlink : link ∈ links) :
    (assignAliases results links link.1).id = (results link.2).id := by
  induction links generalizing results with
  | nil => cases hlink
  | cons first rest ih =>
    rw [map_cons, nodup_cons] at hnodup
    have htarget := htargets link hlink
    rw [map_cons, mem_cons, not_or] at htarget
    change (assignAliases (results.setId first.1 (results first.2).id) rest link.1).id = _
    rcases mem_cons.mp hlink with rfl | hrest
    · rw [assignAliases_other hnodup.1, setId_same]
    · have hrestTargets : ∀ link ∈ rest, link.2 ∉ rest.map Prod.fst := by
        intro other hother hmem
        exact htargets other (mem_cons_of_mem _ hother) (mem_cons_of_mem _ hmem)
      rw [ih hnodup.2 hrestTargets hrest, setId_other _ htarget.1]

variable {hits : List (Nat × String)}

theorem assignHits_other (hnot : index ∉ hits.map Prod.fst) :
    assignHits results hits index = results index := by
  induction hits generalizing results with
  | nil => rfl
  | cons hit rest ih =>
    rw [map_cons, mem_cons, not_or] at hnot
    exact (ih hnot.2).trans (setId_other _ hnot.1)

theorem assignHits_of_mem {hit : Nat × String} (hnodup : (hits.map Prod.fst).Nodup)
    (hhit : hit ∈ hits) : (assignHits results hits hit.1).id = some hit.2 := by
  induction hits generalizing results with
  | nil => cases hhit
  | cons first rest ih =>
    rw [map_cons, nodup_cons] at hnodup
    change (assignHits (results.setId first.1 (some first.2)) rest hit.1).id = _
    rcases mem_cons.mp hhit with rfl | hrest
    · rw [assignHits_other hnodup.1, setId_same]
    · exact ih hnodup.2 hrest

def sameContent (table : List Row) (keyId : Option String) (text : String) : List Row :=
  table.filter fun row => decide (row.keyId = keyId) && decide (row.contentHash = text)

variable {keyId : Option String}

theorem mem_sameContent {table : List Row} {text : String} {row : Row} :
    row ∈ sameContent table keyId text <->
      row ∈ table /\ row.keyId = keyId /\ row.contentHash = text := by
  simp [sameContent]

theorem findContentHashMatches_filter {table : List Row} {hashes : List String} {text : String}
    (htext : text ∈ hashes) :
    (findContentHashMatches table keyId hashes none).filter (fun row => row.contentHash = text) =
      sameContent table keyId text := by
  rw [findContentHashMatches, sameContent, filter_filter]
  apply filter_congr
  intro row _
  rcases Classical.em (row.contentHash = text) with hsame | hother
  · simp [hsame, htext]
  · simp [hother]

def storedHit (context : WriteContext) (table : List Row) (fragment : Fragment hash) :
    Option Row :=
  if lookupRequired context.indexes context.keyId then
    (pickDuplicate (sameContent table context.keyId fragment.contentHash) fragment.workspace
      context.scope).filter fun pick =>
        decide (context.arbiter = none) ||
          decide (workspaceKey pick.workspace ≠ workspaceKey fragment.workspace)
  else none

theorem map_fst_filterMap (answer : Item hash -> Option Row) (items : List (Item hash)) :
    (items.filterMap fun item => (answer item).map fun row => (item.index, row.id)).map Prod.fst =
      (items.filter fun item => (answer item).isSome).map Item.index := by
  induction items with
  | nil => rfl
  | cons item rest ih =>
    cases hanswer : answer item with
    | none => simp [hanswer, ih]
    | some row => simp [hanswer, ih]

def leftItems (context : WriteContext) (table : List Row) (items : List (Item hash)) :
    List (Item hash) :=
  items.filter fun item => (storedHit context table item.fragment).isNone

theorem resolveDuplicates_eq (context : WriteContext) (table : List Row)
    (items : List (Item hash)) :
    resolveDuplicates context table items =
      (items.filterMap fun item =>
          (storedHit context table item.fragment).map fun row => (item.index, row.id),
        leftItems context table items) := by
  unfold resolveDuplicates leftItems
  split
  · rename_i hrequired
    let hashes := (items.map fun item => item.fragment.contentHash).filter
      fun text => decide (text ≠ "")
    have hsame : ∀ item ∈ items,
        lookupHit (findContentHashMatches table context.keyId hashes none) context.scope
          context.arbiter item.fragment = storedHit context table item.fragment := by
      intro item hitem
      have hmem : item.fragment.contentHash ∈ hashes := by
        refine mem_filter.mpr ⟨mem_map.mpr ⟨item, hitem, rfl⟩, ?_⟩
        simpa using item.fragment.contentHash_ne_empty
      simp only [lookupHit, storedHit, hrequired, if_true, findContentHashMatches_filter hmem]
    simp only [splitLookupHits]
    congr 1
    · apply filterMap_congr
      intro item hitem
      rw [hsame item hitem]
    · apply filter_congr
      intro item hitem
      rw [hsame item hitem]
  · rename_i hrequired
    have hnone : ∀ item : Item hash, storedHit context table item.fragment = none := by
      intro item
      rw [storedHit, if_neg hrequired]
    simp [hnone]

section

variable (context : WriteContext) (table : List Row) (items : List (Item hash))

def sentItem (first : Item hash) : Item hash :=
  gather context.scope (leftItems context table items) first

def sentRows : List Row :=
  (firsts (itemKey context.scope) (leftItems context table items)).map fun first =>
    rowBinding context.keyId (sentItem context table items first).fragment

def answerRow (item : Item hash) : Row :=
  match storedHit context table item.fragment with
  | some row => row
  | none => context.upsert.target table (rowBinding context.keyId
      (sentItem context table items
        (leader (itemKey context.scope) (leftItems context table items) item)).fragment)

theorem insertChunks_flatten (unique : List (Item hash)) :
    ((chunkFragments unique).map fun chunk =>
        chunk.map fun item => rowBinding context.keyId item.fragment).flatten =
      unique.map fun item => rowBinding context.keyId item.fragment := by
  rw [<- map_flatten, chunkFragments_flatten]

theorem collapse_rows :
    ((collapseHashDuplicates (leftItems context table items) context.scope).unique.map
        fun item => rowBinding context.keyId item.fragment) = sentRows context table items := by
  rw [collapse_unique, map_map]
  rfl

variable {context table items}

theorem insertAccepted_ok (hindexes : (items.map Item.index).Nodup)
    (hfits : context.upsert.Fits table (sentRows context table items)) (results : Results) :
    ∃ outcome, insertAccepted context table items results = .ok outcome /\
      outcome.table = context.upsert.settled table (sentRows context table items) /\
      ∀ item ∈ items,
        (outcome.results item.index).id = some (answerRow context table items item).id := by
  let rest := leftItems context table items
  let collapsed := collapseHashDuplicates rest context.scope
  let answer := fun item : Item hash =>
    context.upsert.target table (rowBinding context.keyId item.fragment)
  have hrun : insertChunks context table collapsed.unique =
      .ok (collapsed.unique.map answer,
        context.upsert.settled table (sentRows context table items)) := by
    have hflat := (insertChunks_flatten context collapsed.unique).trans
      (collapse_rows context table items)
    rw [insertChunks, Upsert.statements_ok (hflat.symm ▸ hfits), hflat]
    rw [<- collapse_rows, map_map]
    rfl
  obtain ⟨hcover, hperm, hpoint⟩ := collapse_aliases context.scope rest
  have hrestNodup : (rest.map Item.index).Nodup :=
    hindexes.sublist (filter_sublist.map _)
  have hplaces := hperm.nodup_iff.mpr hrestNodup
  obtain ⟨haliasNodup, hfirstNodup, hdisjoint⟩ := nodup_append.mp hplaces
  have huniqueIndexes : collapsed.unique.map Item.index =
      (firsts (itemKey context.scope) rest).map Item.index := by
    rw [collapse_unique, map_map]
    apply map_congr_left
    intro first _
    exact gather_index context.scope rest first
  have haliasFirst : ∀ index ∈ collapsed.aliases.map Prod.fst,
      index ∉ collapsed.unique.map Item.index := by
    intro index halias hfirst
    rw [huniqueIndexes] at hfirst
    exact hdisjoint index halias index hfirst rfl
  have htargets : ∀ link ∈ collapsed.aliases,
      link.2 ∉ collapsed.aliases.map Prod.fst := by
    intro link hlink halias
    obtain ⟨first, hfirst, hindex⟩ := hpoint link hlink
    exact hdisjoint _ halias _ (mem_map.mpr ⟨first, hfirst, rfl⟩) hindex
  have hfirst : ∀ first ∈ firsts (itemKey context.scope) rest,
      (assignIds results collapsed.unique (collapsed.unique.map answer) first.index).id =
        some (answer (sentItem context table items first)).id := by
    intro first hmem
    have hsent : sentItem context table items first ∈ collapsed.unique := by
      rw [collapse_unique]
      exact mem_map.mpr ⟨first, hmem, rfl⟩
    have hassigned : (assignIds results collapsed.unique (collapsed.unique.map answer)
        (sentItem context table items first).index).id =
          some (answer (sentItem context table items first)).id :=
      assignIds_of_mem (huniqueIndexes.symm ▸ hfirstNodup) hsent
    rwa [sentItem, gather_index] at hassigned
  refine ⟨{
    results := assignHits (assignAliases
      (assignIds results collapsed.unique (collapsed.unique.map answer)) collapsed.aliases)
      (resolveDuplicates context table items).1
    table := context.upsert.settled table (sentRows context table items) }, ?_, rfl, ?_⟩
  · have hresolved : (resolveDuplicates context table items).2 = rest := by
      rw [resolveDuplicates_eq]
    unfold insertAccepted
    simp only [hresolved, hrun, collapsed]
  · intro item hitem
    have hhits : (resolveDuplicates context table items).1.map Prod.fst =
        (items.filter fun item => (storedHit context table item.fragment).isSome).map
          Item.index := by
      rw [resolveDuplicates_eq]
      exact map_fst_filterMap _ items
    have hhitNodup : ((resolveDuplicates context table items).1.map Prod.fst).Nodup := by
      rw [hhits]
      exact hindexes.sublist (filter_sublist.map _)
    cases hstored : storedHit context table item.fragment with
    | some row =>
      have hhit : (item.index, row.id) ∈ (resolveDuplicates context table items).1 := by
        rw [resolveDuplicates_eq]
        exact mem_filterMap.mpr ⟨item, hitem, by rw [hstored]; rfl⟩
      have hanswer : answerRow context table items item = row := by simp only [answerRow, hstored]
      rw [hanswer]
      exact assignHits_of_mem hhitNodup hhit
    | none =>
      have hrest : item ∈ rest := mem_filter.mpr ⟨hitem, by rw [hstored]; rfl⟩
      have hnothit : item.index ∉ (resolveDuplicates context table items).1.map Prod.fst := by
        rw [hhits]
        intro hmem
        obtain ⟨other, hother, hindex⟩ := mem_map.mp hmem
        obtain ⟨hother, hsome⟩ := mem_filter.mp hother
        have hsame : other = item := inj_on_of_nodup_map hindexes hother hitem hindex
        rw [hsame, hstored] at hsome
        cases hsome
      have hanswer : answerRow context table items item =
          answer (sentItem context table items
            (leader (itemKey context.scope) rest item)) := by
        simp only [answerRow, hstored]
        rfl
      dsimp only
      rw [assignHits_other hnothit, hanswer]
      rcases hcover item hrest with hlead | halias
      · have hself : item = leader (itemKey context.scope) rest item := eq_leader hlead rfl
        have hnotalias : item.index ∉ collapsed.aliases.map Prod.fst := by
          intro halias
          refine haliasFirst _ halias ?_
          rw [huniqueIndexes]
          exact mem_map.mpr ⟨item, hlead, rfl⟩
        rw [assignAliases_other hnotalias, <- hself]
        exact hfirst item hlead
      · refine (assignAliases_of_mem haliasNodup htargets halias).trans ?_
        exact hfirst _ (leader_mem_firsts hrest rfl)

end

end AnchorMind.Write.BatchAnswers
