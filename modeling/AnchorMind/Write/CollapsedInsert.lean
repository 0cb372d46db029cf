import AnchorMind.Kernel.OneByOne
import AnchorMind.Write.BatchDedup

/-!
# Folding a batch against inserting its items one by one

Items with one fold key are folded into the first of them before the insert.  Here rows
carry every column the insert binds, and `accessed_at`, which only a conflict sets.  The
fold leaves what inserting the items in order leaves, in all columns but that one, as long
as items that are folded together would have met in the index that arbitrates.
-/

namespace AnchorMind.Write.CollapsedInsert

open Kernel.FirstOf Kernel.OneByOne Kernel.UniqueIndex List
open Write.BatchInsert (WriteContext)
open Write.DedupScope Write.Fragments

variable {hash : ContentHash}

/-- The fields of a prepared fragment that neither the fold nor an index reads. -/
structure OtherFields where
  topic : String
  keywords : List String
  source : Option String
  linkedTo : List String
  ttlTier : Option String
  estimatedTokens : Nat
  validFrom : String
  contextSummary : Option String
  sessionId : Option String
  caseId : Option String
  goal : Option String
  outcome : Option String
  phase : Option String
  resolutionStatus : Option String
  assertionStatus : Option String
  origin : Option String
  observedClient : Option String
  trustTier : Option Int
  reviewState : Option String
  reviewReason : Option String
  mentionTime : Option String
  eventTime : Option String
  eventTimeEnd : Option String
  eventTimePrecision : Option String
  deriving DecidableEq

structure PreparedItem (hash : ContentHash) extends Item hash where
  other : OtherFields

structure OtherColumns where
  topic : String
  keywords : List String
  source : Option String
  linkedTo : List String
  agentId : String
  ttlTier : String
  estimatedTokens : Nat
  validFrom : String
  contextSummary : Option String
  sessionId : Option String
  caseId : Option String
  goal : Option String
  outcome : Option String
  phase : Option String
  resolutionStatus : Option String
  assertionStatus : String
  origin : Option String
  observedClient : Option String
  trustTier : Option Int
  reviewState : Option String
  reviewReason : Option String
  mentionTime : Option String
  eventTime : Option String
  eventTimeEnd : Option String
  eventTimePrecision : Option String
  contentTokens : Option String
  deriving DecidableEq

/-- A row of a batch insert.  `accessed_at` is not bound and has no default. -/
structure BatchRow extends Row where
  other : OtherColumns
  accessedAt : Option Nat
  deriving DecidableEq

structure Binding where
  agentId : String
  countTokens : String -> Nat
  contentTokens : String -> Option String

/-- `value || null` -/
def orNull (value : Option String) : Option String := value.filter fun text => decide (text ≠ "")

/-- `value || fallback` -/
def orText (value : Option String) (fallback : String) : String := (orNull value).getD fallback

def tierOrNull (tier : Option Int) : Option Int :=
  tier.filter fun value => decide (0 ≤ value ∧ value ≤ 3)

def fragmentTokens (binding : Binding) (content : String) (estimated : Nat) : Nat :=
  if estimated = 0 then binding.countTokens content else estimated

def rowBinding (binding : Binding) (keyId : Option String) (item : PreparedItem hash) :
    BatchRow where
  toRow := BatchInsert.rowBinding keyId item.fragment
  other :=
    { topic := item.other.topic
      keywords := item.other.keywords
      source := orNull item.other.source
      linkedTo := item.other.linkedTo
      agentId := binding.agentId
      ttlTier := orText item.other.ttlTier "warm"
      estimatedTokens := fragmentTokens binding item.fragment.content item.other.estimatedTokens
      validFrom := item.other.validFrom
      contextSummary := orNull item.other.contextSummary
      sessionId := orNull item.other.sessionId
      caseId := orNull item.other.caseId
      goal := orNull item.other.goal
      outcome := orNull item.other.outcome
      phase := orNull item.other.phase
      resolutionStatus := orNull item.other.resolutionStatus
      assertionStatus := orText item.other.assertionStatus "observed"
      origin := item.other.origin
      observedClient := item.other.observedClient
      trustTier := tierOrNull item.other.trustTier
      reviewState := item.other.reviewState
      reviewReason := item.other.reviewReason
      mentionTime := item.other.mentionTime
      eventTime := item.other.eventTime
      eventTimeEnd := item.other.eventTimeEnd
      eventTimePrecision := item.other.eventTimePrecision
      contentTokens := binding.contentTokens item.fragment.content }
  accessedAt := none

/-- The conflict clause: the greater importance, either anchor mark, and `NOW()`. -/
def mergeRow (now : Nat) (old excluded : BatchRow) : BatchRow :=
  { old with toRow := BatchInsert.mergeRow old.toRow excluded.toRow, accessedAt := some now }

theorem indexEntry_merged (name : IndexName) (old excluded : BatchRow) :
    indexEntry name (BatchInsert.mergeRow old.toRow excluded.toRow) = indexEntry name old.toRow :=
  BatchInsert.indexEntry_mergeRow name old.toRow excluded.toRow

/-- The fragments table as one transaction at `now` sees it. -/
def upsert (context : WriteContext) (now : Nat) : Upsert IndexName BatchRow Entry where
  index name row := indexEntry name row.toRow
  enforced := IndexName.all.filter context.indexes.existing
  arbiter := context.arbiter
  merge := mergeRow now
  arbiter_enforced := context.arbiter_enforced
  index_merge := indexEntry_merged

/-- The first item keeps its fields but the two that are merged. -/
def absorbItem (primary item : PreparedItem hash) : PreparedItem hash :=
  { primary with toItem := BatchInsert.absorbItem primary.toItem item.toItem }

structure Collapsed (hash : ContentHash) where
  unique : List (PreparedItem hash)
  aliases : List (Nat × Nat)

def itemKey (scope : Scope) (item : PreparedItem hash) : Option String :=
  foldKey item.fragment scope

def collapseStep (scope : Scope) (state : Collapsed hash) (item : PreparedItem hash) :
    Collapsed hash :=
  match itemKey scope item with
  | none => { state with unique := state.unique ++ [item] }
  | some key =>
    match state.unique.find? (fun primary => itemKey scope primary = some key) with
    | none => { state with unique := state.unique ++ [item] }
    | some primary =>
      { unique := state.unique.map fun other =>
          if itemKey scope other = some key then absorbItem other item else other
        aliases := state.aliases ++ [(item.index, primary.index)] }

def collapseHashDuplicates (items : List (PreparedItem hash)) (scope : Scope) : Collapsed hash :=
  items.foldl (collapseStep scope) ⟨[], []⟩

section

variable (binding : Binding) (context : WriteContext) (now : Nat) (table : List BatchRow)

def bindRow (item : PreparedItem hash) : BatchRow := rowBinding binding context.keyId item

def insertStatements (chunks : List (List (PreparedItem hash))) : Option (List BatchRow) :=
  (Upsert.statements (upsert context now) table
    (chunks.map fun chunk => chunk.map (bindRow binding context))).toOption.map Prod.snd

def insertOneByOne (items : List (PreparedItem hash)) : Option (List BatchRow) :=
  insertStatements binding context now table (items.map fun item => [item])

end

def withoutAccess (row : BatchRow) : BatchRow := { row with accessedAt := none }

def FoldsWithArbiter (binding : Binding) (context : WriteContext)
    (items : List (PreparedItem hash)) : Prop :=
  ∃ name, context.arbiter = some name /\
    ∀ left ∈ items, ∀ right ∈ items,
      itemKey context.scope left = itemKey context.scope right ->
        indexEntry name (bindRow binding context left).toRow =
          indexEntry name (bindRow binding context right).toRow

section

variable (scope : Scope)

theorem itemKey_ne_none (item : PreparedItem hash) : itemKey scope item ≠ none :=
  BatchAnswers.itemKey_ne_none scope item.toItem

@[simp] theorem itemKey_absorbItem (primary item : PreparedItem hash) :
    itemKey scope (absorbItem primary item) = itemKey scope primary := by
  cases scope <;> rfl

theorem collapse_concat (items : List (PreparedItem hash)) (last : PreparedItem hash) :
    collapseHashDuplicates (items ++ [last]) scope =
      collapseStep scope (collapseHashDuplicates items scope) last := by
  simp [collapseHashDuplicates, foldl_append]

theorem unique_collapseStep (state : Collapsed hash) (item : PreparedItem hash) :
    (collapseStep scope state item).unique =
      mergeStep (itemKey scope) absorbItem state.unique item := by
  obtain ⟨key, hkey⟩ := Option.ne_none_iff_exists'.mp (itemKey_ne_none scope item)
  rw [collapseStep, mergeStep, hkey]
  cases hfind : state.unique.find? (fun primary =>
      decide (itemKey scope primary = some key)) with
  | none =>
    have hnone : Not (∃ primary ∈ state.unique,
        itemKey scope primary = some key) := by
      simpa using hfind
    simp only [if_neg hnone, hfind]
  | some primary =>
    have hsome : ∃ primary ∈ state.unique,
        itemKey scope primary = some key :=
      ⟨primary, mem_of_find?_eq_some hfind, by simpa using find?_some hfind⟩
    simp only [if_pos hsome, hfind]

theorem collapse_unique (items : List (PreparedItem hash)) :
    (collapseHashDuplicates items scope).unique =
      (firsts (itemKey scope) items).map (gathered (itemKey scope) absorbItem items) := by
  have hfold : (collapseHashDuplicates items scope).unique =
      items.foldl (mergeStep (itemKey scope) absorbItem) [] := by
    induction items using reverseRecOn with
    | nil => rfl
    | append_singleton items last ih =>
      rw [collapse_concat, unique_collapseStep, ih, foldl_append]
      rfl
  rw [hfold, foldl_mergeStep (itemKey_absorbItem scope)]

theorem unique_pairwise (items : List (PreparedItem hash)) :
    (collapseHashDuplicates items scope).unique.Pairwise fun left right =>
      itemKey scope left ≠ itemKey scope right := by
  rw [collapse_unique, pairwise_map]
  refine (firsts_pairwise items).imp ?_
  intro left right hne
  rwa [key_gathered (itemKey_absorbItem scope), key_gathered (itemKey_absorbItem scope)]

theorem map_absorb_split {unique : List (PreparedItem hash)} {last : PreparedItem hash}
    (hpair : unique.Pairwise fun left right => itemKey scope left ≠ itemKey scope right)
    (hmet : ∃ primary ∈ unique, itemKey scope primary = itemKey scope last) :
    ∃ front primary back, unique = front ++ primary :: back /\
      itemKey scope primary = itemKey scope last /\
      (∀ other ∈ back, itemKey scope other ≠ itemKey scope last) /\
      (unique.map fun other =>
          if itemKey scope other = itemKey scope last then absorbItem other last else other) =
        front ++ absorbItem primary last :: back := by
  obtain ⟨primary, hmem, hkey⟩ := hmet
  obtain ⟨front, back, rfl⟩ := append_of_mem hmem
  obtain ⟨-, hback, hcross⟩ := pairwise_append.mp hpair
  have hafter : ∀ other ∈ back, itemKey scope other ≠ itemKey scope last := by
    intro other hother hsame
    exact (pairwise_cons.mp hback).1 other hother (hkey.trans hsame.symm)
  have hbefore : ∀ other ∈ front, itemKey scope other ≠ itemKey scope last := by
    intro other hother hsame
    exact hcross other hother primary mem_cons_self (hsame.trans hkey.symm)
  have hsame : ∀ part : List (PreparedItem hash),
      (∀ other ∈ part, itemKey scope other ≠ itemKey scope last) ->
        (part.map fun other =>
          if itemKey scope other = itemKey scope last then absorbItem other last else other) =
            part := by
    intro part hpart
    refine (map_congr_left ?_).trans (map_id part)
    intro other hother
    rw [if_neg (hpart other hother), id]
  refine ⟨front, primary, back, rfl, hkey, hafter, ?_⟩
  rw [map_append, map_cons, hsame front hbefore, hsame back hafter, if_pos hkey]

end

theorem entry_unique (binding : Binding) (context : WriteContext) (scope : Scope)
    (items : List (PreparedItem hash)) {kept : PreparedItem hash}
    (hkept : kept ∈ (collapseHashDuplicates items scope).unique) :
    ∃ first ∈ items, itemKey scope first = itemKey scope kept /\
      ∀ name, indexEntry name (bindRow binding context kept).toRow =
        indexEntry name (bindRow binding context first).toRow := by
  rw [collapse_unique] at hkept
  obtain ⟨first, hfirst, rfl⟩ := mem_map.mp hkept
  refine ⟨first, mem_of_mem_firsts hfirst,
    (key_gathered (itemKey_absorbItem scope) items first).symm, ?_⟩
  intro name
  exact @key_foldl_absorb _ _ (fun item => indexEntry name (bindRow binding context item).toRow)
    absorbItem (fun _ _ => by cases name <;> rfl) _ first

section

variable (binding : Binding) (context : WriteContext)

def mergePlain (old excluded : BatchRow) : BatchRow :=
  { old with toRow := BatchInsert.mergeRow old.toRow excluded.toRow }

def plainUpsert : Upsert IndexName BatchRow Entry where
  index name row := indexEntry name row.toRow
  enforced := IndexName.all.filter context.indexes.existing
  arbiter := context.arbiter
  merge := mergePlain
  arbiter_enforced := context.arbiter_enforced
  index_merge := indexEntry_merged

theorem forgets_access (now : Nat) :
    Forgets (upsert context now) (plainUpsert context) withoutAccess where
  index _ _ := rfl
  enforced := rfl
  arbiter := rfl
  merge _ _ := rfl

theorem mergePlain_assoc (old new later : BatchRow) :
    mergePlain (mergePlain old new) later = mergePlain old (mergePlain new later) := by
  simp only [mergePlain, BatchInsert.mergeRow, max_assoc, Bool.or_assoc]

theorem bindRow_absorbItem (primary item : PreparedItem hash) :
    bindRow binding context (absorbItem primary item) =
      mergePlain (bindRow binding context primary) (bindRow binding context item) := rfl

variable {left right : PreparedItem hash}

theorem conflicts_of_entry {name : IndexName} (harbiter : context.arbiter = some name)
    (hentry : indexEntry name (bindRow binding context left).toRow =
      indexEntry name (bindRow binding context right).toRow) :
    (plainUpsert context).Conflicts (bindRow binding context left)
      (bindRow binding context right) := by
  refine ⟨name, harbiter, ?_⟩
  have hkeyId : (bindRow binding context right).toRow.keyId = context.keyId := rfl
  have hself : Clash (indexEntry name) (bindRow binding context right).toRow
      (bindRow binding context right).toRow := by
    rcases BatchDedup.arbiter_cases context with ⟨hlegacy, -⟩ | ⟨hscoped, -⟩ | ⟨hnone, -⟩
    · obtain rfl : name = legacyIndex context.keyId :=
        Option.some.inj (harbiter.symm.trans hlegacy)
      exact (clash_legacyIndex hkeyId).mpr ⟨hkeyId, rfl⟩
    · obtain rfl : name = scopedIndex context.keyId :=
        Option.some.inj (harbiter.symm.trans hscoped)
      exact (clash_scopedIndex hkeyId).mpr ⟨hkeyId, rfl, rfl⟩
    · rw [hnone] at harbiter
      cases harbiter
  exact (clash_congr hentry).mpr hself

theorem itemKey_of_conflicts
    (hmeet : (plainUpsert context).Conflicts (bindRow binding context left)
      (bindRow binding context right)) :
    itemKey context.scope left = itemKey context.scope right := by
  obtain ⟨name, harbiter, hclash⟩ := hmeet
  have harbiter : context.arbiter = some name := harbiter
  have hkeyId : (bindRow binding context right).toRow.keyId = context.keyId := rfl
  have hclash : Clash (indexEntry name) (bindRow binding context left).toRow
      (bindRow binding context right).toRow := hclash
  rcases BatchDedup.arbiter_cases context with ⟨hlegacy, hvalid⟩ | ⟨hscoped, -⟩ | ⟨hnone, -⟩
  · obtain rfl : name = legacyIndex context.keyId :=
      Option.some.inj (harbiter.symm.trans hlegacy)
    have hhash := ((clash_legacyIndex hkeyId).mp hclash).2
    rw [BatchDedup.scope_of_legacy (DedupIndexState.existing_of_valid hvalid)]
    exact (foldKey_key_eq left.fragment right.fragment).mpr hhash
  · obtain rfl : name = scopedIndex context.keyId :=
      Option.some.inj (harbiter.symm.trans hscoped)
    obtain ⟨-, hhash, hcell⟩ := (clash_scopedIndex hkeyId).mp hclash
    cases hscope : context.scope with
    | key => exact (foldKey_key_eq left.fragment right.fragment).mpr hhash
    | workspace => exact (foldKey_workspace_eq left.fragment right.fragment).mpr ⟨hcell, hhash⟩
  · rw [hnone] at harbiter
    cases harbiter

theorem insertRows_collapse (table : List BatchRow) {items : List (PreparedItem hash)}
    (hfolds : FoldsWithArbiter binding context items) :
    insertRows (plainUpsert context) table
        ((collapseHashDuplicates items context.scope).unique.map (bindRow binding context)) =
      insertRows (plainUpsert context) table (items.map (bindRow binding context)) := by
  induction items using reverseRecOn with
  | nil => rfl
  | append_singleton items last ih =>
    obtain ⟨name, harbiter, hentries⟩ := hfolds
    have hprefix : FoldsWithArbiter binding context items :=
      ⟨name, harbiter, fun left hleft right hright => hentries left
        (mem_append_left _ hleft) right (mem_append_left _ hright)⟩
    have hconcat : ∀ rows : List BatchRow, ∀ row,
        insertRows (plainUpsert context) table (rows ++ [row]) =
          (insertRows (plainUpsert context) table rows).bind fun middle =>
            insertRow (plainUpsert context) middle row := by
      intro rows row
      rw [insertRows, foldlM_append]
      cases hrows : foldlM (insertRow (plainUpsert context)) table rows with
      | none => simp [insertRows, hrows]
      | some middle => simp [insertRows, hrows]
    rw [map_append, map_cons, map_nil, hconcat, <- ih hprefix, collapse_concat,
      unique_collapseStep, mergeStep]
    split
    · rename_i hmet
      obtain ⟨front, primary, back, hsplit, hkey, hafter, hmerged⟩ :=
        map_absorb_split context.scope (unique_pairwise context.scope items) hmet
      have hmeet : (plainUpsert context).Conflicts (bindRow binding context primary)
          (bindRow binding context last) := by
        have hkept : primary ∈ (collapseHashDuplicates items context.scope).unique := by
          rw [hsplit]
          simp
        obtain ⟨first, hfirst, hsame, hentry⟩ :=
          entry_unique binding context context.scope items hkept
        refine conflicts_of_entry binding context harbiter ?_
        rw [hentry name]
        exact hentries first (mem_append_left _ hfirst) last
          (mem_append_right _ mem_cons_self) (hsame.trans hkey)
      have hmiss : ∀ row ∈ back.map (bindRow binding context),
          Not ((plainUpsert context).Conflicts row (bindRow binding context last)) := by
        intro row hrow hback
        obtain ⟨other, hother, rfl⟩ := mem_map.mp hrow
        exact hafter other hother (itemKey_of_conflicts binding context hback)
      have happend : ∀ middle, insertRows (plainUpsert context) table
            (front.map (bindRow binding context) ++ middle) =
          (insertRows (plainUpsert context) table (front.map (bindRow binding context))).bind
            fun start => insertRows (plainUpsert context) start middle :=
        fun middle => foldlM_append
      rw [hmerged, hsplit, map_append, map_append, map_cons, map_cons,
        bindRow_absorbItem, happend, happend, Option.bind_assoc]
      congr 1
      funext start
      exact (insertRows_merge mergePlain_assoc hmeet hmiss).symm
    · rw [map_append, map_cons, map_nil, hconcat]

theorem unique_apart (now : Nat) (items : List (PreparedItem hash)) :
    ((collapseHashDuplicates items context.scope).unique.map (bindRow binding context)).Pairwise
      fun left right => Not ((upsert context now).Conflicts left right) := by
  rw [pairwise_map]
  refine (unique_pairwise context.scope items).imp ?_
  intro left right hne hmeet
  exact hne (itemKey_of_conflicts binding context
    (((forgets_access context now).conflicts _ _).mpr hmeet))

theorem insertStatements_eq (now : Nat) (table : List BatchRow)
    {chunks : List (List (PreparedItem hash))}
    (hapart : ∀ chunk ∈ chunks, (chunk.map (bindRow binding context)).Pairwise
      fun left right => Not ((upsert context now).Conflicts left right)) :
    (insertStatements binding context now table chunks).map (map withoutAccess) =
      insertRows (plainUpsert context) (table.map withoutAccess)
        (chunks.flatten.map (bindRow binding context)) := by
  have hrows : ∀ chunk ∈ chunks.map (fun chunk => chunk.map (bindRow binding context)),
      chunk.Pairwise fun left right => Not ((upsert context now).Conflicts left right) := by
    intro chunk hchunk
    obtain ⟨items, hitems, rfl⟩ := mem_map.mp hchunk
    exact hapart items hitems
  have hbound : (chunks.flatten.map (bindRow binding context)).map withoutAccess =
      chunks.flatten.map (bindRow binding context) := by
    rw [map_map]
    rfl
  rw [insertStatements, statements_eq hrows, (forgets_access context now).insertRows,
    <- map_flatten, hbound]

local instance maxEqOr : Std.MaxEqOr Rat := inferInstance

def foldedRow (items : List (PreparedItem hash)) (first : PreparedItem hash) : BatchRow :=
  let others := (items.filter fun item =>
    decide (itemKey context.scope item = itemKey context.scope first)).drop 1
  let row := bindRow binding context first
  { row with
    importance := others.foldl (fun value item =>
      max value (bindRow binding context item).importance) row.importance
    isAnchor := row.isAnchor || others.any fun item => (bindRow binding context item).isAnchor }

theorem bindRow_foldl_absorb (others : List (PreparedItem hash)) (first : PreparedItem hash) :
    bindRow binding context (others.foldl absorbItem first) =
      { bindRow binding context first with
        importance := others.foldl (fun value item =>
          max value (bindRow binding context item).importance)
            (bindRow binding context first).importance
        isAnchor := (bindRow binding context first).isAnchor ||
          others.any fun item => (bindRow binding context item).isAnchor } := by
  induction others generalizing first with
  | nil => simp
  | cons item rest ih =>
    rw [foldl_cons, ih, bindRow_absorbItem]
    simp only [mergePlain, BatchInsert.mergeRow, foldl_cons, any_cons, Bool.or_assoc]

/-- Where folded items meet in the arbiter, folding and inserting once leaves what
inserting the items one after another leaves, the time of access aside: the row of the
first item with the greatest importance and any anchor mark. -/
theorem collapsed_insert_eq_sequential (now : Nat) (table : List BatchRow)
    {items : List (PreparedItem hash)} {chunks : List (List (PreparedItem hash))}
    (hfolds : FoldsWithArbiter binding context items)
    (hchunks : chunks.flatten = (collapseHashDuplicates items context.scope).unique) :
    chunks.flatten.map (bindRow binding context) =
        (firsts (itemKey context.scope) items).map (foldedRow binding context items) /\
      (insertStatements binding context now table chunks).map (map withoutAccess) =
        (insertOneByOne binding context now table items).map (map withoutAccess) := by
  have hapart : ∀ chunk ∈ chunks, (chunk.map (bindRow binding context)).Pairwise
      fun left right => Not ((upsert context now).Conflicts left right) := by
    intro chunk hchunk
    have hall := unique_apart binding context now items
    rw [<- hchunks, pairwise_map] at hall
    rw [pairwise_map]
    exact (pairwise_flatten.mp hall).1 chunk hchunk
  have hsingles : ∀ chunk ∈ items.map (fun item => [item]),
      (chunk.map (bindRow binding context)).Pairwise fun left right =>
        Not ((upsert context now).Conflicts left right) := by
    intro chunk hchunk
    obtain ⟨item, -, rfl⟩ := mem_map.mp hchunk
    exact pairwise_singleton _ _
  have hflat : (items.map fun item => [item]).flatten = items := by
    rw [<- flatMap_def, flatMap_singleton']
  refine ⟨?_, ?_⟩
  · rw [hchunks, collapse_unique, map_map]
    refine map_congr_left ?_
    intro first _
    exact bindRow_foldl_absorb binding context _ first
  · rw [insertOneByOne, insertStatements_eq binding context now table hapart,
      insertStatements_eq binding context now table hsingles, hflat, hchunks]
    exact insertRows_collapse binding context _ hfolds

end

def sampleHash : ContentHash :=
  { of := fun _ => "h", width := 1, width_pos := Nat.one_pos, length_of := fun _ => rfl }

def sampleFields : OtherFields :=
  { topic := "general", keywords := [], source := none, linkedTo := [], ttlTier := none
    estimatedTokens := 1, validFrom := "2026-01-01T00:00:00.000Z", contextSummary := none
    sessionId := none, caseId := none, goal := none, outcome := none, phase := none
    resolutionStatus := none, assertionStatus := none, origin := none, observedClient := none
    trustTier := none, reviewState := none, reviewReason := none, mentionTime := none
    eventTime := none, eventTimeEnd := none, eventTimePrecision := none }

def sampleItem (index : Nat) (workspace : String) : PreparedItem sampleHash :=
  { index := index
    fragment :=
      { id := "f", content := "same", type := "fact", contentHash := "h", importance := none
        isAnchor := false, anchorQuota := false, workspace := some workspace
        idempotencyKey := none, hashed := rfl }
    other := sampleFields }

def sampleBinding : Binding :=
  { agentId := "default", countTokens := String.length, contentTokens := fun _ => none }

def scopedContext (configured : Scope) : WriteContext :=
  { keyId := some "k"
    indexes := ⟨fun name => if name = .keyScoped then some true else none⟩
    configured := configured, anchorLimit := 0, enforceAnchors := false }

/-- Under the key scope two workspaces share a row, which the workspace index keeps apart. -/
theorem collapsed_insert_differs_key_scope :
    Not (∀ chunks : List (List (PreparedItem sampleHash)),
      chunks.flatten = (collapseHashDuplicates [sampleItem 0 "a", sampleItem 1 "b"]
          (scopedContext .key).scope).unique ->
        (insertStatements sampleBinding (scopedContext .key) 0 [] chunks).map
            (map withoutAccess) =
          (insertOneByOne sampleBinding (scopedContext .key) 0 []
            [sampleItem 0 "a", sampleItem 1 "b"]).map (map withoutAccess)) := by
  intro hall
  have hequal := hall [(collapseHashDuplicates [sampleItem 0 "a", sampleItem 1 "b"]
    (scopedContext .key).scope).unique] (append_nil _)
  have hcounts := congrArg (Option.map length) hequal
  revert hcounts
  decide

/-- In one workspace the two items meet in its index. -/
theorem collapsed_insert_eq_sequential_one_workspace :
    FoldsWithArbiter sampleBinding (scopedContext .key) [sampleItem 0 "a", sampleItem 1 "a"] /\
      (insertStatements sampleBinding (scopedContext .key) 0 []
          [(collapseHashDuplicates [sampleItem 0 "a", sampleItem 1 "a"]
            (scopedContext .key).scope).unique]).map (map withoutAccess) =
        (insertOneByOne sampleBinding (scopedContext .key) 0 []
          [sampleItem 0 "a", sampleItem 1 "a"]).map (map withoutAccess) := by
  have hfolds : FoldsWithArbiter sampleBinding (scopedContext .key)
      [sampleItem 0 "a", sampleItem 1 "a"] := by
    refine ⟨.keyScoped, rfl, ?_⟩
    intro left hleft right hright _
    have hrow : ∀ item ∈ [sampleItem 0 "a", sampleItem 1 "a"],
        indexEntry .keyScoped (bindRow sampleBinding (scopedContext .key) item).toRow =
          some ⟨some "k", "h", some "a"⟩ := by
      intro item hitem
      simp only [mem_cons, not_mem_nil, or_false] at hitem
      rcases hitem with rfl | rfl <;> rfl
    rw [hrow left hleft, hrow right hright]
  exact ⟨hfolds, (collapsed_insert_eq_sequential sampleBinding (scopedContext .key) 0 [] hfolds
    (append_nil _)).2⟩

end AnchorMind.Write.CollapsedInsert
