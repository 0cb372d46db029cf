import AnchorMind.Kernel.UniqueIndex
import AnchorMind.Text.Characters
import AnchorMind.Write.Fragments
import Mathlib.Data.String.Lemmas

/-!
# The scope in which one content is one fragment

Four partial unique indexes guard the content hash, two for keys and two for the
master, each with or without the workspace cell.  From the indexes that exist and
the configured scope a write path decides which stored fragment is a duplicate,
which index arbitrates a conflict, and which items of a batch are folded into one.
-/

namespace AnchorMind.Write.DedupScope

open Kernel.UniqueIndex Text Write.Fragments List

def normalizeWorkspace : Option String -> Option String
  | none => none
  | some text => if Whitespace.blank text then none else some text

def workspaceKey (workspace : Option String) : String := (normalizeWorkspace workspace).getD ""

/-- `COALESCE(workspace, '')`, the cell the unique indexes keep. -/
def coalesceWorkspace (workspace : Option String) : String := workspace.getD ""

@[simp] theorem normalizeWorkspace_none : normalizeWorkspace none = none := rfl

@[simp] theorem workspaceKey_none : workspaceKey none = "" := rfl

@[simp] theorem coalesceWorkspace_none : coalesceWorkspace none = "" := rfl

variable {workspace : Option String}

theorem normalizeWorkspace_eq_some {text : String}
    (hsome : normalizeWorkspace workspace = some text) :
    workspace = some text /\ Whitespace.blank text = false := by
  cases workspace with
  | none => cases hsome
  | some given =>
    rw [normalizeWorkspace] at hsome
    split at hsome
    · cases hsome
    · rename_i hblank
      cases hsome
      exact ⟨rfl, by simpa using hblank⟩

theorem blank_empty : Whitespace.blank "" = true := by
  rw [Whitespace.blank_iff_trim_eq_empty]
  rfl

@[simp] theorem normalizeWorkspace_normalizeWorkspace (workspace : Option String) :
    normalizeWorkspace (normalizeWorkspace workspace) = normalizeWorkspace workspace := by
  cases hnormal : normalizeWorkspace workspace with
  | none => rfl
  | some text =>
    have hblank := (normalizeWorkspace_eq_some hnormal).2
    simp [normalizeWorkspace, hblank]

@[simp] theorem workspaceKey_normalizeWorkspace (workspace : Option String) :
    workspaceKey (normalizeWorkspace workspace) = workspaceKey workspace := by
  simp [workspaceKey]

/-- The cell of what a write path stores is the cell the indexes keep for it. -/
@[simp] theorem coalesceWorkspace_normalizeWorkspace (workspace : Option String) :
    coalesceWorkspace (normalizeWorkspace workspace) = workspaceKey workspace := rfl

theorem workspaceKey_eq_empty :
    workspaceKey workspace = "" <-> normalizeWorkspace workspace = none := by
  unfold workspaceKey
  cases hnormal : normalizeWorkspace workspace with
  | none => simp
  | some text =>
    have hblank := (normalizeWorkspace_eq_some hnormal).2
    constructor
    · intro hempty
      have hempty : text = "" := hempty
      rw [hempty, blank_empty] at hblank
      cases hblank
    · intro h
      cases h

def NormalWorkspace (workspace : Option String) : Prop :=
  normalizeWorkspace workspace = workspace

theorem normalWorkspace_normalizeWorkspace (workspace : Option String) :
    NormalWorkspace (normalizeWorkspace workspace) :=
  normalizeWorkspace_normalizeWorkspace workspace

theorem NormalWorkspace.coalesce (hnormal : NormalWorkspace workspace) :
    coalesceWorkspace workspace = workspaceKey workspace := by
  have hcell := coalesceWorkspace_normalizeWorkspace workspace
  rwa [hnormal] at hcell

theorem workspaceKey_of_coalesce {stored : Option String}
    (hcell : coalesceWorkspace stored = workspaceKey workspace) :
    workspaceKey stored = workspaceKey workspace := by
  rw [<- hcell]
  cases stored with
  | none => rfl
  | some text =>
    have htext : text = workspaceKey workspace := hcell
    cases hblank : Whitespace.blank text with
    | false => simp [workspaceKey, normalizeWorkspace, coalesceWorkspace, hblank]
    | true =>
      have hempty : text = "" := by
        unfold workspaceKey at htext
        cases hnormal : normalizeWorkspace workspace with
        | none => simpa [hnormal] using htext
        | some given =>
          have hnotblank := (normalizeWorkspace_eq_some hnormal).2
          rw [hnormal] at htext
          have hsame : text = given := htext
          rw [<- hsame, hblank] at hnotblank
          cases hnotblank
      simp [workspaceKey, normalizeWorkspace, coalesceWorkspace, hempty, blank_empty]

/-- `DEDUP_SCOPES` -/
inductive Scope where
  | workspace
  | key
deriving DecidableEq

/-- `DEDUP_INDEXES`: legacy indexes keep the key, scoped ones the workspace too. -/
inductive IndexName where
  | keyLegacy
  | masterLegacy
  | keyScoped
  | masterScoped
deriving DecidableEq

namespace IndexName

def all : List IndexName := [keyLegacy, masterLegacy, keyScoped, masterScoped]

theorem mem_all (name : IndexName) : name ∈ all := by cases name <;> decide

end IndexName

/-- What an index keeps of a row it covers. -/
structure Entry where
  keyId : Option String
  contentHash : String
  workspace : Option String
deriving DecidableEq

def indexEntry : IndexName -> Row -> Option Entry
  | .keyLegacy, row => if row.keyId = none then none else some ⟨row.keyId, row.contentHash, none⟩
  | .masterLegacy, row => if row.keyId = none then some ⟨none, row.contentHash, none⟩ else none
  | .keyScoped, row =>
    if row.keyId = none then none
    else some ⟨row.keyId, row.contentHash, some (coalesceWorkspace row.workspace)⟩
  | .masterScoped, row =>
    if row.keyId = none then
      some ⟨none, row.contentHash, some (coalesceWorkspace row.workspace)⟩
    else none

/-- The indexes `pg_index` lists, each with its `indisvalid`.  An index that is
being dropped is listed as not valid and still enforces uniqueness. -/
structure DedupIndexState where
  listed : IndexName -> Option Bool

namespace DedupIndexState

def existing (state : DedupIndexState) (name : IndexName) : Bool := (state.listed name).isSome

def valid (state : DedupIndexState) (name : IndexName) : Bool := state.listed name == some true

theorem existing_of_valid {state : DedupIndexState} {name : IndexName}
    (hvalid : state.valid name = true) : state.existing name = true := by
  have hlisted : state.listed name = some true := by simpa [valid] using hvalid
  simp [existing, hlisted]

end DedupIndexState

/-- `pathIndexes(keyId).legacy` -/
def legacyIndex (keyId : Option String) : IndexName :=
  if keyId = none then .masterLegacy else .keyLegacy

/-- `pathIndexes(keyId).scoped` -/
def scopedIndex (keyId : Option String) : IndexName :=
  if keyId = none then .masterScoped else .keyScoped

def effectiveDedupScope (configured : Scope) (state : DedupIndexState)
    (keyId : Option String) : Scope :=
  if state.existing (legacyIndex keyId) then .key else configured

def conflictIndex (state : DedupIndexState) (keyId : Option String) : Option IndexName :=
  if state.valid (legacyIndex keyId) then some (legacyIndex keyId)
  else if state.valid (scopedIndex keyId) then some (scopedIndex keyId)
  else none

def lookupRequired (state : DedupIndexState) (keyId : Option String) : Bool :=
  conflictIndex state keyId != some (legacyIndex keyId)

/-- The row of the same workspace cell, then a global row, and in the key scope any
row: `rows` are the stored rows of one key and one hash. -/
def pickDuplicate (rows : List Row) (workspace : Option String) (scope : Scope) : Option Row :=
  match rows.find? (fun row => workspaceKey row.workspace = workspaceKey workspace) with
  | some exact => some exact
  | none =>
    match rows.find? (fun row => row.workspace = none) with
    | some global => some global
    | none =>
      match scope with
      | .key => rows.head?
      | .workspace => none

def foldKey {hash : ContentHash} (fragment : Fragment hash) : Scope -> Option String
  | .key => if fragment.contentHash = "" then none else some fragment.contentHash
  | .workspace =>
    if fragment.contentHash = "" then none
    else some (workspaceKey fragment.workspace ++ "\u0000" ++ fragment.contentHash)

def findContentHashMatches (table : List Row) (keyId : Option String) (hashes : List String)
    (excludeId : Option String) : List Row :=
  table.filter fun row =>
    decide (row.contentHash ∈ hashes) && decide (row.keyId = keyId) &&
      decide (excludeId ≠ some row.id)

structure Item (hash : ContentHash) where
  index : Nat
  fragment : Fragment hash

/-- The stored row an item is answered with before anything is inserted.  A row of
the item's own cell is left to the arbiter, where there is one. -/
def lookupHit {hash : ContentHash} (rows : List Row) (scope : Scope) (arbiter : Option IndexName)
    (fragment : Fragment hash) : Option Row :=
  let byHash := rows.filter fun row => row.contentHash = fragment.contentHash
  (pickDuplicate byHash fragment.workspace scope).filter fun pick =>
    decide (arbiter = none) ||
      decide (workspaceKey pick.workspace ≠ workspaceKey fragment.workspace)

def splitLookupHits {hash : ContentHash} (items : List (Item hash)) (rows : List Row)
    (scope : Scope) (arbiter : Option IndexName) :
    List (Nat × String) × List (Item hash) :=
  (items.filterMap fun item =>
      (lookupHit rows scope arbiter item.fragment).map fun pick => (item.index, pick.id),
    items.filter fun item => (lookupHit rows scope arbiter item.fragment).isNone)

variable {rows : List Row} {scope : Scope} {row : Row}

theorem pickDuplicate_of_exact
    (hfind : rows.find? (fun row => workspaceKey row.workspace = workspaceKey workspace) =
      some row) : pickDuplicate rows workspace scope = some row := by
  simp only [pickDuplicate, hfind]

section

variable (hpick : pickDuplicate rows workspace scope = some row)
include hpick

theorem exact_of_pickDuplicate {exact : Row} (hexact : exact ∈ rows)
    (hcell : workspaceKey exact.workspace = workspaceKey workspace) :
    rows.find? (fun row => workspaceKey row.workspace = workspaceKey workspace) = some row := by
  cases hfind : rows.find? (fun row => workspaceKey row.workspace = workspaceKey workspace) with
  | none => simpa [hcell] using find?_eq_none.mp hfind exact hexact
  | some found =>
    rw [pickDuplicate_of_exact hfind] at hpick
    rw [hpick]

theorem pickDuplicate_mem : row ∈ rows := by
  unfold pickDuplicate at hpick
  split at hpick
  · rename_i exact hfind
    cases hpick
    exact mem_of_find?_eq_some hfind
  · split at hpick
    · rename_i global hfind
      cases hpick
      exact mem_of_find?_eq_some hfind
    · cases scope with
      | key => exact mem_of_mem_head? hpick
      | workspace => cases hpick

theorem pickDuplicate_scope :
    scope = .key \/ workspaceKey row.workspace = workspaceKey workspace \/
      row.workspace = none := by
  unfold pickDuplicate at hpick
  split at hpick
  · rename_i exact hfind
    cases hpick
    exact .inr (.inl (by simpa using find?_some hfind))
  · split at hpick
    · rename_i global hfind
      cases hpick
      exact .inr (.inr (by simpa using find?_some hfind))
    · cases scope with
      | key => exact .inl rfl
      | workspace => cases hpick

end

theorem pickDuplicate_eq_none :
    pickDuplicate rows workspace scope = none <->
      (∀ row ∈ rows, workspaceKey row.workspace ≠ workspaceKey workspace) /\
        (∀ row ∈ rows, row.workspace ≠ none) /\
        (scope = .key -> rows = []) := by
  unfold pickDuplicate
  constructor
  · intro hnone
    split at hnone
    · cases hnone
    · rename_i hexact
      split at hnone
      · cases hnone
      · rename_i hglobal
        refine ⟨by simpa using hexact, by simpa using hglobal, ?_⟩
        rintro rfl
        exact head?_eq_none_iff.mp hnone
  · rintro ⟨hexact, hglobal, hkey⟩
    have hexact' : rows.find? (fun row => decide (workspaceKey row.workspace =
        workspaceKey workspace)) = none := by simpa using hexact
    have hglobal' : rows.find? (fun row => decide (row.workspace = none)) = none := by
      simpa using hglobal
    rw [hexact', hglobal']
    cases scope with
    | key => simp [hkey rfl]
    | workspace => rfl

section

variable {hash : ContentHash} (left right : Fragment hash)

theorem foldKey_key_eq : foldKey left .key = foldKey right .key <->
    left.contentHash = right.contentHash := by
  simp [foldKey, left.contentHash_ne_empty, right.contentHash_ne_empty]

theorem foldKey_workspace_eq : foldKey left .workspace = foldKey right .workspace <->
    workspaceKey left.workspace = workspaceKey right.workspace /\
      left.contentHash = right.contentHash := by
  simp only [foldKey, left.contentHash_ne_empty, right.contentHash_ne_empty, if_false,
    Option.some.injEq]
  constructor
  · intro hjoined
    have hlength : left.contentHash.toList.length = right.contentHash.toList.length := by
      simp only [String.length_toList, left.length_contentHash, right.length_contentHash]
    have hlists := congrArg String.toList hjoined
    simp only [String.toList_append] at hlists
    obtain ⟨hfront, hback⟩ := append_inj' hlists hlength
    have hcell := append_cancel_right hfront
    exact ⟨String.toList_inj.mp hcell, String.toList_inj.mp hback⟩
  · rintro ⟨hcell, hhash⟩
    rw [hcell, hhash]

theorem contentHash_of_foldKey {scope : Scope} (hfold : foldKey left scope = foldKey right scope) :
    left.contentHash = right.contentHash := by
  cases scope with
  | key => exact (foldKey_key_eq left right).mp hfold
  | workspace => exact ((foldKey_workspace_eq left right).mp hfold).2

end

section

variable {left right : Row} {keyId : Option String}

section

variable (hkey : right.keyId = keyId)
include hkey

theorem clash_legacyIndex :
    Clash (indexEntry (legacyIndex keyId)) left right <->
      left.keyId = keyId /\ left.contentHash = right.contentHash := by
  subst hkey
  cases hright : right.keyId <;> cases hleft : left.keyId <;>
    simp [Clash, legacyIndex, indexEntry, hleft, hright] <;> grind

theorem clash_scopedIndex :
    Clash (indexEntry (scopedIndex keyId)) left right <->
      left.keyId = keyId /\ left.contentHash = right.contentHash /\
        coalesceWorkspace left.workspace = coalesceWorkspace right.workspace := by
  subst hkey
  cases hright : right.keyId <;> cases hleft : left.keyId <;>
    simp [Clash, scopedIndex, indexEntry, hleft, hright] <;> grind

theorem name_of_clash {name : IndexName} (hclash : Clash (indexEntry name) left right) :
    name = legacyIndex keyId \/ name = scopedIndex keyId := by
  subst hkey
  obtain ⟨entry, -, hentry⟩ := hclash
  cases name <;> cases hright : right.keyId <;>
    simp_all [indexEntry, legacyIndex, scopedIndex]

theorem clash_legacy_of_scoped (hclash : Clash (indexEntry (scopedIndex keyId)) left right) :
    Clash (indexEntry (legacyIndex keyId)) left right := by
  rw [clash_scopedIndex hkey] at hclash
  rw [clash_legacyIndex hkey]
  exact ⟨hclash.1, hclash.2.1⟩

end

end

end AnchorMind.Write.DedupScope
