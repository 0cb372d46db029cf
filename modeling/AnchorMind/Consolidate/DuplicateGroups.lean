import AnchorMind.Kernel.KeyedTable
import AnchorMind.Link.LinkStore

/-!
# Merging the fragments of one content

Fragments of one key and workspace with the same content are merged into one of them.  For
each of the others the references to it are replaced, its links are written anew for the
survivor, and the fragment is deleted with the cleanup that every deletion has.
-/

namespace AnchorMind.Consolidate.DuplicateGroups

open Kernel.KeyedTable Link List

/-- The columns that the merge reads and writes. -/
structure FragmentRow where
  id : String
  keyId : Option String
  workspace : Option String
  contentHash : String
  importance : Rat
  createdAt : Option Nat
  validTo : Option Nat
  isAnchor : Bool
  topic : String
  linkedTo : List String
  deriving DecidableEq

abbrev Rows := Table FragmentRow.id fun row => row.id ≠ ""

abbrev Update := Table.Update FragmentRow.id fun row => row.id ≠ ""

def ids (rows : Rows) : List String := rows.rows.map FragmentRow.id

def LinksFragments (rows : Rows) (links : LinkTable String Rat) : Prop :=
  ∀ key, links key ≠ none -> key.1 ∈ ids rows /\ key.2 ∈ ids rows

structure Store where
  rows : Rows
  links : LinkTable String Rat
  linksFragments : LinksFragments rows links

theorem ids_apply (rows : Rows) (update : Update) : ids (rows.apply update) = ids rows := by
  unfold ids Table.apply
  rw [map_map]
  refine map_congr_left fun row _ => ?_
  by_cases hselect : update.select row = true <;> simp [hselect, update.keepsKey]

def Store.update (store : Store) (update : Update) : Store where
  rows := store.rows.apply update
  links := store.links
  linksFragments := by
    unfold LinksFragments
    rw [ids_apply]
    exact store.linksFragments

def Store.deleteWhere (store : Store) (select : FragmentRow -> Bool) : Store where
  rows := store.rows.deleteWhere select
  links key :=
    if key.1 ∈ ids (store.rows.deleteWhere select) /\
        key.2 ∈ ids (store.rows.deleteWhere select) then store.links key
    else none
  linksFragments := by
    intro key hkey
    by_cases hends : key.1 ∈ ids (store.rows.deleteWhere select) /\
        key.2 ∈ ids (store.rows.deleteWhere select)
    · exact hends
    · exact absurd (if_neg hends) hkey

/-- `key_id`, `workspace` and `content_hash` of a group, and its fragments, survivor first. -/
structure Group where
  keyId : String
  workspace : Option String
  contentHash : String
  ids : List String

def inGroup (group : Group) (row : FragmentRow) : Bool :=
  row.keyId == some group.keyId && row.workspace == group.workspace &&
    row.contentHash == group.contentHash

/-- `ORDER BY importance DESC, created_at ASC`, a missing time last. -/
def ranksBefore (a b : FragmentRow) : Bool :=
  decide (b.importance < a.importance) ||
    decide (a.importance = b.importance) &&
      match a.createdAt, b.createdAt with
      | some first, some second => decide (first ≤ second)
      | _, none => true
      | none, some _ => false

def IsDuplicateGroup (rows : Rows) (group : Group) : Prop :=
  1 < group.ids.length /\
    ∃ members : List FragmentRow, members.Perm (rows.rows.filter (inGroup group)) /\
      members.Pairwise (fun a b => ranksBefore a b = true) /\
      group.ids = members.map FragmentRow.id

def Group.scope (group : Group) : String × Option String × String :=
  (group.keyId, group.workspace, group.contentHash)

structure DuplicatesQuery (rows : Rows) (groups : List Group) : Prop where
  limit : groups.length ≤ 50
  distinct : (groups.map Group.scope).Nodup
  duplicates : ∀ group ∈ groups, IsDuplicateGroup rows group

/-- `array_replace` in the fragments of the key that refer to the id. -/
def replaceReference (removedId keepId groupKey : String) : Update where
  select row := decide (removedId ∈ row.linkedTo) && row.keyId == some groupKey
  image row :=
    { row with linkedTo := row.linkedTo.map fun id => if id = removedId then keepId else id }
  keepsKey _ := rfl
  keepsCheck _ _ hcheck := hcheck

def isActive (stored : Option (LinkRow Rat)) : Bool := stored.any fun row => row.deletedAt.isNone

def activeLinks (store : Store) (id : String) : List ((String × String) × LinkRow Rat) :=
  (((ids store.rows).flatMap fun other => [(id, other), (other, id)]).eraseDups).filterMap
    fun key => (store.links key).bind fun row =>
      if row.deletedAt.isNone then some (key, row) else none

def renamed (removedId keepId id : String) : String := if id = removedId then keepId else id

def movedLink (removedId keepId : String) (link : (String × String) × LinkRow Rat) :
    LinkRequest String Rat where
  fromId := renamed removedId keepId link.1.1
  toId := renamed removedId keepId link.1.2
  relationType := link.2.relationType
  weight := some link.2.weight

def movedLinks (store : Store) (removedId keepId : String) : List (LinkRequest String Rat) :=
  ((activeLinks store removedId).map (movedLink removedId keepId)).filter fun request =>
    request.fromId ≠ request.toId

/-- The foreign keys let a link through. -/
def bothExist (rows : Rows) (fromId toId : String) : Bool :=
  decide (fromId ∈ ids rows) && decide (toId ∈ ids rows)

def writtenLinks (store : Store) (removedId keepId : String) : LinkTable String Rat :=
  leaves store.links
    (createLinks OrderHom.id (bothExist store.rows) store.links
      (movedLinks store removedId keepId))

variable {removedId keepId : String}

theorem renamed_mem {id : String} {names : List String} (hkeep : keepId ∈ names)
    (hid : id ∈ names) : renamed removedId keepId id ∈ names := by
  unfold renamed
  split
  · exact hkeep
  · exact hid

variable {store : Store}

theorem mem_activeLinks {id : String} {link : (String × String) × LinkRow Rat} :
    link ∈ activeLinks store id <->
      (link.1.1 = id \/ link.1.2 = id) /\ store.links link.1 = some link.2 /\
        link.2.deletedAt = none := by
  obtain ⟨key, row⟩ := link
  simp only [activeLinks, mem_filterMap, mem_eraseDups, mem_flatMap,
    mem_cons, not_mem_nil, or_false]
  constructor
  · rintro ⟨found, ⟨other, _, hfound⟩, hrow⟩
    obtain ⟨stored, hstored, hactive⟩ := Option.bind_eq_some_iff.mp hrow
    split at hactive
    · rename_i hnone
      cases hactive
      refine ⟨?_, hstored, Option.isNone_iff_eq_none.mp hnone⟩
      rcases hfound with rfl | rfl
      · exact .inl rfl
      · exact .inr rfl
    · cases hactive
  · rintro ⟨hend, hstored, hactive⟩
    have hends := store.linksFragments key (by rw [hstored]; exact Option.some_ne_none row)
    refine ⟨key, ?_, ?_⟩
    · rcases hend with rfl | rfl
      · exact ⟨key.2, hends.2, .inl rfl⟩
      · exact ⟨key.1, hends.1, .inr rfl⟩
    · rw [hstored, Option.bind_some, hactive]
      rfl

theorem mem_movedLinks {key : String × String} :
    (∃ request ∈ movedLinks store removedId keepId,
        (request.fromId, request.toId) = key) <->
      key.1 ≠ key.2 /\ ∃ link ∈ activeLinks store removedId,
        (renamed removedId keepId link.1.1, renamed removedId keepId link.1.2) = key := by
  constructor
  · rintro ⟨request, hrequest, rfl⟩
    obtain ⟨hmem, hne⟩ := mem_filter.mp hrequest
    obtain ⟨link, hlink, rfl⟩ := mem_map.mp hmem
    exact ⟨of_decide_eq_true hne, link, hlink, rfl⟩
  · rintro ⟨hne, link, hlink, rfl⟩
    exact ⟨movedLink removedId keepId link,
      mem_filter.mpr ⟨mem_map.mpr ⟨link, hlink, rfl⟩, decide_eq_true hne⟩, rfl⟩

theorem movedLinks_accepted (hkeep : keepId ∈ ids store.rows) :
    ∀ request ∈ movedLinks store removedId keepId,
      bothExist store.rows request.fromId request.toId = true := by
  intro request hrequest
  obtain ⟨link, hlink, rfl⟩ := mem_map.mp (mem_filter.mp hrequest).1
  obtain ⟨_, hstored, _⟩ := mem_activeLinks.mp hlink
  have hends := store.linksFragments link.1 (by rw [hstored]; exact Option.some_ne_none _)
  exact Bool.and_eq_true_iff.mpr ⟨decide_eq_true (renamed_mem hkeep hends.1),
    decide_eq_true (renamed_mem hkeep hends.2)⟩

theorem linksFragments_written (store : Store) (removedId keepId : String) :
    LinksFragments store.rows (writtenLinks store removedId keepId) := by
  intro key hkey
  unfold writtenLinks at hkey
  by_cases haccepts : ∀ request ∈ movedLinks store removedId keepId,
      bothExist store.rows request.fromId request.toId = true
  · obtain ⟨written, hwritten, hrows⟩ :=
      createLinks_rows OrderHom.id (bothExist store.rows) store.links haccepts
    rw [hwritten] at hkey
    by_cases hrequests : requestsFor (movedLinks store removedId keepId) key = []
    · exact store.linksFragments key fun hnone => hkey (((hrows key).1 hrequests).trans hnone)
    · obtain ⟨request, hrequest, rfl⟩ := requestsFor_ne_nil_iff.mp hrequests
      have hboth := haccepts request hrequest
      rw [bothExist, Bool.and_eq_true, decide_eq_true_eq, decide_eq_true_eq] at hboth
      exact hboth
  · push Not at haccepts
    obtain ⟨request, hrequest, hrefused⟩ := haccepts
    rw [createLinks_refused _ _ ⟨request, hrequest, eq_false_of_ne_true hrefused⟩] at hkey
    exact store.linksFragments key hkey

def moveLinksToSurvivor (store : Store) (removedId keepId : String) : Store where
  rows := store.rows
  links := writtenLinks store removedId keepId
  linksFragments := linksFragments_written store removedId keepId

def contradictionAuditTopic : String := "contradiction_audit"

/-- A record that the server wrote about a contradiction it resolved. -/
def isAudit (row : FragmentRow) : Bool :=
  row.keyId.isNone && decide (row.topic = contradictionAuditTopic)

def refersTo (names : List String) (row : FragmentRow) : Bool :=
  row.linkedTo.any fun id => decide (id ∈ names)

def isAuditOf (removed : List String) (row : FragmentRow) : Bool :=
  isAudit row && refersTo removed row && !decide (row.id ∈ removed)

def unlinkReferences (removedIds : List String) : Update where
  select := refersTo removedIds
  image row := { row with linkedTo := row.linkedTo.filter fun id => decide (id ∉ removedIds) }
  keepsKey _ := rfl
  keepsCheck _ _ hcheck := hcheck

def Store.dropLinks (store : Store) (removedIds : List String) : Store where
  rows := store.rows
  links key := if key.1 ∈ removedIds \/ key.2 ∈ removedIds then none else store.links key
  linksFragments := by
    intro key hkey
    by_cases hends : key.1 ∈ removedIds \/ key.2 ∈ removedIds
    · exact absurd (if_pos hends) hkey
    · exact store.linksFragments key fun hnone => hkey ((if_neg hends).trans hnone)

/-- `cleanupDeletedRows` for fragments that are deleted. -/
def cleanupDeletedRows (store : Store) (removed : List String) : Store :=
  let audits := (store.rows.rows.filter (isAuditOf removed)).map FragmentRow.id
  ((store.deleteWhere (isAuditOf removed)).dropLinks (removed ++ audits)).update
    (unlinkReferences (removed ++ audits))

/-- `delete` of a fragment by its key. -/
def delete (store : Store) (id keyId : String) : Store :=
  if store.rows.rows.any fun row => decide (row.id = id) && row.keyId == some keyId then
    cleanupDeletedRows (store.deleteWhere fun row => decide (row.id = id)) [id]
  else store

def mergeMember (groupKey keepId : String) (store : Store) (removedId : String) : Store :=
  delete
    (moveLinksToSurvivor (store.update (replaceReference removedId keepId groupKey)) removedId
      keepId)
    removedId groupKey

def scopeMismatch (rows : Rows) (group : Group) : Bool :=
  rows.rows.any fun row => decide (row.id ∈ group.ids) &&
    (row.keyId != some group.keyId || row.workspace != group.workspace)

structure Run where
  store : Store
  merged : Nat

def mergeGroup (run : Run) (group : Group) : Run :=
  if scopeMismatch run.store.rows group then run
  else
    match group.ids with
    | [] => run
    | keepId :: removeIds =>
      { store := removeIds.foldl (mergeMember group.keyId keepId) run.store
        merged := run.merged + removeIds.length }

/-- `_mergeDuplicates`, for the groups that its query returned. -/
def mergeDuplicates (store : Store) (groups : List Group) : Run :=
  groups.foldl mergeGroup ⟨store, 0⟩

end AnchorMind.Consolidate.DuplicateGroups
