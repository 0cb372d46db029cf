import AnchorMind.Consolidate.DuplicateGroups
import AnchorMind.Kernel.InsertionMap

/-!
# What a merged group leaves

The rows and the links after a group of duplicates is merged, in terms of those before, and
from them exactly when the survivor takes the place of all its duplicates.
-/

namespace AnchorMind.Consolidate.DuplicateGroups

open Kernel.Collapse Kernel.KeyedTable Link List

structure MembersPresent (rows : Rows) (groupKey : String) (members : List String) : Prop where
  nodup : members.Nodup
  present : ∀ id ∈ members,
    ∃ row ∈ rows, row.id = id /\ row.keyId = some groupKey

def auditsOf (rows : Rows) (removed : List String) : List String :=
  (rows.rows.filter fun row => isAudit row && refersTo removed row).map FragmentRow.id

def settledReferences (rows : Rows) (groupKey keepId : String) (removed : List String)
    (row : FragmentRow) : List String :=
  let entries := row.linkedTo.filter fun id => decide (id ∉ auditsOf rows removed)
  if row.keyId = some groupKey then entries.map (collapse removed keepId)
  else entries.filter fun id => decide (id ∉ removed)

def leftRow (rows : Rows) (groupKey keepId : String) (removed : List String)
    (row : FragmentRow) : FragmentRow :=
  { row with linkedTo := settledReferences rows groupKey keepId removed row }

def settledRow (rows : Rows) (groupKey keepId : String) (removed : List String)
    (row : FragmentRow) : Option FragmentRow :=
  if row.id ∈ removed \/ row.id ∈ auditsOf rows removed then none
  else some (leftRow rows groupKey keepId removed row)

variable {rows : Rows} {groupKey : String} {members removed : List String} {id : String}

theorem mem_auditsOf :
    id ∈ auditsOf rows removed <->
      ∃ row ∈ rows, row.id = id /\ isAudit row = true /\
        ∃ name ∈ row.linkedTo, name ∈ removed := by
  simp only [auditsOf, mem_map, mem_filter, Bool.and_eq_true, refersTo,
    any_eq_true, decide_eq_true_eq]
  constructor
  · rintro ⟨row, ⟨hrow, haudit, hrefers⟩, hid⟩
    exact ⟨row, hrow, hid, haudit, hrefers⟩
  · rintro ⟨row, hrow, hid, haudit, hrefers⟩
    exact ⟨row, ⟨hrow, haudit, hrefers⟩, hid⟩

theorem not_mem_auditsOf (hmembers : MembersPresent rows groupKey members) (hid : id ∈ members) :
    id ∉ auditsOf rows removed := by
  intro haudits
  obtain ⟨audit, haudit, hauditId, hisAudit, _⟩ := mem_auditsOf.mp haudits
  obtain ⟨row, hrow, hrowId, hkey⟩ := hmembers.present id hid
  have hsame : audit = row := Table.eq_of_key_eq haudit hrow (hauditId.trans hrowId.symm)
  rw [isAudit, hsame, hkey] at hisAudit
  exact Bool.false_ne_true hisAudit

theorem auditsOf_nil : auditsOf rows [] = [] := by simp [auditsOf, refersTo]

theorem settledRow_eq_some {keepId : String} {source row : FragmentRow} :
    settledRow rows groupKey keepId removed source = some row <->
      (source.id ∉ removed /\ source.id ∉ auditsOf rows removed) /\
        row = leftRow rows groupKey keepId removed source := by
  unfold settledRow
  by_cases hgone : source.id ∈ removed \/ source.id ∈ auditsOf rows removed
  · rw [if_pos hgone]
    constructor
    · intro hnone
      cases hnone
    · rintro ⟨⟨hkept, hkeptAudit⟩, _⟩
      exact absurd hgone (not_or.mpr ⟨hkept, hkeptAudit⟩)
  · rw [if_neg hgone, Option.some.injEq]
    exact ⟨fun hrow => ⟨not_or.mp hgone, hrow.symm⟩, fun hrow => hrow.2.symm⟩

variable {store : Store} {keepId removedId : String}

def replacedRow (groupKey keepId removedId : String) (row : FragmentRow) : FragmentRow :=
  { row with
    linkedTo :=
      if row.keyId = some groupKey then row.linkedTo.map (collapse [removedId] keepId)
      else row.linkedTo }

@[simp]
theorem replacedRow_id (row : FragmentRow) :
    (replacedRow groupKey keepId removedId row).id = row.id := rfl

theorem replaceReference_rows (rows : Rows) :
    (rows.apply (replaceReference removedId keepId groupKey)).rows =
      rows.rows.map (replacedRow groupKey keepId removedId) := by
  refine map_congr_left fun row _ => ?_
  have hcollapse : (fun id => if id = removedId then keepId else id) =
      collapse [removedId] keepId := by
    funext id
    simp [collapse]
  by_cases hkey : row.keyId = some groupKey
  · by_cases hrefers : removedId ∈ row.linkedTo
    · simp [replaceReference, replacedRow, hkey, hrefers, hcollapse]
    · have hkept : row.linkedTo.map (collapse [removedId] keepId) = row.linkedTo := by
        refine (map_congr_left fun id hid => collapse_of_not_mem ?_).trans (map_id _)
        rw [mem_singleton]
        rintro rfl
        exact hrefers hid
      have hsame : replacedRow groupKey keepId removedId row = row := by
        rw [replacedRow, if_pos hkey, hkept]
      simp [replaceReference, hrefers, hsame]
  · simp [replaceReference, replacedRow, hkey]

def removalRows (rows : Rows) (groupKey keepId removedId : String) : Rows :=
  (rows.apply (replaceReference removedId keepId groupKey)).deleteWhere fun row =>
    decide (row.id = removedId)

def removalAudits (rows : Rows) (groupKey keepId removedId : String) : List String :=
  ((removalRows rows groupKey keepId removedId).rows.filter (isAuditOf [removedId])).map
    FragmentRow.id

def removalRow (rows : Rows) (groupKey keepId removedId : String) (row : FragmentRow) :
    Option FragmentRow :=
  let audits := removalAudits rows groupKey keepId removedId
  let replaced := replacedRow groupKey keepId removedId row
  if row.id = removedId \/ row.id ∈ audits then none
  else some { replaced with
    linkedTo := replaced.linkedTo.filter fun id => decide (id ∉ removedId :: audits) }

variable {rows : Rows}

theorem mem_removalAudits {row : FragmentRow} (hrow : row ∈ rows) :
    row.id ∈ removalAudits rows groupKey keepId removedId <->
      row.id ≠ removedId /\
        isAuditOf [removedId] (replacedRow groupKey keepId removedId row) = true := by
  simp only [removalAudits, removalRows, Table.deleteWhere, replaceReference_rows, mem_map,
    mem_filter]
  constructor
  · rintro ⟨_, ⟨⟨⟨source, hsource, rfl⟩, hother⟩, haudit⟩, hid⟩
    have hsame : source = row := Table.eq_of_key_eq hsource hrow hid
    subst hsame
    exact ⟨of_decide_eq_false ((Bool.not_eq_true' _).mp hother), haudit⟩
  · rintro ⟨hother, haudit⟩
    refine ⟨_, ⟨⟨⟨row, hrow, rfl⟩, ?_⟩, haudit⟩, rfl⟩
    rw [replacedRow_id, decide_eq_false hother]
    rfl

variable {id : String}

theorem exists_of_mem_removalAudits (hid : id ∈ removalAudits rows groupKey keepId removedId) :
    ∃ row ∈ rows, row.id = id := by
  simp only [removalAudits, removalRows, Table.deleteWhere, replaceReference_rows, mem_map,
    mem_filter] at hid
  obtain ⟨_, ⟨⟨⟨source, hsource, rfl⟩, _⟩, _⟩, rfl⟩ := hid
  exact ⟨source, hsource, rfl⟩

theorem filterMap_of_filters {Row Result : Type} (replace : Row -> Row) (first second : Row -> Bool)
    (settle : Row -> Result) (rows : List Row) :
    ((((rows.map replace).filter first).filter second).map settle) =
      rows.filterMap fun row =>
        if first (replace row) && second (replace row) then some (settle (replace row))
        else none := by
  induction rows with
  | nil => rfl
  | cons row rest ih =>
    rw [map_cons, filter_cons, filterMap_cons, <- ih]
    cases hfirst : first (replace row) with
    | false => simp
    | true =>
      rw [if_pos rfl, filter_cons]
      cases hsecond : second (replace row) <;> simp

theorem unlinkReferences_rows (rows : Rows) (removedIds : List String) :
    (rows.apply (unlinkReferences removedIds)).rows = rows.rows.map fun row =>
      { row with linkedTo := row.linkedTo.filter fun id => decide (id ∉ removedIds) } := by
  refine map_congr_left fun row _ => ?_
  cases hrefers : refersTo removedIds row with
  | true => simp [unlinkReferences, hrefers]
  | false =>
    have hkept : (row.linkedTo.filter fun id => decide (id ∉ removedIds)) = row.linkedTo := by
      refine filter_eq_self.mpr fun id hid => decide_eq_true fun hmem => ?_
      exact Bool.false_ne_true (hrefers.symm.trans
        (any_eq_true.mpr ⟨id, hid, decide_eq_true hmem⟩))
    rw [hkept]
    simp [unlinkReferences, hrefers]

theorem mergeMember_eq
    (hpresent : ∃ row ∈ store.rows, row.id = removedId /\ row.keyId = some groupKey) :
    mergeMember groupKey keepId store removedId =
      cleanupDeletedRows
        ((moveLinksToSurvivor (store.update (replaceReference removedId keepId groupKey)) removedId
          keepId).deleteWhere fun row => decide (row.id = removedId))
        [removedId] := by
  unfold mergeMember delete
  refine if_pos ?_
  obtain ⟨row, hrow, hid, hkey⟩ := hpresent
  show ((store.rows.apply (replaceReference removedId keepId groupKey)).rows.any _) = true
  rw [replaceReference_rows, any_eq_true]
  refine ⟨_, mem_map.mpr ⟨row, hrow, rfl⟩, ?_⟩
  simp [replacedRow, hid, hkey]

theorem mergeMember_rows
    (hpresent : ∃ row ∈ store.rows, row.id = removedId /\ row.keyId = some groupKey) :
    (mergeMember groupKey keepId store removedId).rows.rows =
      store.rows.rows.filterMap (removalRow store.rows groupKey keepId removedId) := by
  have hrows : (mergeMember groupKey keepId store removedId).rows =
      (((removalRows store.rows groupKey keepId removedId).deleteWhere
        (isAuditOf [removedId])).apply
          (unlinkReferences
            ([removedId] ++ removalAudits store.rows groupKey keepId removedId))) := by
    rw [mergeMember_eq hpresent]
    rfl
  rw [hrows, unlinkReferences_rows]
  simp only [removalRows, Table.deleteWhere, replaceReference_rows]
  rw [filterMap_of_filters]
  refine filterMap_congr fun row hrow => ?_
  have haudits : row.id ∈ removalAudits store.rows groupKey keepId removedId <-> _ :=
    mem_removalAudits hrow
  unfold removalRow
  by_cases hid : row.id = removedId
  · simp [hid]
  · cases haudit : isAuditOf [removedId] (replacedRow groupKey keepId removedId row) with
    | true =>
      have hmem := haudits.mpr ⟨hid, haudit⟩
      simp [hmem]
    | false =>
      have hmem : row.id ∉ removalAudits store.rows groupKey keepId removedId :=
        fun hmem => Bool.false_ne_true (haudit.symm.trans (haudits.mp hmem).2)
      simp [hid, hmem]

structure Removing (before after : Rows) (groupKey keepId : String) (removed : List String)
    (next : String) : Prop where
  settled : after.rows = before.rows.filterMap (settledRow before groupKey keepId removed)
  members : MembersPresent before groupKey (keepId :: (removed ++ [next]))

namespace Removing

variable {before after : Rows} {next : String} {row : FragmentRow}

section

variable (hremoving : Removing before after groupKey keepId removed next)
include hremoving

theorem next_not_mem : next ∉ removed := by
  have hnodup := (nodup_cons.mp hremoving.members.nodup).2
  intro hmem
  exact (nodup_append.mp hnodup).2.2 next hmem next (mem_singleton.mpr rfl) rfl

theorem keep_ne_next : keepId ≠ next := by
  rintro rfl
  exact (nodup_cons.mp hremoving.members.nodup).1 (by simp)

theorem not_mem_audits (hid : id ∈ removed ++ [next]) (names : List String) :
    id ∉ auditsOf before names :=
  not_mem_auditsOf hremoving.members (mem_cons_of_mem _ hid)

theorem keep_not_mem_audits (names : List String) : keepId ∉ auditsOf before names :=
  not_mem_auditsOf hremoving.members mem_cons_self

theorem mem_after :
    row ∈ after <-> ∃ source ∈ before,
      settledRow before groupKey keepId removed source = some row := by
  rw [Table.mem_def, hremoving.settled]
  exact mem_filterMap

theorem isAuditOf_leftRow (row : FragmentRow) :
    isAuditOf [next] (replacedRow groupKey keepId next
        (leftRow before groupKey keepId removed row)) = true <->
      row.id ≠ next /\ isAudit row = true /\ next ∈ row.linkedTo := by
  have haudits : next ∉ auditsOf before removed :=
    hremoving.not_mem_audits (mem_append_right _ mem_cons_self) removed
  cases hkey : row.keyId with
  | some key => simp [isAuditOf, isAudit, replacedRow, leftRow, hkey]
  | none =>
    simp [isAuditOf, isAudit, refersTo, replacedRow, leftRow, settledReferences, hkey, haudits,
      hremoving.next_not_mem]
    tauto

/-- The records deleted with the next fragment are those about it that are left. -/
theorem mem_removalAudits_iff :
    id ∈ removalAudits after groupKey keepId next <->
      id ∈ auditsOf before (removed ++ [next]) /\ id ∉ auditsOf before removed := by
  constructor
  · intro hid
    obtain ⟨mid, hmid, rfl⟩ := exists_of_mem_removalAudits hid
    obtain ⟨_, haudit⟩ := (mem_removalAudits hmid).mp hid
    obtain ⟨source, hsource, hsettled⟩ := hremoving.mem_after.mp hmid
    obtain ⟨⟨_, hnew⟩, rfl⟩ := settledRow_eq_some.mp hsettled
    obtain ⟨_, hisAudit, hnext⟩ := (hremoving.isAuditOf_leftRow source).mp haudit
    refine ⟨mem_auditsOf.mpr ⟨source, hsource, rfl, hisAudit, next, hnext, ?_⟩, hnew⟩
    exact mem_append_right _ mem_cons_self
  · rintro ⟨hid, hnew⟩
    have hmember : id ∉ removed ++ [next] := fun hmem => hremoving.not_mem_audits hmem _ hid
    obtain ⟨source, hsource, rfl, hisAudit, name, hname, hmem⟩ := mem_auditsOf.mp hid
    obtain ⟨hremoved, hother⟩ := not_or.mp (fun h => hmember (mem_append.mpr h))
    have hnext : next ∈ source.linkedTo := by
      rcases mem_append.mp hmem with hold | hlast
      · exact absurd (mem_auditsOf.mpr ⟨source, hsource, rfl, hisAudit, name, hname, hold⟩) hnew
      · rw [<- mem_singleton.mp hlast]
        exact hname
    have hmid : leftRow before groupKey keepId removed source ∈ after :=
      hremoving.mem_after.mpr
        ⟨source, hsource, settledRow_eq_some.mpr ⟨⟨hremoved, hnew⟩, rfl⟩⟩
    have hne : source.id ≠ next := fun h => hother (mem_singleton.mpr h)
    exact (mem_removalAudits hmid).mpr
      ⟨hne, (hremoving.isAuditOf_leftRow source).mpr ⟨hne, hisAudit, hnext⟩⟩

omit hremoving in
theorem auditsOf_mono (hid : id ∈ auditsOf before removed) :
    id ∈ auditsOf before (removed ++ [next]) := by
  obtain ⟨row, hrow, hrowId, haudit, name, hname, hmem⟩ := mem_auditsOf.mp hid
  exact mem_auditsOf.mpr ⟨row, hrow, hrowId, haudit, name, hname, mem_append_left _ hmem⟩

theorem gone_iff :
    id ∈ auditsOf before (removed ++ [next]) <->
      id ∈ auditsOf before removed \/ id ∈ removalAudits after groupKey keepId next := by
  rw [hremoving.mem_removalAudits_iff]
  constructor
  · intro hid
    by_cases hold : id ∈ auditsOf before removed
    · exact .inl hold
    · exact Or.inr ⟨hid, hold⟩
  · rintro (hold | hnew)
    · exact auditsOf_mono hold
    · exact hnew.1

theorem references_settle (row : FragmentRow) :
    ((replacedRow groupKey keepId next
        (leftRow before groupKey keepId removed row)).linkedTo.filter fun id =>
          decide (id ∉ next :: removalAudits after groupKey keepId next)) =
      settledReferences before groupKey keepId (removed ++ [next]) row := by
  have hgone (id : String) : id ∈ auditsOf before (removed ++ [next]) <->
      id ∈ auditsOf before removed \/ id ∈ removalAudits after groupKey keepId next :=
    hremoving.gone_iff
  by_cases hkey : row.keyId = some groupKey
  · have hcollapse : collapse [next] keepId ∘ collapse removed keepId =
        collapse (removed ++ [next]) keepId :=
      funext (collapse_collapse removed next keepId)
    simp only [replacedRow, leftRow, settledReferences, hkey, if_true, map_map]
    rw [hcollapse, filter_map, filter_filter]
    refine congrArg (map _) (filter_congr fun id _ => ?_)
    by_cases hmem : id ∈ removed ++ [next]
    · -- the survivor stands for a removed fragment, and neither is an audit record
      have hkeep := not_or.mp fun h => hremoving.keep_not_mem_audits _ ((hgone keepId).mpr h)
      have hid := hremoving.not_mem_audits hmem
      simp [collapse_of_mem hmem, hid, hkeep.2, hremoving.keep_ne_next]
    · have hne : id ≠ next := fun h => hmem (mem_append_right _ (mem_singleton.mpr h))
      simp [collapse_of_not_mem hmem, hne, hgone, Bool.and_comm]
  · simp only [replacedRow, leftRow, settledReferences, hkey, if_false, filter_filter]
    refine filter_congr fun id _ => ?_
    by_cases hnext : id = next
    · simp [hnext]
    · simp [hgone, hnext, Bool.and_comm, Bool.and_assoc]

theorem removalRow_settledRow (row : FragmentRow) :
    (settledRow before groupKey keepId removed row).bind (removalRow after groupKey keepId next) =
      settledRow before groupKey keepId (removed ++ [next]) row := by
  by_cases hgone : row.id ∈ removed \/ row.id ∈ auditsOf before removed
  · have hafter : row.id ∈ removed ++ [next] \/ row.id ∈ auditsOf before (removed ++ [next]) := by
      rcases hgone with hremoved | haudit
      · exact .inl (mem_append_left _ hremoved)
      · exact .inr (auditsOf_mono haudit)
    rw [settledRow, if_pos hgone, settledRow, if_pos hafter]
    rfl
  · have hiff : row.id = next \/ row.id ∈ removalAudits after groupKey keepId next <->
        row.id ∈ removed ++ [next] \/ row.id ∈ auditsOf before (removed ++ [next]) := by
      rw [hremoving.gone_iff, mem_append, mem_singleton]
      tauto
    rw [settledRow, if_neg hgone, Option.bind_some, removalRow, settledRow]
    by_cases hnext : row.id = next \/ row.id ∈ removalAudits after groupKey keepId next
    · rw [if_pos (hiff.mp hnext)]
      exact if_pos hnext
    · rw [if_neg fun h => hnext (hiff.mpr h)]
      refine (if_neg hnext).trans ?_
      have hreferences := hremoving.references_settle row
      simp only [hreferences]
      rfl

theorem next_present : ∃ row ∈ after, row.id = next /\ row.keyId = some groupKey := by
  have hnext : next ∈ removed ++ [next] := mem_append_right _ mem_cons_self
  obtain ⟨row, hrow, hid, hkey⟩ := hremoving.members.present next (mem_cons_of_mem _ hnext)
  refine ⟨leftRow before groupKey keepId removed row, hremoving.mem_after.mpr ⟨row, hrow, ?_⟩,
    hid, hkey⟩
  rw [settledRow_eq_some, hid]
  exact ⟨⟨hremoving.next_not_mem, hremoving.not_mem_audits hnext removed⟩, rfl⟩

end

end Removing

theorem MembersPresent.front {groupKey : String} (front back : List String)
    (hmembers : MembersPresent rows groupKey (front ++ back)) :
    MembersPresent rows groupKey front where
  nodup := (nodup_append.mp hmembers.nodup).1
  present id hid := hmembers.present id (mem_append_left _ hid)

theorem mergedRows {store : Store} {groupKey keepId : String} {removed : List String}
    (hmembers : MembersPresent store.rows groupKey (keepId :: removed)) :
    (removed.foldl (mergeMember groupKey keepId) store).rows.rows =
      store.rows.rows.filterMap (settledRow store.rows groupKey keepId removed) := by
  induction removed using reverseRecOn with
  | nil =>
    have hsame : settledRow store.rows groupKey keepId [] = some := by
      funext row
      have hreferences : settledReferences store.rows groupKey keepId [] row = row.linkedTo := by
        unfold settledReferences
        rw [auditsOf_nil]
        split
        · simp [map_collapse_nil]
        · simp
      simp [settledRow, auditsOf_nil, leftRow, hreferences]
    rw [hsame]
    exact (filterMap_some).symm
  | append_singleton removed next ih =>
    have hprefix : MembersPresent store.rows groupKey (keepId :: removed) :=
      MembersPresent.front (keepId :: removed) [next] hmembers
    have hremoving : Removing store.rows (removed.foldl (mergeMember groupKey keepId) store).rows
        groupKey keepId removed next := ⟨ih hprefix, hmembers⟩
    rw [foldl_append, foldl_cons, foldl_nil,
      mergeMember_rows hremoving.next_present, ih hprefix, filterMap_filterMap]
    exact filterMap_congr fun row _ => hremoving.removalRow_settledRow row

variable {neighbor next : String}

theorem isActive_iff {stored : Option (LinkRow Rat)} :
    isActive stored = true <-> ∃ row, stored = some row /\ row.deletedAt = none := by
  simp [isActive, Option.any_eq_true, Option.isNone_iff_eq_none]

theorem isActive_writtenLinks (hkeep : keepId ∈ ids store.rows) (key : String × String) :
    isActive (writtenLinks store next keepId key) = true <->
      isActive (store.links key) = true \/
        (key.1 ≠ key.2 /\ ∃ link ∈ activeLinks store next,
          (renamed next keepId link.1.1, renamed next keepId link.1.2) = key) := by
  obtain ⟨written, hwritten, hrows⟩ :=
    createLinks_rows OrderHom.id (bothExist store.rows) store.links (movedLinks_accepted hkeep)
  rw [<- mem_movedLinks, <- requestsFor_ne_nil_iff, writtenLinks, hwritten]
  show isActive (written key) = true <-> _
  by_cases hrequests : requestsFor (movedLinks store next keepId) key = []
  · rw [(hrows key).1 hrequests]
    simp [hrequests]
  · have hactive := isActive_iff.mpr ((hrows key).2 hrequests)
    simp [hrequests, hactive]

def linkKey (outward : Bool) (member neighbor : String) : String × String :=
  if outward then (member, neighbor) else (neighbor, member)

theorem renamed_eq_neighbor (hneighbor : neighbor ≠ keepId)
    (hrenamed : renamed next keepId id = neighbor) : id = neighbor := by
  unfold renamed at hrenamed
  split at hrenamed
  · exact absurd hrenamed.symm hneighbor
  · exact hrenamed

theorem isActive_written_neighbor (hkeep : keepId ∈ ids store.rows) (outward : Bool)
    {member : String} (hneighbor : neighbor ≠ keepId) (hother : neighbor ≠ next)
    (hne : member ≠ neighbor) :
    isActive (writtenLinks store next keepId (linkKey outward member neighbor)) = true <->
      isActive (store.links (linkKey outward member neighbor)) = true \/
        (member = keepId /\ isActive (store.links (linkKey outward next neighbor)) = true) := by
  rw [isActive_writtenLinks hkeep]
  refine or_congr Iff.rfl ?_
  constructor
  · rintro ⟨_, ⟨⟨fromId, toId⟩, row⟩, hlink, hkey⟩
    obtain ⟨hend, hstored, hactive⟩ := mem_activeLinks.mp hlink
    cases outward with
    | true =>
      obtain ⟨hfrom, hto⟩ := Prod.mk.inj hkey
      have hneighborEnd : toId = neighbor := renamed_eq_neighbor hneighbor hto
      have hnext : fromId = next := hend.resolve_right fun h => hother (hneighborEnd ▸ h)
      subst hnext hneighborEnd
      exact ⟨hfrom.symm.trans (if_pos rfl), isActive_iff.mpr ⟨row, hstored, hactive⟩⟩
    | false =>
      obtain ⟨hfrom, hto⟩ := Prod.mk.inj hkey
      have hneighborEnd : fromId = neighbor := renamed_eq_neighbor hneighbor hfrom
      have hnext : toId = next := hend.resolve_left fun h => hother (hneighborEnd ▸ h)
      subst hnext hneighborEnd
      exact ⟨hto.symm.trans (if_pos rfl), isActive_iff.mpr ⟨row, hstored, hactive⟩⟩
  · rintro ⟨rfl, hactive⟩
    obtain ⟨row, hstored, hdeleted⟩ := isActive_iff.mp hactive
    have hself : renamed next member next = member := if_pos rfl
    have hkept : renamed next member neighbor = neighbor := if_neg hother
    cases outward with
    | true =>
      exact ⟨hne, ((next, neighbor), row),
        mem_activeLinks.mpr ⟨.inl rfl, hstored, hdeleted⟩, by simp [linkKey, hself, hkept]⟩
    | false =>
      exact ⟨hne.symm, ((neighbor, next), row),
        mem_activeLinks.mpr ⟨.inr rfl, hstored, hdeleted⟩, by simp [linkKey, hself, hkept]⟩

theorem mem_ids_deleteWhere {select : FragmentRow -> Bool} (hid : id ∈ ids rows) :
    id ∈ ids (rows.deleteWhere select) <->
      ∀ row ∈ rows, select row = true -> row.id ≠ id := by
  obtain ⟨row, hrow, rfl⟩ := mem_map.mp hid
  constructor
  · intro hleft other hother hselect hsame
    obtain ⟨left, hleft, hleftId⟩ := mem_map.mp hleft
    obtain ⟨hmem, hkept⟩ := Table.mem_deleteWhere.mp hleft
    have hequal : other = left := Table.eq_of_key_eq hother hmem (hsame.trans hleftId.symm)
    rw [<- hequal, hselect] at hkept
    cases hkept
  · intro hdeleted
    refine mem_map.mpr ⟨row, Table.mem_deleteWhere.mpr ⟨hrow, ?_⟩, rfl⟩
    exact eq_false_of_ne_true fun hselect => hdeleted row hrow hselect rfl

theorem isActive_deleteWhere (store : Store) (select : FragmentRow -> Bool)
    (key : String × String) :
    isActive ((store.deleteWhere select).links key) = true <->
      isActive (store.links key) = true /\
        ∀ row ∈ store.rows, select row = true -> row.id ≠ key.1 /\ row.id ≠ key.2 := by
  cases hstored : store.links key with
  | none => simp [Store.deleteWhere, hstored, isActive]
  | some stored =>
    have hends := store.linksFragments key (by rw [hstored]; exact Option.some_ne_none _)
    have hleft : key.1 ∈ ids (store.rows.deleteWhere select) /\
        key.2 ∈ ids (store.rows.deleteWhere select) <->
        ∀ row ∈ store.rows, select row = true ->
          row.id ≠ key.1 /\ row.id ≠ key.2 := by
      rw [mem_ids_deleteWhere hends.1, mem_ids_deleteWhere hends.2]
      exact ⟨fun h row hrow hselect => ⟨h.1 row hrow hselect, h.2 row hrow hselect⟩,
        fun h => ⟨fun row hrow hselect => (h row hrow hselect).1,
          fun row hrow hselect => (h row hrow hselect).2⟩⟩
    rw [<- hleft, Store.deleteWhere]
    by_cases hkept : key.1 ∈ ids (store.rows.deleteWhere select) /\
        key.2 ∈ ids (store.rows.deleteWhere select)
    · simp [hkept, hstored]
    · simp only [if_neg hkept]
      simp [isActive, hkept]

theorem isActive_dropLinks (store : Store) (removedIds : List String) (key : String × String) :
    isActive ((store.dropLinks removedIds).links key) = true <->
      isActive (store.links key) = true /\ key.1 ∉ removedIds /\ key.2 ∉ removedIds := by
  rw [Store.dropLinks]
  by_cases hends : key.1 ∈ removedIds \/ key.2 ∈ removedIds
  · simp only [if_pos hends]
    obtain hfrom | hto := hends <;> simp [isActive, *]
  · simp only [if_neg hends]
    simp [not_or.mp hends]

theorem isActive_mergeMember
    (hpresent : ∃ row ∈ store.rows, row.id = next /\ row.keyId = some groupKey)
    (key : String × String) :
    isActive ((mergeMember groupKey keepId store next).links key) = true <->
      isActive (writtenLinks (store.update (replaceReference next keepId groupKey)) next keepId
          key) = true /\
        key.1 ∉ next :: removalAudits store.rows groupKey keepId next /\
        key.2 ∉ next :: removalAudits store.rows groupKey keepId next := by
  let written := moveLinksToSurvivor (store.update (replaceReference next keepId groupKey)) next
    keepId
  have hlinks : (mergeMember groupKey keepId store next).links =
      (((written.deleteWhere fun row => decide (row.id = next)).deleteWhere
        (isAuditOf [next])).dropLinks
          (next :: removalAudits store.rows groupKey keepId next)).links := by
    rw [mergeMember_eq hpresent]
    rfl
  rw [hlinks, isActive_dropLinks, isActive_deleteWhere, isActive_deleteWhere]
  constructor
  · rintro ⟨⟨⟨hactive, _⟩, _⟩, hends⟩
    exact ⟨hactive, hends⟩
  · rintro ⟨hactive, hends⟩
    refine ⟨⟨⟨hactive, fun row _ hselect => ?_⟩, fun row hrow hselect => ?_⟩, hends⟩
    · rw [of_decide_eq_true hselect]
      exact ⟨(ne_of_not_mem_cons hends.1).symm, (ne_of_not_mem_cons hends.2).symm⟩
    · have haudit : row.id ∈ removalAudits store.rows groupKey keepId next :=
        mem_map.mpr ⟨row, mem_filter.mpr ⟨hrow, hselect⟩, rfl⟩
      constructor
      · intro hsame
        exact hends.1 (mem_cons_of_mem _ (hsame ▸ haudit))
      · intro hsame
        exact hends.2 (mem_cons_of_mem _ (hsame ▸ haudit))

theorem Removing.keep_mem {before after : Rows}
    (hremoving : Removing before after groupKey keepId removed next) : keepId ∈ ids after := by
  obtain ⟨row, hrow, hid, _⟩ := hremoving.members.present keepId mem_cons_self
  refine mem_map.mpr ⟨leftRow before groupKey keepId removed row,
    hremoving.mem_after.mpr ⟨row, hrow, settledRow_eq_some.mpr ⟨?_, rfl⟩⟩, hid⟩
  rw [hid]
  refine ⟨fun hmem => ?_, hremoving.keep_not_mem_audits removed⟩
  exact (nodup_cons.mp hremoving.members.nodup).1 (mem_append_left _ hmem)

/-- The links of the members that are left with a neighbour: the survivor has those of the
removed members too, unless the neighbour went with them. -/
theorem isActive_merged (rest : List String) (outward : Bool)
    (hmembers : MembersPresent store.rows groupKey (keepId :: (removed ++ rest)))
    (hneighbor : neighbor ∉ keepId :: (removed ++ rest)) {member : String}
    (hmember : member ∈ keepId :: rest) :
    isActive ((removed.foldl (mergeMember groupKey keepId) store).links
        (linkKey outward member neighbor)) = true <->
      neighbor ∉ auditsOf store.rows removed /\
        (isActive (store.links (linkKey outward member neighbor)) = true \/
          (member = keepId /\ ∃ gone ∈ removed,
            isActive (store.links (linkKey outward gone neighbor)) = true)) := by
  induction removed using reverseRecOn generalizing rest member with
  | nil => simp [auditsOf_nil]
  | append_singleton removed next ih =>
    have hfront : MembersPresent store.rows groupKey (keepId :: (removed ++ [next])) :=
      MembersPresent.front (keepId :: (removed ++ [next])) rest hmembers
    have hbefore : MembersPresent store.rows groupKey (keepId :: removed) :=
      MembersPresent.front (keepId :: removed) [next] hfront
    have hremoving : Removing store.rows (removed.foldl (mergeMember groupKey keepId) store).rows
        groupKey keepId removed next := ⟨mergedRows hbefore, hfront⟩
    have hnotNext : member ≠ next := by
      rintro rfl
      rcases mem_cons.mp hmember with hkeep | hrest
      · exact hremoving.keep_ne_next hkeep.symm
      · have hnodup := (nodup_cons.mp hmembers.nodup).2
        exact (nodup_append.mp hnodup).2.2 member (by simp) member hrest rfl
    rw [append_assoc, singleton_append] at hmembers hneighbor
    have hmemberGroup : member ∈ keepId :: (removed ++ next :: rest) := by
      simp only [mem_cons, mem_append] at hmember ⊢
      tauto
    have hneighborKeep : neighbor ≠ keepId := fun h => hneighbor (by simp [h])
    have hneighborNext : neighbor ≠ next := fun h => hneighbor (by simp [h])
    have hne : member ≠ neighbor := fun h => hneighbor (h ▸ hmemberGroup)
    have hkeepIds : keepId ∈ ids ((removed.foldl (mergeMember groupKey keepId) store).update
        (replaceReference next keepId groupKey)).rows := by
      rw [Store.update, ids_apply]
      exact hremoving.keep_mem
    have hmemberLeft : member ∉ next :: removalAudits
        (removed.foldl (mergeMember groupKey keepId) store).rows groupKey keepId next := by
      refine not_mem_cons_of_ne_of_not_mem hnotNext fun haudit => ?_
      exact not_mem_auditsOf hmembers hmemberGroup (hremoving.gone_iff.mpr (.inr haudit))
    have hends : (linkKey outward member neighbor).1 ∉ next :: removalAudits
          (removed.foldl (mergeMember groupKey keepId) store).rows groupKey keepId next /\
        (linkKey outward member neighbor).2 ∉ next :: removalAudits
          (removed.foldl (mergeMember groupKey keepId) store).rows groupKey keepId next <->
        neighbor ∉ removalAudits
          (removed.foldl (mergeMember groupKey keepId) store).rows groupKey keepId next := by
      cases outward <;> simp [linkKey, hmemberLeft, hneighborNext]
    rw [foldl_append, foldl_cons, foldl_nil,
      isActive_mergeMember hremoving.next_present, hends,
      isActive_written_neighbor hkeepIds outward hneighborKeep hneighborNext hne]
    show (isActive ((removed.foldl (mergeMember groupKey keepId) store).links _) = true \/
      (_ /\ isActive ((removed.foldl (mergeMember groupKey keepId) store).links _) = true)) /\
        _ <-> _
    have hmemberLater : member ∈ keepId :: next :: rest := by
      simp only [mem_cons] at hmember ⊢
      tauto
    rw [ih (next :: rest) hmembers hneighbor hmemberLater,
      ih (next :: rest) hmembers hneighbor (by simp), hremoving.gone_iff]
    have hkeepNext : ¬ next = keepId := hremoving.keep_ne_next.symm
    have hgone : (∃ gone ∈ removed ++ [next],
          isActive (store.links (linkKey outward gone neighbor)) = true) <->
        (∃ gone ∈ removed,
          isActive (store.links (linkKey outward gone neighbor)) = true) \/
        isActive (store.links (linkKey outward next neighbor)) = true := by
      simp only [mem_append, mem_singleton, or_and_right, exists_or, exists_eq_left]
    rw [hgone, not_or]
    generalize isActive (store.links (linkKey outward next neighbor)) = there
    generalize (∃ gone ∈ removed,
      isActive (store.links (linkKey outward gone neighbor)) = true) = earlier
    constructor
    · rintro ⟨⟨hold, hhere | ⟨hkept, hearlier⟩⟩ | ⟨hkept, hold, hthere | ⟨hsame, _⟩⟩, hnew⟩
      · exact ⟨⟨hold, hnew⟩, .inl hhere⟩
      · exact ⟨⟨hold, hnew⟩, Or.inr ⟨hkept, .inl hearlier⟩⟩
      · exact ⟨⟨hold, hnew⟩, Or.inr ⟨hkept, .inr hthere⟩⟩
      · exact absurd hsame hkeepNext
    · rintro ⟨⟨hold, hnew⟩, hhere | ⟨hkept, hearlier | hthere⟩⟩
      · exact ⟨Or.inl ⟨hold, .inl hhere⟩, hnew⟩
      · exact ⟨Or.inl ⟨hold, Or.inr ⟨hkept, hearlier⟩⟩, hnew⟩
      · exact ⟨Or.inr ⟨hkept, hold, .inl hthere⟩, hnew⟩

end AnchorMind.Consolidate.DuplicateGroups
