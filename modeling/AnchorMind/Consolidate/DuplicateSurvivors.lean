import AnchorMind.Consolidate.DuplicateMerge

/-!
# When a survivor takes the place of its duplicates

The survivor of a group is the fragment of the highest importance, and the oldest one among
these.  It takes the place of the others when it is live and an anchor as they were, has their
links, and stands for them in the references.
-/

namespace AnchorMind.Consolidate.DuplicateGroups

open Kernel.Collapse Kernel.KeyedTable List

structure TakesPlace (before after : Store) (keepId : String) (removed : List String) : Prop where
  live : (∃ row ∈ before.rows, row.id ∈ keepId :: removed /\ row.validTo = none) ->
    ∃ kept ∈ after.rows, kept.id = keepId /\ kept.validTo = none
  anchor : (∃ row ∈ before.rows, row.id ∈ keepId :: removed /\ row.isAnchor = true) ->
    ∃ kept ∈ after.rows, kept.id = keepId /\ kept.isAnchor = true
  links : ∀ outward member neighbor, member ∈ keepId :: removed ->
    neighbor ∉ keepId :: removed ->
    isActive (before.links (linkKey outward member neighbor)) = true ->
      isActive (after.links (linkKey outward keepId neighbor)) = true
  references : ∀ row ∈ after.rows, row.linkedTo.Nodup /\ row.id ∉ row.linkedTo /\
    ∀ id ∈ removed, id ∉ row.linkedTo

def lastingReferences (rows : Rows) (removed : List String) (row : FragmentRow) : List String :=
  row.linkedTo.filter fun id => decide (id ∉ auditsOf rows removed)

/-- The references of a row of the key have no repetition and name the group at most once, and
those of a row of another key are free of repetitions without the removed fragments.  No row
refers to itself, and the survivor to no member. -/
def CleanReferences (rows : Rows) (groupKey keepId : String) (removed : List String)
    (row : FragmentRow) : Prop :=
  let entries := lastingReferences rows removed row
  row.id ∉ entries /\
    if row.keyId = some groupKey then
      (entries.filter fun id => decide (id ∉ keepId :: removed)).Nodup /\
        (entries.filter fun id => decide (id ∈ keepId :: removed)).length ≤ 1 /\
        (row.id = keepId -> ∀ id ∈ entries, id ∉ keepId :: removed)
    else (entries.filter fun id => decide (id ∉ removed)).Nodup

structure CanTakePlace (store : Store) (groupKey keepId : String) (removed : List String) :
    Prop where
  live : (∃ row ∈ store.rows, row.id ∈ keepId :: removed /\ row.validTo = none) ->
    ∃ kept ∈ store.rows, kept.id = keepId /\ kept.validTo = none
  anchor : (∃ row ∈ store.rows, row.id ∈ keepId :: removed /\ row.isAnchor = true) ->
    ∃ kept ∈ store.rows, kept.id = keepId /\ kept.isAnchor = true
  /-- The audit records about the fragments to remove have no links with the group. -/
  audits : ∀ outward member audit, member ∈ keepId :: removed -> audit ∈ store.rows ->
    isAudit audit = true -> refersTo removed audit = true ->
      isActive (store.links (linkKey outward member audit.id)) = false
  references : ∀ row ∈ store.rows, row.id ∉ removed ->
    ¬ (isAudit row = true /\ refersTo removed row = true) ->
      CleanReferences store.rows groupKey keepId removed row

variable {store : Store} {groupKey keepId : String} {removed : List String} {row : FragmentRow}

theorem isAudit_refersTo_iff {rows : Rows} (hrow : row ∈ rows) :
    row.id ∈ auditsOf rows removed <-> isAudit row = true /\ refersTo removed row = true := by
  constructor
  · intro haudit
    obtain ⟨audit, haudit, hid⟩ := mem_map.mp haudit
    obtain ⟨hmem, hselect⟩ := mem_filter.mp haudit
    rw [<- Table.eq_of_key_eq hmem hrow hid]
    exact Bool.and_eq_true_iff.mp hselect
  · intro hselect
    exact mem_map.mpr
      ⟨row, mem_filter.mpr ⟨hrow, Bool.and_eq_true_iff.mpr hselect⟩, rfl⟩

section

variable (hmembers : MembersPresent store.rows groupKey (keepId :: removed))
include hmembers

theorem mem_merged :
    row ∈ (removed.foldl (mergeMember groupKey keepId) store).rows <->
      ∃ source ∈ store.rows, source.id ∉ removed /\
        source.id ∉ auditsOf store.rows removed /\
        row = leftRow store.rows groupKey keepId removed source := by
  rw [Table.mem_def, mergedRows hmembers, mem_filterMap]
  simp only [settledRow_eq_some, and_assoc]
  rfl

/-- What the removals leave as it is about the survivor. -/
theorem exists_kept_iff (holds : FragmentRow -> Prop)
    (hholds : ∀ row, holds (leftRow store.rows groupKey keepId removed row) <-> holds row) :
    (∃ kept ∈ (removed.foldl (mergeMember groupKey keepId) store).rows,
        kept.id = keepId /\ holds kept) <->
      ∃ kept ∈ store.rows, kept.id = keepId /\ holds kept := by
  constructor
  · rintro ⟨kept, hkept, hid, hkeptHolds⟩
    obtain ⟨source, hsource, _, _, rfl⟩ := (mem_merged hmembers).mp hkept
    exact ⟨source, hsource, hid, (hholds source).mp hkeptHolds⟩
  · rintro ⟨source, hsource, rfl, hsourceHolds⟩
    refine ⟨_, (mem_merged hmembers).mpr ⟨source, hsource, ?_, ?_, rfl⟩, rfl,
      (hholds source).mpr hsourceHolds⟩
    · exact (nodup_cons.mp hmembers.nodup).1
    · exact not_mem_auditsOf hmembers mem_cons_self

theorem links_iff :
    (∀ outward member neighbor, member ∈ keepId :: removed ->
      neighbor ∉ keepId :: removed ->
      isActive (store.links (linkKey outward member neighbor)) = true ->
        isActive ((removed.foldl (mergeMember groupKey keepId) store).links
          (linkKey outward keepId neighbor)) = true) <->
      ∀ outward member audit, member ∈ keepId :: removed -> audit ∈ store.rows ->
        isAudit audit = true -> refersTo removed audit = true ->
          isActive (store.links (linkKey outward member audit.id)) = false := by
  have hmerged (outward : Bool) {neighbor : String} (hneighbor : neighbor ∉ keepId :: removed) :
      isActive ((removed.foldl (mergeMember groupKey keepId) store).links
          (linkKey outward keepId neighbor)) = true <->
        neighbor ∉ auditsOf store.rows removed /\
          (isActive (store.links (linkKey outward keepId neighbor)) = true \/
            (keepId = keepId /\ ∃ gone ∈ removed,
              isActive (store.links (linkKey outward gone neighbor)) = true)) :=
    isActive_merged [] outward (by rwa [append_nil]) (by rwa [append_nil])
      mem_cons_self
  constructor
  · intro hlinks outward member audit hmember haudit hisAudit hrefers
    have hgone : audit.id ∈ auditsOf store.rows removed :=
      (isAudit_refersTo_iff haudit).mpr ⟨hisAudit, hrefers⟩
    have hneighbor : audit.id ∉ keepId :: removed :=
      fun hmem => not_mem_auditsOf hmembers hmem hgone
    refine eq_false_of_ne_true fun hactive => ?_
    exact ((hmerged outward hneighbor).mp
      (hlinks outward member audit.id hmember hneighbor hactive)).1 hgone
  · intro haudits outward member neighbor hmember hneighbor hactive
    refine (hmerged outward hneighbor).mpr ⟨fun hgone => ?_, ?_⟩
    · obtain ⟨audit, haudit, rfl⟩ := mem_map.mp hgone
      obtain ⟨hmem, hselect⟩ := mem_filter.mp haudit
      obtain ⟨hisAudit, hrefers⟩ := Bool.and_eq_true_iff.mp hselect
      rw [haudits outward member audit hmember hmem hisAudit hrefers] at hactive
      cases hactive
    · rcases mem_cons.mp hmember with rfl | hremoved
      · exact .inl hactive
      · exact Or.inr ⟨rfl, member, hremoved, hactive⟩

omit hmembers in
theorem settledReferences_iff (row : FragmentRow) (hrow : row.id ∉ removed) :
    let left := settledReferences store.rows groupKey keepId removed row
    (left.Nodup /\ row.id ∉ left) <-> CleanReferences store.rows groupKey keepId removed row := by
  show (settledReferences store.rows groupKey keepId removed row).Nodup /\
    row.id ∉ settledReferences store.rows groupKey keepId removed row <-> _
  unfold settledReferences CleanReferences
  change (if row.keyId = some groupKey then
      (lastingReferences store.rows removed row).map (collapse removed keepId)
    else (lastingReferences store.rows removed row).filter fun id => decide (id ∉ removed)).Nodup /\
    row.id ∉ (if row.keyId = some groupKey then
      (lastingReferences store.rows removed row).map (collapse removed keepId)
    else (lastingReferences store.rows removed row).filter fun id => decide (id ∉ removed)) <-> _
  generalize lastingReferences store.rows removed row = entries
  by_cases hkey : row.keyId = some groupKey
  · simp only [if_pos hkey]
    rw [<- collapse_cons_self, nodup_map_collapse_iff mem_cons_self,
      mem_map_collapse mem_cons_self]
    constructor
    · rintro ⟨⟨hnodup, hone⟩, hself⟩
      obtain ⟨hkeep, hother⟩ := not_or.mp hself
      have hnone : row.id = keepId -> ∀ id ∈ entries, id ∉ keepId :: removed :=
        fun hid id hentry hmem => hkeep ⟨hid, id, hentry, hmem⟩
      refine ⟨fun hentry => ?_, hnodup, hone, hnone⟩
      by_cases hid : row.id = keepId
      · exact hnone hid row.id hentry (hid ▸ mem_cons_self)
      · exact hother ⟨not_mem_cons_of_ne_of_not_mem hid hrow, hentry⟩
    · rintro ⟨hself, hnodup, hone, hnone⟩
      refine ⟨⟨hnodup, hone⟩, ?_⟩
      rintro (⟨hid, id, hentry, hmem⟩ | ⟨_, hentry⟩)
      · exact hnone hid id hentry hmem
      · exact hself hentry
  · simp only [if_neg hkey]
    rw [mem_filter, and_comm]
    refine and_congr_left fun _ => not_congr ?_
    exact ⟨fun hmem => hmem.1, fun hmem => ⟨hmem, decide_eq_true hrow⟩⟩

omit hmembers in
theorem not_mem_settledReferences (hkeep : keepId ∉ removed) (row : FragmentRow) {id : String}
    (hid : id ∈ removed) : id ∉ settledReferences store.rows groupKey keepId removed row := by
  unfold settledReferences
  by_cases hkey : row.keyId = some groupKey
  · simp only [if_pos hkey]
    rw [<- collapse_cons_self, mem_map_collapse mem_cons_self]
    rintro (⟨rfl, _⟩ | ⟨hother, _⟩)
    · exact hkeep hid
    · exact hother (mem_cons_of_mem _ hid)
  · simp only [if_neg hkey]
    rw [mem_filter, decide_eq_true_eq]
    exact fun hmem => hmem.2 hid

theorem references_iff :
    (∀ row ∈ (removed.foldl (mergeMember groupKey keepId) store).rows,
      row.linkedTo.Nodup /\ row.id ∉ row.linkedTo /\
        ∀ id ∈ removed, id ∉ row.linkedTo) <->
      ∀ row ∈ store.rows, row.id ∉ removed ->
        ¬ (isAudit row = true /\ refersTo removed row = true) ->
          CleanReferences store.rows groupKey keepId removed row := by
  constructor
  · intro hclean row hrow hkept haudit
    have hleft := hclean _ ((mem_merged hmembers).mpr
      ⟨row, hrow, hkept, fun hgone => haudit ((isAudit_refersTo_iff hrow).mp hgone), rfl⟩)
    exact (settledReferences_iff row hkept).mp ⟨hleft.1, hleft.2.1⟩
  · intro hclean row hrow
    obtain ⟨source, hsource, hkept, haudit, rfl⟩ := (mem_merged hmembers).mp hrow
    have hsettled := (settledReferences_iff source hkept).mpr
      (hclean source hsource hkept fun hgone =>
        haudit ((isAudit_refersTo_iff hsource).mpr hgone))
    refine ⟨hsettled.1, hsettled.2, fun id hid => ?_⟩
    exact not_mem_settledReferences (nodup_cons.mp hmembers.nodup).1 source hid

theorem takesPlace_iff :
    TakesPlace store (removed.foldl (mergeMember groupKey keepId) store) keepId removed <->
      CanTakePlace store groupKey keepId removed := by
  have hlive := exists_kept_iff hmembers (fun row => row.validTo = none) fun _ => Iff.rfl
  have hanchor := exists_kept_iff hmembers (fun row => row.isAnchor = true) fun _ => Iff.rfl
  constructor
  · intro hplace
    exact ⟨fun hmember => hlive.mp (hplace.live hmember),
      fun hmember => hanchor.mp (hplace.anchor hmember), (links_iff hmembers).mp hplace.links,
      (references_iff hmembers).mp hplace.references⟩
  · intro hcan
    exact ⟨fun hmember => hlive.mpr (hcan.live hmember),
      fun hmember => hanchor.mpr (hcan.anchor hmember), (links_iff hmembers).mpr hcan.audits,
      (references_iff hmembers).mpr hcan.references⟩

end

structure GroupThere (rows : Rows) (group : Group) : Prop where
  nodup : group.ids.Nodup
  present : ∀ id ∈ group.ids,
    ∃ row ∈ rows, row.id = id /\ inGroup group row = true

section

variable {rows : Rows} {run : Run} {group other : Group} {keepId : String} {removed : List String}

theorem inGroup_iff :
    inGroup group row = true <->
      row.keyId = some group.keyId /\ row.workspace = group.workspace /\
        row.contentHash = group.contentHash := by
  simp [inGroup, and_assoc]

theorem IsDuplicateGroup.groupThere (hgroup : IsDuplicateGroup rows group) :
    GroupThere rows group := by
  obtain ⟨_, members, hperm, _, hids⟩ := hgroup
  refine ⟨?_, fun id hid => ?_⟩
  · rw [hids]
    refine ((hperm.map FragmentRow.id).nodup_iff).mpr ?_
    exact rows.keysNodup.sublist (filter_sublist.map FragmentRow.id)
  · rw [hids] at hid
    obtain ⟨row, hrow, rfl⟩ := mem_map.mp hid
    obtain ⟨hmem, hin⟩ := mem_filter.mp (hperm.mem_iff.mp hrow)
    exact ⟨row, hmem, rfl, hin⟩

namespace GroupThere

theorem members (hthere : GroupThere rows group) (hids : group.ids = keepId :: removed) :
    MembersPresent rows group.keyId (keepId :: removed) where
  nodup := hids ▸ hthere.nodup
  present id hid := by
    obtain ⟨row, hrow, hrowId, hin⟩ := hthere.present id (hids ▸ hid)
    exact ⟨row, hrow, hrowId, (inGroup_iff.mp hin).1⟩

theorem scopeMismatch_eq (hthere : GroupThere rows group) : scopeMismatch rows group = false := by
  refine eq_false_of_ne_true fun hmismatch => ?_
  obtain ⟨row, hrow, hselect⟩ := any_eq_true.mp hmismatch
  obtain ⟨hid, hscope⟩ := Bool.and_eq_true_iff.mp hselect
  obtain ⟨member, hmember, hmemberId, hin⟩ := hthere.present row.id (of_decide_eq_true hid)
  obtain ⟨hkey, hworkspace, _⟩ := inGroup_iff.mp hin
  rw [<- Table.eq_of_key_eq hmember hrow hmemberId, hkey, hworkspace] at hscope
  simp at hscope

theorem mergeGroup_store (hthere : GroupThere run.store.rows group)
    (hids : group.ids = keepId :: removed) :
    (mergeGroup run group).store = removed.foldl (mergeMember group.keyId keepId) run.store := by
  rw [mergeGroup, hthere.scopeMismatch_eq, hids]
  rfl

theorem disjoint (hthere : GroupThere rows group) (hother : GroupThere rows other)
    (hscope : group.scope ≠ other.scope) {id : String} (hid : id ∈ group.ids) : id ∉ other.ids := by
  intro hidOther
  obtain ⟨row, hrow, hrowId, hin⟩ := hthere.present id hid
  obtain ⟨otherRow, hotherRow, hotherId, hinOther⟩ := hother.present id hidOther
  rw [<- Table.eq_of_key_eq hrow hotherRow (hrowId.trans hotherId.symm)] at hinOther
  obtain ⟨hkey, hworkspace, hhash⟩ := inGroup_iff.mp hin
  obtain ⟨hkeyOther, hworkspaceOther, hhashOther⟩ := inGroup_iff.mp hinOther
  refine hscope (Prod.ext ?_ (Prod.ext ?_ ?_))
  · exact Option.some.inj (hkey.symm.trans hkeyOther)
  · exact hworkspace.symm.trans hworkspaceOther
  · exact hhash.symm.trans hhashOther

theorem mergeGroup (hthere : GroupThere run.store.rows group)
    (hother : GroupThere run.store.rows other) (hscope : other.scope ≠ group.scope) :
    GroupThere (mergeGroup run group).store.rows other := by
  refine ⟨hother.nodup, fun id hid => ?_⟩
  obtain ⟨row, hrow, hrowId, hin⟩ := hother.present id hid
  cases hids : group.ids with
  | nil =>
    have hsame : (DuplicateGroups.mergeGroup run group).store = run.store := by
      rw [DuplicateGroups.mergeGroup, hthere.scopeMismatch_eq, hids]
      rfl
    rw [hsame]
    exact ⟨row, hrow, hrowId, hin⟩
  | cons keepId removed =>
    have hmembers := hthere.members hids
    rw [hthere.mergeGroup_store hids]
    refine ⟨_, (mem_merged hmembers).mpr ⟨row, hrow, ?_, ?_, rfl⟩, hrowId, hin⟩
    · intro hremoved
      refine hother.disjoint hthere hscope hid ?_
      rw [hids, <- hrowId]
      exact mem_cons_of_mem _ hremoved
    · intro haudit
      obtain ⟨hisAudit, _⟩ := (isAudit_refersTo_iff hrow).mp haudit
      rw [isAudit, (inGroup_iff.mp hin).1] at hisAudit
      exact Bool.false_ne_true hisAudit

theorem reached {groups : List Group} (hgroup : GroupThere run.store.rows group)
    (hgroups : ∀ earlier ∈ groups, GroupThere run.store.rows earlier)
    (hdistinct : ((groups ++ [group]).map Group.scope).Nodup) :
    GroupThere (groups.foldl DuplicateGroups.mergeGroup run).store.rows group := by
  induction groups generalizing run with
  | nil => exact hgroup
  | cons first rest ih =>
    rw [cons_append, map_cons, nodup_cons] at hdistinct
    have hlater : ∀ later ∈ rest ++ [group], later.scope ≠ first.scope :=
      fun later hlater hsame =>
        hdistinct.1 (mem_map.mpr ⟨later, hlater, hsame⟩)
    have hfirst := hgroups first mem_cons_self
    refine ih (hfirst.mergeGroup hgroup (hlater group (by simp))) (fun later hmem => ?_)
      hdistinct.2
    exact hfirst.mergeGroup (hgroups later (mem_cons_of_mem _ hmem))
      (hlater later (mem_append_left _ hmem))

end GroupThere

def GroupTakesPlace (before after : Store) (group : Group) : Prop :=
  ∀ keepId removed, group.ids = keepId :: removed -> TakesPlace before after keepId removed

def GroupCanTakePlace (store : Store) (group : Group) : Prop :=
  ∀ keepId removed, group.ids = keepId :: removed ->
    CanTakePlace store group.keyId keepId removed

/-- In a run, the survivor of a group takes the place of its duplicates exactly when the state
in which the group is reached allows it. -/
theorem mergeDuplicates_takes_place_iff (store : Store) (groups : List Group)
    (hquery : DuplicatesQuery store.rows groups) (before : List Group) (group : Group)
    (after : List Group) (hgroups : groups = before ++ group :: after) :
    GroupTakesPlace (mergeDuplicates store before).store
        (mergeDuplicates store (before ++ [group])).store group <->
      GroupCanTakePlace (mergeDuplicates store before).store group := by
  have hthere (member : Group) (hmember : member ∈ groups) : GroupThere store.rows member :=
    (hquery.duplicates member hmember).groupThere
  have hmem : group ∈ groups := by
    rw [hgroups]
    simp
  have hdistinct : ((before ++ [group]).map Group.scope).Nodup := by
    have hall := hquery.distinct
    rw [hgroups, <- singleton_append, <- append_assoc, map_append] at hall
    exact (nodup_append.mp hall).1
  have hreached : GroupThere (mergeDuplicates store before).store.rows group := by
    have hstart : GroupThere (Run.mk store 0).store.rows group := hthere group hmem
    refine hstart.reached (fun earlier hearlier => ?_) hdistinct
    refine hthere earlier ?_
    rw [hgroups]
    exact mem_append_left _ hearlier
  have hstep : mergeDuplicates store (before ++ [group]) =
      mergeGroup (mergeDuplicates store before) group := by
    rw [mergeDuplicates, foldl_append]
    rfl
  rw [hstep]
  refine forall₂_congr fun keepId removed => imp_congr_right fun hids => ?_
  rw [hreached.mergeGroup_store hids]
  exact takesPlace_iff (hreached.members hids)

end

def duplicateRow (id : String) (importance : Rat) (validTo : Option Nat) (isAnchor : Bool)
    (linkedTo : List String) : FragmentRow where
  id := id
  keyId := some "key"
  workspace := none
  contentHash := "hash"
  importance := importance
  createdAt := some 0
  validTo := validTo
  isAnchor := isAnchor
  topic := "notes"
  linkedTo := linkedTo

def twoStore (validTo : Option Nat) (isAnchor : Bool) (linkedTo : List String) : Store where
  rows :=
    { rows := [duplicateRow "first" (9 / 10) validTo isAnchor linkedTo,
        duplicateRow "second" (1 / 2) none true []]
      keysNodup := by
        show ["first", "second"].Nodup
        decide
      checked := by
        intro row hrow
        rcases mem_cons.mp hrow with rfl | hrow
        · show "first" ≠ ""
          decide
        · rw [mem_singleton.mp hrow]
          show "second" ≠ ""
          decide }
  links := fun _ => none
  linksFragments := fun _ hlink => absurd rfl hlink

def twoGroup : Group where
  keyId := "key"
  workspace := none
  contentHash := "hash"
  ids := ["first", "second"]

theorem twoGroup_query (validTo : Option Nat) (isAnchor : Bool) (linkedTo : List String) :
    DuplicatesQuery (twoStore validTo isAnchor linkedTo).rows [twoGroup] where
  limit := by decide
  distinct := nodup_singleton _
  duplicates := by
    intro group hgroup
    rw [mem_singleton.mp hgroup]
    refine ⟨by decide, (twoStore validTo isAnchor linkedTo).rows.rows, ?_, ?_, rfl⟩
    · rw [filter_eq_self.mpr]
      intro row hrow
      rcases mem_cons.mp hrow with rfl | hrow
      · rfl
      · rw [mem_singleton.mp hrow]
        rfl
    · refine pairwise_pair.mpr ?_
      show (decide ((1 / 2 : Rat) < 9 / 10) || _) = true
      have hlower : (1 / 2 : Rat) < 9 / 10 := by decide +kernel
      rw [decide_eq_true hlower, Bool.true_or]

/-- A live anchor takes the place of its duplicate. -/
theorem first_takes_place :
    DuplicatesQuery (twoStore none true []).rows [twoGroup] /\
      GroupTakesPlace (mergeDuplicates (twoStore none true []) []).store
        (mergeDuplicates (twoStore none true []) ([] ++ [twoGroup])).store twoGroup := by
  have hquery := twoGroup_query none true []
  refine ⟨hquery, (mergeDuplicates_takes_place_iff _ _ hquery [] twoGroup [] rfl).mpr ?_⟩
  intro keepId removed hids
  cases hids
  have hfirst : duplicateRow "first" (9 / 10) none true [] ∈ (twoStore none true []).rows :=
    mem_cons_self
  refine ⟨fun _ => ⟨_, hfirst, rfl, rfl⟩, fun _ => ⟨_, hfirst, rfl, rfl⟩, ?_, ?_⟩
  · intro outward member audit _ _ _ _
    rfl
  · intro row hrow _ _
    have hnone : row.linkedTo = [] := by
      rcases mem_cons.mp hrow with rfl | hrow
      · rfl
      · rw [mem_singleton.mp hrow]
        rfl
    unfold CleanReferences lastingReferences
    simp [hnone]

/-- A closed fragment of a higher importance survives its live duplicate, without being an
anchor, and refers to itself. -/
theorem closed_fragment_survives :
    DuplicatesQuery (twoStore (some 1) false ["second"]).rows [twoGroup] /\
      ¬ GroupTakesPlace (mergeDuplicates (twoStore (some 1) false ["second"]) []).store
        (mergeDuplicates (twoStore (some 1) false ["second"]) ([] ++ [twoGroup])).store
        twoGroup := by
  refine ⟨twoGroup_query _ _ _, fun hplace => ?_⟩
  have hrows : (mergeDuplicates (twoStore (some 1) false ["second"])
      ([] ++ [twoGroup])).store.rows.rows =
      [duplicateRow "first" (9 / 10) (some 1) false ["first"]] := by decide +kernel
  have hmember : ∃ row ∈ (twoStore (some 1) false ["second"]).rows,
      row.id ∈ ["first", "second"] /\ row.validTo = none :=
    ⟨duplicateRow "second" (1 / 2) none true [], mem_cons_of_mem _ mem_cons_self,
      mem_cons_of_mem _ mem_cons_self, rfl⟩
  obtain ⟨kept, hkept, _, hlive⟩ := (hplace "first" ["second"] rfl).live hmember
  rw [Table.mem_def, hrows, mem_singleton] at hkept
  rw [hkept] at hlive
  cases hlive

end AnchorMind.Consolidate.DuplicateGroups
