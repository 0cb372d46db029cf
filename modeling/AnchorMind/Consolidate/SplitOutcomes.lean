import AnchorMind.Consolidate.FragmentSplit

/-!
# What a split leaves

Where every insert makes its own row or none and the close takes effect, a split
either replaces the fragment or leaves it, and what a failed link or a failed
rollback leaves behind is recorded under the child's id.
-/

namespace AnchorMind.Consolidate.FragmentSplit

open Link List Function

variable {outcomes : Outcomes} {now minItems : Nat} {parent : Parent} {before store after : Store}

structure FreshDrafts (store : Store) (parent : Parent) (accepted : List Draft) : Prop where
  nodup : (accepted.map Draft.id).Nodup
  absent : ∀ draft ∈ accepted, store.rows draft.id = none
  live : ∀ draft ∈ accepted, draft.row.validTo = none
  owned : ∀ draft ∈ accepted, draft.row.keyId = parent.keyId

def InsertsOwn (outcomes : Outcomes) (accepted : List Draft) : Prop :=
  ∀ position, position < accepted.length ->
    outcomes.insert position = .created \/ outcomes.insert position = .absent

structure Grown (parent : Parent) (before after : Store) (ids : List String) : Prop where
  nodup : ids.Nodup
  fresh : ∀ id ∈ ids, before.rows id = none
  new : ∀ id ∈ ids, ∃ row, after.rows id = some row /\ row.validTo = none /\
    row.keyId = parent.keyId
  old : ∀ id, id ∉ ids -> after.rows id = before.rows id
  links : after.links = before.links

theorem Grown.start : Grown parent store store [] where
  nodup := nodup_nil
  fresh _ hid := absurd hid not_mem_nil
  new _ hid := absurd hid not_mem_nil
  old _ _ := rfl
  links := rfl

variable {draft : Draft} {ids : List String}

theorem Grown.cons (hgrown : Grown parent (store.insertRow draft.id draft.row) after ids)
    (hnew : draft.id ∉ ids) (habsent : store.rows draft.id = none)
    (hlive : draft.row.validTo = none) (howned : draft.row.keyId = parent.keyId) :
    Grown parent store after (draft.id :: ids) := by
  have hother : ∀ id, id ≠ draft.id ->
      (store.insertRow draft.id draft.row).rows id = store.rows id :=
    fun id hid => update_of_ne hid _ _
  constructor
  · exact nodup_cons.mpr ⟨hnew, hgrown.nodup⟩
  · intro id hid
    rcases mem_cons.mp hid with rfl | hid
    · exact habsent
    · rw [<- hother id fun heq => hnew (heq ▸ hid)]
      exact hgrown.fresh id hid
  · intro id hid
    rcases mem_cons.mp hid with rfl | hid
    · refine ⟨draft.row, ?_, hlive, howned⟩
      rw [hgrown.old draft.id hnew]
      exact update_self _ _ _
    · exact hgrown.new id hid
  · intro id hid
    rw [hgrown.old id fun hmem => hid (mem_cons_of_mem _ hmem)]
    exact hother id fun heq => hid (heq ▸ mem_cons_self)
  · exact hgrown.links

theorem FreshDrafts.tail {rest : List Draft} (hfresh : FreshDrafts store parent (draft :: rest)) :
    FreshDrafts store parent rest where
  nodup := (nodup_cons.mp hfresh.nodup).2
  absent other hother := hfresh.absent other (mem_cons_of_mem _ hother)
  live other hother := hfresh.live other (mem_cons_of_mem _ hother)
  owned other hother := hfresh.owned other (mem_cons_of_mem _ hother)

theorem FreshDrafts.inserted {rest : List Draft}
    (hfresh : FreshDrafts store parent (draft :: rest)) :
    FreshDrafts (store.insertRow draft.id draft.row) parent rest := by
  obtain ⟨hnodup, habsent, hlive, howned⟩ := hfresh.tail
  constructor
  · exact hnodup
  · intro other hother
    have hne : other.id ≠ draft.id := by
      intro heq
      exact (nodup_cons.mp hfresh.nodup).1 (heq ▸ mem_map_of_mem hother)
    rw [<- habsent other hother]
    exact update_of_ne hne _ _
  · exact hlive
  · exact howned

variable {accepted : List Draft}

theorem insertChildren_grown (position : Nat) (hfresh : FreshDrafts store parent accepted)
    (howns : ∀ offset, offset < accepted.length ->
      outcomes.insert (position + offset) = .created \/
        outcomes.insert (position + offset) = .absent) :
    (insertChildren outcomes store position accepted).threw = false /\
      (insertChildren outcomes store position accepted).newIds ⊆ accepted.map Draft.id /\
      Grown parent store (insertChildren outcomes store position accepted).store
        (insertChildren outcomes store position accepted).newIds := by
  induction accepted generalizing store position with
  | nil => exact ⟨rfl, Subset.refl _, Grown.start⟩
  | cons draft rest ih =>
    have hrest : ∀ offset, offset < rest.length ->
        outcomes.insert (position + 1 + offset) = .created \/
          outcomes.insert (position + 1 + offset) = .absent := by
      intro offset hoffset
      have hnext := howns (offset + 1) (Nat.succ_lt_succ hoffset)
      rwa [Nat.add_right_comm, Nat.add_assoc]
    rcases howns 0 (Nat.zero_lt_succ _) with hcreated | habsent
    · obtain ⟨hthrew, hsub, hgrown⟩ := ih (position + 1) hfresh.inserted hrest
      have hnew : draft.id ∉ (insertChildren outcomes
          (store.insertRow draft.id draft.row) (position + 1) rest).newIds :=
        fun hmem => (nodup_cons.mp hfresh.nodup).1 (hsub hmem)
      simp only [insertChildren, Nat.add_zero] at hcreated ⊢
      rw [hcreated]
      exact ⟨hthrew, cons_subset_cons _ hsub,
        hgrown.cons hnew (hfresh.absent draft mem_cons_self)
          (hfresh.live draft mem_cons_self) (hfresh.owned draft mem_cons_self)⟩
    · obtain ⟨hthrew, hsub, hgrown⟩ := ih (position + 1) hfresh.tail hrest
      simp only [insertChildren, Nat.add_zero] at habsent ⊢
      rw [habsent]
      exact ⟨hthrew, fun id hid => mem_cons_of_mem _ (hsub hid), hgrown⟩

structure Undone (parent : Parent) (before : Store) (progress : Progress)
    (pending : List String) : Prop where
  rows : ∀ id, id ∉ pending -> progress.store.rows id = before.rows id \/
    (before.rows id = none /\ ⟨.rollbackDelete, parent.id, some id⟩ ∈ progress.failures)
  pending : ∀ id ∈ pending, before.rows id = none /\
    ∃ row, progress.store.rows id = some row /\ row.keyId = parent.keyId
  links : progress.store.links = before.links

theorem delete_owned {id : String} {row : Fragment} {keyId : Option String}
    (hrow : store.rows id = some row) (howned : row.keyId = keyId) :
    store.delete id keyId = store.deleteRow id := by
  unfold Store.delete
  cases keyId with
  | none => rfl
  | some key =>
    rw [hrow]
    exact if_pos howned

theorem deleteRow_links {id : String} (hlinks : store.links = before.links)
    (hfresh : before.rows id = none) : (store.deleteRow id).links = before.links := by
  funext key
  have hkey : (store.deleteRow id).links key =
      if key.1 = id ∨ key.2 = id then none else store.links key := rfl
  rw [hkey, hlinks]
  split
  · rename_i htouched
    cases hlink : before.links key with
    | none => rfl
    | some row =>
      obtain ⟨hfrom, hto⟩ := before.references key (by simp [hlink])
      rcases htouched with rfl | rfl
      · simp [hfresh] at hfrom
      · simp [hfresh] at hto
  · rfl

variable {progress : Progress} {id : String} {pending : List String}

theorem Undone.deleted (hundone : Undone parent before progress (id :: pending))
    (hnew : id ∉ pending) (failures : List StepFailure) :
    Undone parent before
      ⟨progress.store.delete id parent.keyId, progress.failures ++ failures⟩ pending := by
  obtain ⟨hfresh, row, hrow, howned⟩ := hundone.pending id mem_cons_self
  rw [delete_owned hrow howned]
  have hother : ∀ other, other ≠ id ->
      (progress.store.deleteRow id).rows other = progress.store.rows other :=
    fun other hne => update_of_ne hne _ _
  constructor
  · intro other hdone
    by_cases heq : other = id
    · subst heq
      rw [hfresh]
      exact .inl (update_self _ _ _)
    · have hnext : other ∉ id :: pending := by simp [heq, hdone]
      rw [hother other heq]
      rcases hundone.rows other hnext with hsame | ⟨habsent, hrecorded⟩
      · exact .inl hsame
      · exact Or.inr ⟨habsent, mem_append_left _ hrecorded⟩
  · intro other hmem
    have hne : other ≠ id := fun heq => hnew (heq ▸ hmem)
    rw [hother other hne]
    exact hundone.pending other (mem_cons_of_mem _ hmem)
  · exact deleteRow_links hundone.links hfresh

theorem Undone.kept (hundone : Undone parent before progress (id :: pending)) :
    Undone parent before
      ⟨progress.store, progress.failures ++ [⟨.rollbackDelete, parent.id, some id⟩]⟩ pending := by
  constructor
  · intro other hdone
    by_cases heq : other = id
    · subst heq
      exact Or.inr ⟨(hundone.pending other mem_cons_self).1, by simp⟩
    · have hnext : other ∉ id :: pending := by simp [heq, hdone]
      rcases hundone.rows other hnext with hsame | ⟨habsent, hrecorded⟩
      · exact .inl hsame
      · exact Or.inr ⟨habsent, mem_append_left _ hrecorded⟩
  · exact fun other hmem => hundone.pending other (mem_cons_of_mem _ hmem)
  · exact hundone.links

theorem rollbackChild_undone (position : Nat)
    (hundone : Undone parent before progress (id :: pending)) (hnew : id ∉ pending) :
    Undone parent before (rollbackChild outcomes parent progress position id) pending := by
  unfold rollbackChild
  split
  · have hdeleted := hundone.deleted hnew []
    rwa [append_nil] at hdeleted
  · rename_i removed _
    cases removed with
    | true => exact hundone.deleted hnew _
    | false => exact hundone.kept

theorem rollback_undone (position : Nat) (hnodup : pending.Nodup)
    (hundone : Undone parent before progress pending) :
    Undone parent before (rollback outcomes parent progress position pending) [] := by
  induction pending generalizing progress position with
  | nil => exact hundone
  | cons id rest ih =>
    obtain ⟨hnew, hrest⟩ := nodup_cons.mp hnodup
    exact ih (position + 1) hrest (rollbackChild_undone position hundone hnew)

theorem Grown.undone (hgrown : Grown parent before after ids) :
    Undone parent before ⟨after, []⟩ ids where
  rows id hid := .inl (hgrown.old id hid)
  pending id hid := by
    obtain ⟨row, hrow, -, howned⟩ := hgrown.new id hid
    exact ⟨hgrown.fresh id hid, row, hrow, howned⟩
  links := hgrown.links

structure Linked (children : List String) (was progress : Progress) : Prop where
  rows : progress.store.rows = was.store.rows
  failures : was.failures ⊆ progress.failures
  links : ∀ key, key.1 ∉ children -> progress.store.links key = was.store.links key
  active : ∀ key, Active (was.store.links key) -> Active (progress.store.links key)

variable {children : List String} {was last : Progress} {fromId toId childId : String}
  {step : SplitStep} {relationType : RelationType} {works : Bool}

theorem Linked.refl : Linked children was was where
  rows := rfl
  failures := Subset.refl _
  links _ _ := rfl
  active _ hactive := hactive

theorem Linked.trans (hfirst : Linked children was progress)
    (hnext : Linked children progress last) : Linked children was last where
  rows := hnext.rows.trans hfirst.rows
  failures := fun _ hmem => hnext.failures (hfirst.failures hmem)
  links := fun key hkey => (hnext.links key hkey).trans (hfirst.links key hkey)
  active := fun key hactive => hnext.active key (hfirst.active key hactive)

theorem createLink_some (hafter : store.createLink fromId toId relationType = some after) :
    after.rows = store.rows /\ Active (after.links (fromId, toId)) /\
      ∀ key, key ≠ (fromId, toId) -> after.links key = store.links key := by
  unfold Store.createLink at hafter
  split at hafter
  · cases hafter
    refine ⟨rfl, ?_, fun key hkey => update_of_ne hkey _ _⟩
    exact ⟨_, update_self _ _ _, upsertLink_deletedAt _ _ _⟩
  · cases hafter

theorem linkStep_linked (parent : Parent) (hchild : fromId ∈ children) :
    Linked children progress
        (linkStep parent step relationType works progress fromId toId childId) /\
      (Active ((linkStep parent step relationType works progress fromId toId
          childId).store.links (fromId, toId)) \/
        ⟨step, parent.id, some childId⟩ ∈
          (linkStep parent step relationType works progress fromId toId childId).failures) := by
  unfold linkStep
  split
  · rename_i written hwritten
    have hcreated : progress.store.createLink fromId toId relationType = some written := by
      cases works with
      | true => exact hwritten
      | false => cases hwritten
    obtain ⟨hrows, hactive, hother⟩ := createLink_some hcreated
    refine ⟨⟨hrows, Subset.refl _, ?_, ?_⟩, .inl hactive⟩
    · intro key hkey
      exact hother key fun heq => hkey (heq ▸ hchild)
    · intro key hkeyActive
      by_cases hkey : key = (fromId, toId)
      · rw [hkey]
        exact hactive
      · rw [hother key hkey]
        exact hkeyActive
  · refine ⟨⟨rfl, subset_append_left _ _, fun key _ => rfl, fun key hactive => hactive⟩, ?_⟩
    exact .inr (by simp)

theorem linkRelated_linked (position : Nat) {ids : List String} (hids : ids ⊆ children) :
    Linked children progress (linkRelated outcomes parent progress position ids) := by
  induction ids generalizing progress position with
  | nil => exact Linked.refl
  | cons first rest ih =>
    cases rest with
    | nil => exact Linked.refl
    | cons second rest =>
      have hfirst := hids mem_cons_self
      exact (linkStep_linked parent hfirst).1.trans
        (ih (position + 1) fun id hid => hids (mem_cons_of_mem _ hid))

theorem linkPartOf_linked (position : Nat) {ids : List String} (hids : ids ⊆ children) :
    Linked children progress (linkPartOf outcomes parent progress position ids) /\
      ∀ id ∈ ids,
        Active ((linkPartOf outcomes parent progress position ids).store.links (id, parent.id)) \/
          ⟨.linkPartOf, parent.id, some id⟩ ∈
            (linkPartOf outcomes parent progress position ids).failures := by
  induction ids generalizing progress position with
  | nil => exact ⟨Linked.refl, nofun⟩
  | cons first rest ih =>
    have hfirst := hids mem_cons_self
    have hrest : rest ⊆ children := fun id hid => hids (mem_cons_of_mem _ hid)
    obtain ⟨hstep, hdone⟩ := linkStep_linked parent hfirst
    obtain ⟨hlast, hchildren⟩ := ih (position + 1) hrest
    refine ⟨hstep.trans hlast, ?_⟩
    intro id hid
    rcases mem_cons.mp hid with rfl | hid
    · rcases hdone with hactive | hrecorded
      · exact .inl (hlast.active _ hactive)
      · exact .inr (hlast.failures hrecorded)
    · exact hchildren id hid

theorem linkChildren_linked (outcomes : Outcomes) (parent : Parent) (progress : Progress)
    (ids : List String) :
    Linked ids progress
        (linkPartOf outcomes parent (linkRelated outcomes parent progress 0 ids) 0 ids) /\
      ∀ id ∈ ids,
        Active ((linkPartOf outcomes parent (linkRelated outcomes parent progress 0 ids) 0
            ids).store.links (id, parent.id)) \/
          ⟨.linkPartOf, parent.id, some id⟩ ∈
            (linkPartOf outcomes parent (linkRelated outcomes parent progress 0 ids) 0
              ids).failures := by
  have hrelated : Linked ids progress (linkRelated outcomes parent progress 0 ids) :=
    linkRelated_linked 0 (Subset.refl ids)
  obtain ⟨hpart, hchildren⟩ := linkPartOf_linked 0 (Subset.refl ids)
  exact ⟨hrelated.trans hpart, hchildren⟩

def unmarked (row : Fragment) : Fragment := { row with splitAttemptFailedAt := none }

/-- The parent is closed and live children stand for it; a child without its link is
recorded.  Nothing else that was there changed. -/
structure Replaced (before : Store) (parent : Parent) (minItems : Nat) (left : Progress) :
    Prop where
  closed : ∃ row, left.store.rows parent.id = some row /\ row.validTo ≠ none
  children : ∃ children : List String, children.Nodup /\ minItems ≤ children.length /\
    ∀ id ∈ children,
      before.rows id = none /\
      (∃ row, left.store.rows id = some row /\ row.validTo = none) /\
      (Active (left.store.links (id, parent.id)) \/
        ⟨.linkPartOf, parent.id, some id⟩ ∈ left.failures)
  others : ∀ id row, id ≠ parent.id -> before.rows id = some row ->
    left.store.rows id = some row
  links : ∀ key, (before.links key).isSome = true ->
    left.store.links key = before.links key

/-- The parent keeps its row but for the mark, and only children whose rollback failed,
and is recorded, came with it. -/
structure LeftAlone (before : Store) (parent : Parent) (left : Progress) : Prop where
  parentRow : (left.store.rows parent.id).map unmarked = (before.rows parent.id).map unmarked
  rows : ∀ id, id ≠ parent.id -> left.store.rows id = before.rows id \/
    (before.rows id = none /\ ⟨.rollbackDelete, parent.id, some id⟩ ∈ left.failures)
  links : left.store.links = before.links

theorem recordSplitOutcome_frame :
    (∀ id, id ≠ parent.id ->
      (recordSplitOutcome outcomes now parent progress).store.rows id = progress.store.rows id) /\
    ((recordSplitOutcome outcomes now parent progress).store.rows parent.id).map unmarked =
      (progress.store.rows parent.id).map unmarked /\
    (recordSplitOutcome outcomes now parent progress).store.links = progress.store.links /\
    progress.failures ⊆ (recordSplitOutcome outcomes now parent progress).failures := by
  unfold recordSplitOutcome
  split
  · refine ⟨fun id hid => update_of_ne hid _ _, ?_, rfl, Subset.refl _⟩
    have hrow : (progress.store.updateRow parent.id fun row =>
        { row with splitAttemptFailedAt := some now }).rows parent.id =
        (progress.store.rows parent.id).map fun row =>
          { row with splitAttemptFailedAt := some now } := update_self _ _ _
    rw [hrow, Option.map_map]
    rfl
  · exact ⟨fun id _ => rfl, rfl, rfl, subset_append_left _ _⟩

theorem recordSplitOutcome_leftAlone (hparent : (before.rows parent.id).isSome = true)
    (hundone : Undone parent before progress []) :
    LeftAlone before parent (recordSplitOutcome outcomes now parent progress) := by
  obtain ⟨hothers, hmark, hlinks, hfailures⟩ := recordSplitOutcome_frame
  constructor
  · rw [hmark]
    rcases hundone.rows parent.id not_mem_nil with hsame | ⟨habsent, -⟩
    · rw [hsame]
    · simp [habsent] at hparent
  · intro id hid
    rw [hothers id hid]
    rcases hundone.rows id not_mem_nil with hsame | ⟨habsent, hrecorded⟩
    · exact .inl hsame
    · exact Or.inr ⟨habsent, hfailures hrecorded⟩
  · rw [hlinks, hundone.links]

theorem recordSplitOutcome_replaced (hparent : (before.rows parent.id).isSome = true)
    (hreplaced : Replaced before parent minItems progress) :
    Replaced before parent minItems (recordSplitOutcome outcomes now parent progress) := by
  obtain ⟨hothers, hmark, hlinks, hfailures⟩ := recordSplitOutcome_frame
  constructor
  · obtain ⟨row, hrow, hclosed⟩ := hreplaced.closed
    rw [hrow] at hmark
    obtain ⟨marked, hmarked, hsame⟩ := Option.map_eq_some_iff.mp hmark
    refine ⟨marked, hmarked, ?_⟩
    have hvalid : (unmarked marked).validTo = (unmarked row).validTo := by rw [hsame]
    have hvalid : marked.validTo = row.validTo := hvalid
    rw [hvalid]
    exact hclosed
  · obtain ⟨children, hnodup, hcount, hchildren⟩ := hreplaced.children
    refine ⟨children, hnodup, hcount, ?_⟩
    intro id hid
    obtain ⟨hnew, hlive, hlinked⟩ := hchildren id hid
    have hne : id ≠ parent.id := by
      rintro rfl
      simp [hnew] at hparent
    rw [hothers id hne, hlinks]
    exact ⟨hnew, hlive, hlinked.imp_right fun hrecorded => hfailures hrecorded⟩
  · intro id row hid hrow
    rw [hothers id hid]
    exact hreplaced.others id row hid hrow
  · rw [hlinks]
    exact hreplaced.links

theorem Grown.replaced (now : Nat) {linked : Progress} (hgrown : Grown parent before after ids)
    (hcount : minItems ≤ ids.length) (hparent : ∃ row, before.rows parent.id = some row)
    (hlinked : Linked ids ⟨after, []⟩ linked)
    (hchildren : ∀ id ∈ ids, Active (linked.store.links (id, parent.id)) \/
      ⟨.linkPartOf, parent.id, some id⟩ ∈ linked.failures) :
    Replaced before parent minItems
      { linked with store := linked.store.updateRow parent.id (closed now) } := by
  obtain ⟨row, hrow⟩ := hparent
  have hparentNew : parent.id ∉ ids := by
    intro hmem
    simp [hgrown.fresh parent.id hmem] at hrow
  have hothers : ∀ id, id ≠ parent.id ->
      (linked.store.updateRow parent.id (closed now)).rows id = after.rows id := by
    intro id hid
    rw [<- congrFun hlinked.rows id]
    exact update_of_ne hid _ _
  constructor
  · refine ⟨closed now row, ?_, by simp [closed]⟩
    have hclosed : (linked.store.updateRow parent.id (closed now)).rows parent.id =
        (linked.store.rows parent.id).map (closed now) := update_self _ _ _
    have hkept : linked.store.rows parent.id = some row := by
      rw [congrFun hlinked.rows parent.id, <- hrow]
      exact hgrown.old parent.id hparentNew
    rw [hclosed, hkept]
    rfl
  · refine ⟨ids, hgrown.nodup, hcount, ?_⟩
    intro id hid
    have hne : id ≠ parent.id := fun heq => hparentNew (heq ▸ hid)
    obtain ⟨child, hchild, hlive, -⟩ := hgrown.new id hid
    exact ⟨hgrown.fresh id hid, ⟨child, (hothers id hne).trans hchild, hlive⟩, hchildren id hid⟩
  · intro id other hid hother
    have hold : id ∉ ids := by
      intro hmem
      simp [hgrown.fresh id hmem] at hother
    exact (hothers id hid).trans ((hgrown.old id hold).trans hother)
  · intro key hkey
    have hold : key.1 ∉ ids := by
      intro hmem
      have hstored := (before.references key hkey).1
      simp [hgrown.fresh key.1 hmem] at hstored
    exact (hlinked.links key hold).trans (congrFun hgrown.links key)

theorem commitSplit_left (now minItems : Nat) (hparent : ∃ row, before.rows parent.id = some row)
    (hfresh : FreshDrafts before parent accepted) (howns : InsertsOwn outcomes accepted)
    (hclose : outcomes.close ≠ .thrown false) :
    Replaced before parent minItems
        (commitSplit outcomes now minItems parent before accepted).progress \/
      ((commitSplit outcomes now minItems parent before accepted).answer = some false /\
        LeftAlone before parent
          (commitSplit outcomes now minItems parent before accepted).progress) := by
  have hinsert : ∀ offset, offset < accepted.length ->
      outcomes.insert (0 + offset) = .created \/ outcomes.insert (0 + offset) = .absent := by
    intro offset hoffset
    rw [Nat.zero_add]
    exact howns offset hoffset
  obtain ⟨hthrew, -, hgrown⟩ := insertChildren_grown 0 hfresh hinsert
  unfold commitSplit
  simp only [hthrew]
  split
  · rename_i hthrown
    cases hthrown
  · split
    · have hstored : (before.rows parent.id).isSome = true := by
        obtain ⟨row, hrow⟩ := hparent
        simp [hrow]
      exact Or.inr ⟨rfl, recordSplitOutcome_leftAlone hstored
        (rollback_undone 0 hgrown.nodup hgrown.undone)⟩
    · rename_i hcount
      obtain ⟨hlinked, hchildren⟩ := linkChildren_linked outcomes parent
        ⟨(insertChildren outcomes before 0 accepted).store, []⟩
        (insertChildren outcomes before 0 accepted).newIds
      have hreplaced : Replaced before parent minItems _ :=
        hgrown.replaced now (Nat.le_of_not_lt hcount) hparent hlinked hchildren
      left
      split
      · exact hreplaced
      · exact hreplaced
      · rename_i hfailed
        exact absurd hfailed hclose

/-- Whatever the provider and the gates say, and whichever steps fail, a split replaces
the fragment or leaves it, as long as no insert answers with a row it did not make,
none throws, and the close takes effect. -/
theorem processFragmentSplit_left {prepared : Prepared}
    (hparent : ∃ row, before.rows parent.id = some row)
    (hgated : ∀ accepted anchorsMissing, prepared = .gated accepted anchorsMissing ->
      FreshDrafts before parent accepted /\ InsertsOwn outcomes accepted)
    (hclose : outcomes.close ≠ .thrown false) :
    Replaced before parent minItems
        (processFragmentSplit outcomes now minItems parent before prepared).1 \/
      LeftAlone before parent
        (processFragmentSplit outcomes now minItems parent before prepared).1 := by
  have hstored : (before.rows parent.id).isSome = true := by
    obtain ⟨row, hrow⟩ := hparent
    simp [hrow]
  have hnothing : Undone parent before ⟨before, []⟩ [] := Grown.start.undone
  cases prepared with
  | tooFewItems =>
    right
    exact ⟨rfl, fun id _ => .inl rfl, rfl⟩
  | thrown => exact .inr (recordSplitOutcome_leftAlone hstored hnothing)
  | gated accepted anchorsMissing =>
    obtain ⟨hfresh, howns⟩ := hgated accepted anchorsMissing rfl
    simp only [processFragmentSplit]
    split
    · exact .inr (recordSplitOutcome_leftAlone hstored hnothing)
    · split
      · exact .inr (recordSplitOutcome_leftAlone hstored hnothing)
      · rcases commitSplit_left now minItems hparent hfresh howns hclose
          with hreplaced | ⟨hanswer, hleft⟩
        · left
          split
          · exact hreplaced
          · exact recordSplitOutcome_replaced hstored hreplaced
        · right
          rw [hanswer]
          exact hleft

def ReplacedOrUnchanged (before : Store) (parent : Parent) (minItems : Nat) (after : Store) :
    Prop :=
  ((∃ row, after.rows parent.id = some row /\ row.validTo ≠ none) /\
    ∃ children : List String, children.Nodup /\ minItems ≤ children.length /\
      ∀ id ∈ children,
        (∃ row, after.rows id = some row /\ row.validTo = none) /\
        Active (after.links (id, parent.id))) \/
  ((∀ id, (after.rows id).map unmarked = (before.rows id).map unmarked) /\
    after.links = before.links)

def longFragment : Store where
  rows := fun id => if id = "parent" then
    some { content := "a and b", importance := 1 / 2 } else none
  links := fun _ => none
  references := by
    intro key hlink
    cases hlink

def longParent : Parent where
  id := "parent"
  agentId := "default"
  keyId := none

def twoParts : List Draft :=
  [⟨"first", { content := "a", importance := 1 / 5 }⟩,
    ⟨"second", { content := "b", importance := 1 / 5 }⟩]

def linksFail : Outcomes where
  insert _ := .created
  delete _ := .deleted
  linkRelated _ := false
  linkPartOf _ := false
  close := .closed
  record := true

/-- Where the links fail the parent is closed for children that are not linked to it. -/
theorem split_closes_without_links :
    Not (∀ (outcomes : Outcomes) (now minItems : Nat) (parent : Parent) (before : Store)
      (prepared : Prepared), (∃ row, before.rows parent.id = some row) ->
        ReplacedOrUnchanged before parent minItems
          (processFragmentSplit outcomes now minItems parent before prepared).1.store) := by
  intro hkeeps
  have hlinks : (processFragmentSplit linksFail 7 2 longParent longFragment
      (.gated twoParts false)).1.store.links = fun _ => none := rfl
  have hclosed : ((processFragmentSplit linksFail 7 2 longParent longFragment
      (.gated twoParts false)).1.store.rows "parent").map Fragment.validTo = some (some 7) := by
    decide +kernel
  rcases hkeeps linksFail 7 2 longParent longFragment (.gated twoParts false) ⟨_, rfl⟩ with
    ⟨-, children, -, hcount, hchildren⟩ | ⟨hrows, -⟩
  · obtain ⟨id, hid⟩ := exists_mem_of_length_pos (Nat.lt_of_lt_of_le (by decide) hcount)
    obtain ⟨-, row, hrow, -⟩ := hchildren id hid
    rw [hlinks] at hrow
    cases hrow
  · have hparent := congrArg (Option.map Fragment.validTo) (hrows "parent")
    have hvalid : ∀ row : Option Fragment,
        (row.map unmarked).map Fragment.validTo = row.map Fragment.validTo := by
      intro row
      cases row <;> rfl
    rw [hvalid, hvalid, hclosed] at hparent
    cases hparent

/-- The same split keeps what is promised: the missing links are recorded. -/
theorem split_records_failed_links :
    Replaced longFragment longParent 2
        (processFragmentSplit linksFail 7 2 longParent longFragment (.gated twoParts false)).1 \/
      LeftAlone longFragment longParent
        (processFragmentSplit linksFail 7 2 longParent longFragment (.gated twoParts false)).1 := by
  apply processFragmentSplit_left ⟨_, rfl⟩
  · intro accepted anchorsMissing hgated
    cases hgated
    refine ⟨⟨by decide, ?_, ?_, ?_⟩, fun position _ => .inl rfl⟩
    · simp [twoParts, longFragment]
    · simp [twoParts]
    · simp [twoParts, longParent]
  · decide

end AnchorMind.Consolidate.FragmentSplit
