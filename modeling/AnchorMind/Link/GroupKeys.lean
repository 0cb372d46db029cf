import AnchorMind.Link.SessionGroups

/-!
# The keys of a session's groups

`groupKey` writes the workspace, `::`, and the case or topic into one text.  Two entries of
different workspaces share a group exactly when their texts are confusable: an absent
workspace is written `__none__`, and a workspace may itself go on into the separator.
-/

namespace AnchorMind.Link.GroupKeys

open Kernel.Grouping Kernel.MarkedPairs Link.SessionGroups List

def workspaceText (workspace : Option String) : List Char := (workspace.getD "__none__").toList

def subjectText (caseId topic : Option String) : List Char :=
  (((truthy caseId).or (truthy topic)).getD "__none__").toList

/-- The other workspace text is this one, is followed by `:`, or by `::` and more, and what
goes on there is taken off the case or topic. -/
def Confusable (entry other : Entry) : Prop :=
  let workspace := workspaceText entry.workspace
  let subject := subjectText entry.caseId entry.topic
  let otherSubject := subjectText other.caseId other.topic
  (workspaceText other.workspace = workspace /\ subject = otherSubject) \/
    (workspaceText other.workspace = workspace ++ [':'] /\ subject = ':' :: otherSubject) \/
      ∃ more, workspaceText other.workspace = workspace ++ ':' :: ':' :: more /\
        subject = more ++ ':' :: ':' :: otherSubject

theorem toList_groupKey (workspace caseId topic : Option String) :
    (groupKey workspace caseId topic).toList =
      written [':', ':'] (workspaceText workspace) (subjectText caseId topic) := by
  unfold groupKey written workspaceText subjectText
  rw [String.toList_append, String.toList_append, append_assoc]
  rfl

variable {entry other : Entry}

theorem key_eq_iff :
    entry.key = other.key <-> Confusable entry other \/ Confusable other entry := by
  unfold Entry.key Confusable
  rw [← String.toList_inj, toList_groupKey, toList_groupKey, written_eq_iff, goesOn_double_iff,
    goesOn_double_iff]

theorem Confusable.key_eq (hconfusable : Confusable entry other) : entry.key = other.key :=
  key_eq_iff.mpr (.inl hconfusable)

def Brings (rows : List StoredRow) (item : WmItem) : Prop :=
  (∃ id, truthy item.id = some id) \/
    ∃ place text, derived rows item = some (place, text)

def HasText (sessionId : String) (handed : SessionGroup) (text : String) : Place -> Prop
  | .list field => text ∈ handed.lists field
  | .summary => exists parts, text ∈ parts /\ handed.summary = summaryOf sessionId parts

variable {rows : List StoredRow} {items : List WmItem}

theorem hasNewContent_of_text {group : Group} {place : Place} {text : String}
    (htext : text ∈ group.texts place) : group.hasNewContent = true := by
  have hnonempty : (!(group.texts place).isEmpty) = true := by
    rw [Bool.not_eq_true', isEmpty_eq_false_iff]
    exact ne_nil_of_mem htext
  unfold Group.hasNewContent
  simp only [Bool.or_eq_true]
  cases place with
  | summary => exact .inl (.inl (.inl (.inl (.inl hnonempty))))
  | list field =>
    cases field with
    | decisions => exact .inl (.inl (.inl (.inl (.inr hnonempty))))
    | errorsResolved => exact .inl (.inl (.inl (.inr hnonempty)))
    | errorsOpen => exact .inl (.inl (.inr hnonempty))
    | newProcedures => exact .inl (.inr hnonempty)
    | openQuestions => exact .inr hnonempty

variable {item : WmItem}

theorem exists_group_of_text (sessionId : String) (hitem : item ∈ items) {place : Place}
    {text : String} (htext : derived rows item = some (place, text)) :
    ∃ handed, ((itemEntry rows item).key, handed) ∈ keyedGroups sessionId rows items /\
      HasText sessionId handed text place := by
  obtain ⟨group, hgroup⟩ := exists_get_of_mem rows hitem
  have hheld : text ∈ group.texts place := (mem_texts hgroup).mpr ⟨item, hitem, rfl, htext⟩
  have hkept : ¬ ((!group.hasNewContent && group.wmItemIds.isEmpty) = true) := by
    rw [hasNewContent_of_text hheld]
    exact Bool.false_ne_true
  obtain ⟨handed, hhanded⟩ : ∃ handed, sessionGroup sessionId group = some handed :=
    ⟨_, if_neg hkept⟩
  refine ⟨handed, mem_keyedGroups.mpr ⟨group, hgroup, hhanded⟩, ?_⟩
  obtain ⟨hlists, hsummary, -⟩ := sessionGroup_eq_some hhanded
  cases place with
  | summary => exact ⟨group.texts .summary, hheld, hsummary⟩
  | list field => exact (hlists field text).mpr hheld

theorem keyed_unique {sessionId : String} {keyed other : String × SessionGroup}
    (hkeyed : keyed ∈ keyedGroups sessionId rows items)
    (hother : other ∈ keyedGroups sessionId rows items) (hkey : keyed.1 = other.1) :
    keyed = other :=
  inj_on_of_nodup_map (keyedGroups_keysNodup sessionId rows items) hkeyed hother hkey

theorem exists_brings {sessionId : String} {keyed : String × SessionGroup}
    (hkeyed : keyed ∈ keyedGroups sessionId rows items) :
    ∃ item ∈ items, (itemEntry rows item).key = keyed.1 /\ Brings rows item := by
  obtain ⟨group, hgroup, hhanded⟩ := mem_keyedGroups.mp hkeyed
  have hsome : ¬ ((!group.hasNewContent && group.wmItemIds.isEmpty) = true) := by
    intro hempty
    rw [sessionGroup, if_pos hempty] at hhanded
    cases hhanded
  by_cases hids : group.wmItemIds = []
  · have hcontent : group.hasNewContent = true := by
      by_contra hnone
      rw [Bool.not_eq_true] at hnone
      exact hsome (by rw [hnone, hids]; rfl)
    obtain ⟨place, text, htext⟩ : ∃ place text, text ∈ group.texts place := by
      by_contra hnone
      have hempty : ∀ place, group.texts place = [] := fun place =>
        eq_nil_iff_forall_not_mem.mpr fun text htext => hnone ⟨place, text, htext⟩
      simp [Group.hasNewContent, hempty] at hcontent
    obtain ⟨item, hitem, hkey, hderived⟩ := (mem_texts hgroup).mp htext
    exact ⟨item, hitem, hkey, .inr ⟨place, text, hderived⟩⟩
  · obtain ⟨id, hid⟩ := exists_mem_of_ne_nil _ hids
    obtain ⟨item, hitem, hkey, htruthy⟩ := (mem_wmItemIds hgroup).mp hid
    exact ⟨item, hitem, hkey, .inl ⟨id, htruthy⟩⟩

theorem exists_group_of_brings (sessionId : String) (hitem : item ∈ items)
    (hbrings : Brings rows item) :
    ∃ handed, ((itemEntry rows item).key, handed) ∈ keyedGroups sessionId rows items := by
  rcases hbrings with ⟨id, hid⟩ | ⟨place, text, htext⟩
  · obtain ⟨handed, hhanded, -⟩ := exists_group_of_item sessionId rows hitem hid
    exact ⟨handed, hhanded⟩
  · obtain ⟨handed, hhanded, -⟩ := exists_group_of_text sessionId hitem htext
    exact ⟨handed, hhanded⟩

theorem itemEntry_mem (hitem : item ∈ items) : itemEntry rows item ∈ entriesOf rows items :=
  mem_append_right _ (mem_map_of_mem hitem)

/-- No group that is handed over is made of entries of different workspaces.  An item with a
stored fragment counts with the workspace of the fragment. -/
def KeepsWorkspacesApart (sessionId : String) (rows : List StoredRow) (items : List WmItem) :
    Prop :=
  ∀ keyed ∈ keyedGroups sessionId rows items,
    ∀ entry other, entry ∈ entriesOf rows items -> other ∈ entriesOf rows items ->
      entry.key = keyed.1 -> other.key = keyed.1 -> entry.workspace = other.workspace

def AccountsFor (sessionId : String) (rows : List StoredRow) (items : List WmItem)
    (item : WmItem) : Prop :=
  (∀ id, truthy item.id = some id ->
    ∃! keyed, keyed ∈ keyedGroups sessionId rows items /\
      keyed.1 = (itemEntry rows item).key /\ id ∈ keyed.2.wmItemIds) /\
    ∀ place text, derived rows item = some (place, text) ->
      ∃! keyed, keyed ∈ keyedGroups sessionId rows items /\
        keyed.1 = (itemEntry rows item).key /\ HasText sessionId keyed.2 text place

def Distinct (rows : List StoredRow) (items : List WmItem) : Prop :=
  ∀ item ∈ items, Brings rows item -> ∀ entry ∈ entriesOf rows items,
    entry.workspace ≠ (itemEntry rows item).workspace ->
      ¬ Confusable (itemEntry rows item) entry /\ ¬ Confusable entry (itemEntry rows item)

theorem accountsFor (sessionId : String) (rows : List StoredRow) (hitem : item ∈ items) :
    AccountsFor sessionId rows items item := by
  constructor
  · intro id hid
    obtain ⟨handed, hhanded, hlisted⟩ := exists_group_of_item sessionId rows hitem hid
    refine ⟨_, ⟨hhanded, rfl, hlisted⟩, ?_⟩
    rintro other ⟨hother, hkey, -⟩
    exact keyed_unique hother hhanded hkey
  · intro place text htext
    obtain ⟨handed, hhanded, hheld⟩ := exists_group_of_text sessionId hitem htext
    refine ⟨_, ⟨hhanded, rfl, hheld⟩, ?_⟩
    rintro other ⟨hother, hkey, -⟩
    exact keyed_unique hother hhanded hkey

theorem keepsWorkspacesApart_iff (sessionId : String) (rows : List StoredRow)
    (items : List WmItem) : KeepsWorkspacesApart sessionId rows items <-> Distinct rows items := by
  constructor
  · intro hapart item hitem hbrings entry hentry hworkspace
    obtain ⟨handed, hhanded⟩ := exists_group_of_brings sessionId hitem hbrings
    have hkeys : entry.key ≠ (itemEntry rows item).key := fun hkey =>
      hworkspace (hapart _ hhanded entry _ hentry (itemEntry_mem hitem) hkey rfl)
    exact ⟨fun hconfusable => hkeys hconfusable.key_eq.symm,
      fun hconfusable => hkeys hconfusable.key_eq⟩
  · intro hdistinct keyed hkeyed entry other hentry hother hkey hotherKey
    obtain ⟨item, hitem, hitemKey, hbrings⟩ := exists_brings hkeyed
    -- Every entry of the group has the workspace of an item that brought something.
    have hsame : ∀ entry ∈ entriesOf rows items, entry.key = keyed.1 ->
        entry.workspace = (itemEntry rows item).workspace := by
      intro entry hentry hkey
      by_contra hworkspace
      obtain ⟨hnot, hnotBack⟩ := hdistinct item hitem hbrings entry hentry hworkspace
      rcases key_eq_iff.mp (hitemKey.trans hkey.symm) with hconfusable | hconfusable
      · exact hnot hconfusable
      · exact hnotBack hconfusable
    exact (hsame entry hentry hkey).trans (hsame other hother hotherKey).symm

/-- On the items in scope, the groups keep the workspaces apart and account for every item
exactly when no item is confusable with an entry of another workspace. -/
theorem session_groups_iff (sessionId agentId : String) (keyId : Option String)
    (rows : List StoredRow) (workingMemory : List WmItem) :
    let items := scopeWorkingMemoryItems workingMemory agentId keyId
    (KeepsWorkspacesApart sessionId rows items /\
      ∀ item ∈ items, AccountsFor sessionId rows items item) <->
        Distinct rows items := by
  intro items
  rw [← keepsWorkspacesApart_iff sessionId]
  exact ⟨And.left, fun hapart => ⟨hapart, fun item hitem => accountsFor sessionId rows hitem⟩⟩

def note (id workspace topic : String) : WmItem where
  id := some id
  keyId := none
  agentId := some "default"
  workspace := some workspace
  topic := some topic
  type := some "fact"
  content := some "the release is on Friday"

def mixedMemory : List WmItem := [note "n1" "team" "ops::deploy", note "n2" "team::ops" "deploy"]

/-- The topic of one workspace begins with what the name of the other ends with. -/
theorem workspaces_share_a_group :
    ¬ (KeepsWorkspacesApart "s1" [] (scopeWorkingMemoryItems mixedMemory "default" none) /\
      ∀ item ∈ scopeWorkingMemoryItems mixedMemory "default" none,
        AccountsFor "s1" [] (scopeWorkingMemoryItems mixedMemory "default" none) item) := by
  intro hclaim
  have hscope : scopeWorkingMemoryItems mixedMemory "default" none = mixedMemory :=
    filter_eq_self.mpr (by decide +kernel)
  rw [hscope] at hclaim
  have hdistinct := (keepsWorkspacesApart_iff "s1" [] mixedMemory).mp hclaim.1
  have hfirst : note "n1" "team" "ops::deploy" ∈ mixedMemory := mem_cons_self
  have hsecond : note "n2" "team::ops" "deploy" ∈ mixedMemory :=
    mem_cons_of_mem _ mem_cons_self
  have hbrings : Brings [] (note "n1" "team" "ops::deploy") := .inl ⟨"n1", by decide +kernel⟩
  refine (hdistinct _ hfirst hbrings (itemEntry [] (note "n2" "team::ops" "deploy"))
    (itemEntry_mem hsecond) ?_).1 ?_
  · decide +kernel
  · exact .inr (.inr ⟨"ops".toList, by decide +kernel, by decide +kernel⟩)

end AnchorMind.Link.GroupKeys
