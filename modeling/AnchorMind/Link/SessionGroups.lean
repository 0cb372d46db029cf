import AnchorMind.Kernel.InsertionMap
import AnchorMind.Text.Characters

/-!
# Grouping a session's working memory

`consolidateSessionFragments` puts the stored fragments of a session and the items of its
working memory into groups by workspace and by case or topic.  Only items without a stored
fragment give a group new text; every item with an id is listed for eviction.
-/

namespace AnchorMind.Link.SessionGroups

open Kernel.InsertionMap Kernel.Grouping Text.Utf16 Text.Whitespace List

/-- An entry of the working memory, as it was parsed. -/
structure WmItem where
  id : Option String
  keyId : Option String
  agentId : Option String
  workspace : Option String
  topic : Option String
  type : Option String
  content : Option String

structure StoredRow where
  id : String
  workspace : Option String
  caseId : Option String
  topic : Option String

inductive ListField where
  | decisions
  | errorsResolved
  | errorsOpen
  | newProcedures
  | openQuestions
  deriving DecidableEq

/-- Where the text of an item goes. -/
inductive Place where
  | summary
  | list (field : ListField)
  deriving DecidableEq

/-- A value `||` takes for present. -/
def truthy (value : Option String) : Option String := value.filter fun text => text ≠ ""

/-- The agents `resolveAgentScope` admits. -/
def agentIds (agentId : String) : List String :=
  if trim agentId = "" then ["default"] else [trim agentId, "default"]

def isFragmentInAgentScope (item : WmItem) (agentId : String) : Bool :=
  match truthy item.agentId with
  | none => false
  | some owner => (agentIds agentId).contains owner

def inScope (agentId : String) (keyId : Option String) (item : WmItem) : Bool :=
  item.keyId == keyId && isFragmentInAgentScope item agentId

def scopeWorkingMemoryItems (items : List WmItem) (agentId : String) (keyId : Option String) :
    List WmItem :=
  items.filter (inScope agentId keyId)

def resolvedMark : String := "[해결됨]"

def openMark : String := "[미해결]"

/-- `replace(/^mark\s*/, "").trim()` -/
def stripMark (mark text : String) : String :=
  if mark.toList.isPrefixOf text.toList then
    trim (String.ofList ((text.toList.drop mark.length).dropWhile isTrimmed))
  else trim text

def classify (rawContent : Option String) (type : String) : Option (Place × String) :=
  let content := trim (rawContent.getD "")
  if content = "" then none
  else if type = "decision" then some (.list .decisions, stripMark resolvedMark content)
  else if type = "error" then
    if resolvedMark.toList.isPrefixOf content.toList then
      some (.list .errorsResolved, stripMark resolvedMark content)
    else some (.list .errorsOpen, content)
  else if type = "procedure" then some (.list .newProcedures, content)
  else if type = "fact" then
    if openMark.toList <:+: content.toList then
      some (.list .openQuestions, stripMark openMark content)
    else some (.summary, content)
  else some (.summary, content)

structure Group where
  workspace : Option String
  caseId : Option String
  topic : Option String
  /-- The lists, and the parts of the summary. -/
  texts : Place -> List String
  sourceFragmentIds : List String
  wmItemIds : List String

structure Entry where
  workspace : Option String
  caseId : Option String
  topic : Option String
  text : Option (Place × String)
  sourceFragmentId : Option String
  wmItemId : Option String

def groupKey (workspace caseId topic : Option String) : String :=
  workspace.getD "__none__" ++ "::" ++ ((truthy caseId).or (truthy topic)).getD "__none__"

def Entry.key (entry : Entry) : String := groupKey entry.workspace entry.caseId entry.topic

def Entry.textsAt (entry : Entry) (place : Place) : List String :=
  match entry.text with
  | some (target, text) => if target = place then [text] else []
  | none => []

/-- The group `ensureGroup` starts. -/
def startGroup (entry : Entry) : Group where
  workspace := entry.workspace
  caseId := entry.caseId
  topic := entry.topic
  texts := fun _ => []
  sourceFragmentIds := []
  wmItemIds := []

def Group.put (group : Group) (entry : Entry) : Group :=
  { group with
    texts := fun place => group.texts place ++ entry.textsAt place
    sourceFragmentIds := group.sourceFragmentIds ++ entry.sourceFragmentId.toList
    wmItemIds := group.wmItemIds ++ entry.wmItemId.toList }

def rowEntry (row : StoredRow) : Entry where
  workspace := row.workspace
  caseId := row.caseId
  topic := row.topic
  text := none
  sourceFragmentId := some row.id
  wmItemId := none

/-- `rowById.get(w.id)`; of two rows with one id the later counts. -/
def rowOf (rows : List StoredRow) (item : WmItem) : Option StoredRow :=
  (truthy item.id).bind fun id => rows.reverse.find? fun row => row.id = id

def derived (rows : List StoredRow) (item : WmItem) : Option (Place × String) :=
  match rowOf rows item with
  | some _ => none
  | none => classify item.content ((truthy item.type).getD "fact")

def itemEntry (rows : List StoredRow) (item : WmItem) : Entry where
  workspace := match rowOf rows item with
    | some row => row.workspace
    | none => item.workspace
  caseId := match rowOf rows item with
    | some row => row.caseId
    | none => none
  topic := match rowOf rows item with
    | some row => row.topic
    | none => item.topic
  text := derived rows item
  sourceFragmentId := none
  wmItemId := truthy item.id

def entriesOf (rows : List StoredRow) (items : List WmItem) : List Entry :=
  rows.map rowEntry ++ items.map (itemEntry rows)

def groupsOf (rows : List StoredRow) (items : List WmItem) : Map String Group :=
  groupBy Entry.key startGroup Group.put (entriesOf rows items)

structure SessionGroup where
  workspace : Option String
  caseId : Option String
  topic : Option String
  summary : Option String
  lists : ListField -> List String
  sourceFragmentIds : List String
  wmItemIds : List String

/-- The summary of the parts; `substring` counts UTF-16 units. -/
def summaryOf (sessionId : String) (parts : List String) : Option String :=
  if parts = [] then none
  else some ("세션 " ++ String.ofList (sliceUtf16 8 sessionId.toList) ++ "... 종합: " ++
    " ".intercalate parts)

def Group.hasNewContent (group : Group) : Bool :=
  !(group.texts .summary).isEmpty || !(group.texts (.list .decisions)).isEmpty ||
    !(group.texts (.list .errorsResolved)).isEmpty || !(group.texts (.list .errorsOpen)).isEmpty ||
    !(group.texts (.list .newProcedures)).isEmpty || !(group.texts (.list .openQuestions)).isEmpty

def sessionGroup (sessionId : String) (group : Group) : Option SessionGroup :=
  if !group.hasNewContent && group.wmItemIds.isEmpty then none
  else some
    { workspace := group.workspace
      caseId := group.caseId
      topic := group.topic
      summary := summaryOf sessionId (group.texts .summary)
      lists := fun field => (group.texts (.list field)).eraseDups
      sourceFragmentIds := group.sourceFragmentIds
      wmItemIds := group.wmItemIds.eraseDups }

def keyedGroups (sessionId : String) (rows : List StoredRow) (items : List WmItem) :
    List (String × SessionGroup) :=
  (groupsOf rows items).entries.filterMap fun entry =>
    (sessionGroup sessionId entry.2).map fun group => (entry.1, group)

/-- `consolidateSessionFragments`, on the stored fragments and the items in scope. -/
def consolidateSessionFragments (sessionId : String) (rows : List StoredRow)
    (items : List WmItem) : Option (List SessionGroup) :=
  if rows.isEmpty && items.isEmpty then none
  else
    let groups := (keyedGroups sessionId rows items).map Prod.snd
    if groups.isEmpty then none else some groups

theorem texts_foldl_put (place : Place) (entries : List Entry) (group : Group) :
    (entries.foldl Group.put group).texts place =
      group.texts place ++ entries.flatMap fun entry => entry.textsAt place := by
  induction entries generalizing group with
  | nil => simp
  | cons entry rest ih =>
    rw [foldl_cons, ih, flatMap_cons, ← append_assoc]
    rfl

theorem wmItemIds_foldl_put (entries : List Entry) (group : Group) :
    (entries.foldl Group.put group).wmItemIds =
      group.wmItemIds ++ entries.flatMap fun entry => entry.wmItemId.toList := by
  induction entries generalizing group with
  | nil => simp
  | cons entry rest ih =>
    rw [foldl_cons, ih, flatMap_cons, ← append_assoc]
    rfl

variable {group : Group}

theorem groupOf_eq_some {entries : List Entry}
    (hgroup : groupOf startGroup Group.put entries = some group) :
    (∀ place, group.texts place = entries.flatMap fun entry => entry.textsAt place) /\
      group.wmItemIds = entries.flatMap fun entry => entry.wmItemId.toList := by
  cases entries with
  | nil => cases hgroup
  | cons first rest =>
    cases hgroup
    constructor
    · intro place
      rw [texts_foldl_put]
      rfl
    · rw [wmItemIds_foldl_put]
      rfl

theorem mem_textsAt {entry : Entry} {place : Place} {text : String} :
    text ∈ entry.textsAt place <-> entry.text = some (place, text) := by
  unfold Entry.textsAt
  cases htext : entry.text with
  | none => simp
  | some found =>
    obtain ⟨target, given⟩ := found
    by_cases htarget : target = place
    · simp [htarget, eq_comm]
    · simp [htarget]

variable {rows : List StoredRow} {items : List WmItem} {key : String}

theorem mem_texts (hgroup : (groupsOf rows items).get key = some group) {place : Place}
    {text : String} :
    text ∈ group.texts place <->
      ∃ item ∈ items, (itemEntry rows item).key = key /\
        derived rows item = some (place, text) := by
  rw [groupsOf, get_groupBy] at hgroup
  rw [(groupOf_eq_some hgroup).1, mem_flatMap]
  simp only [mem_filter, decide_eq_true_eq, mem_textsAt, entriesOf, mem_append,
    mem_map]
  constructor
  · rintro ⟨entry, ⟨⟨row, -, rfl⟩ | ⟨item, hitem, rfl⟩, hkey⟩, htext⟩
    · cases htext
    · exact ⟨item, hitem, hkey, htext⟩
  · rintro ⟨item, hitem, hkey, htext⟩
    exact ⟨itemEntry rows item, ⟨.inr ⟨item, hitem, rfl⟩, hkey⟩, htext⟩

theorem mem_wmItemIds (hgroup : (groupsOf rows items).get key = some group) {id : String} :
    id ∈ group.wmItemIds <->
      ∃ item ∈ items, (itemEntry rows item).key = key /\ truthy item.id = some id := by
  rw [groupsOf, get_groupBy] at hgroup
  rw [(groupOf_eq_some hgroup).2, mem_flatMap]
  simp only [mem_filter, decide_eq_true_eq, entriesOf, mem_append, mem_map,
    Option.mem_toList]
  constructor
  · rintro ⟨entry, ⟨⟨row, -, rfl⟩ | ⟨item, hitem, rfl⟩, hkey⟩, hid⟩
    · cases hid
    · exact ⟨item, hitem, hkey, hid⟩
  · rintro ⟨item, hitem, hkey, hid⟩
    exact ⟨itemEntry rows item, ⟨.inr ⟨item, hitem, rfl⟩, hkey⟩, hid⟩

theorem exists_get_of_mem (rows : List StoredRow) {item : WmItem} (hitem : item ∈ items) :
    ∃ group, (groupsOf rows items).get (itemEntry rows item).key = some group := by
  rw [groupsOf, get_groupBy]
  have hmem : itemEntry rows item ∈
      (entriesOf rows items).filter fun entry => entry.key = (itemEntry rows item).key :=
    mem_filter.mpr ⟨mem_append_right _ (mem_map_of_mem hitem), by simp⟩
  cases hfound : (entriesOf rows items).filter fun entry =>
      entry.key = (itemEntry rows item).key with
  | nil =>
    rw [hfound] at hmem
    cases hmem
  | cons first rest => exact ⟨_, rfl⟩

variable {handed : SessionGroup}

theorem sessionGroup_eq_some {sessionId : String}
    (hhanded : sessionGroup sessionId group = some handed) :
    (∀ field text, text ∈ handed.lists field <-> text ∈ group.texts (.list field)) /\
      handed.summary = summaryOf sessionId (group.texts .summary) /\
      ∀ id, id ∈ handed.wmItemIds <-> id ∈ group.wmItemIds := by
  unfold sessionGroup at hhanded
  split at hhanded
  · cases hhanded
  · cases hhanded
    exact ⟨fun field text => mem_eraseDups, rfl, fun id => mem_eraseDups⟩

theorem mem_keyedGroups {sessionId : String} :
    (key, handed) ∈ keyedGroups sessionId rows items <->
      ∃ group, (groupsOf rows items).get key = some group /\
        sessionGroup sessionId group = some handed := by
  unfold keyedGroups
  simp only [mem_filterMap, Option.map_eq_some_iff, Prod.mk.injEq, Prod.exists]
  constructor
  · rintro ⟨name, group, hmem, handed', hhanded, rfl, rfl⟩
    exact ⟨group, (mem_entries_iff _ _ _).mp hmem, hhanded⟩
  · rintro ⟨group, hget, hhanded⟩
    exact ⟨key, group, (mem_entries_iff _ _ _).mpr hget, handed, hhanded, rfl, rfl⟩

theorem exists_group_of_item (sessionId : String) (rows : List StoredRow) {item : WmItem}
    (hitem : item ∈ items) {id : String} (hid : truthy item.id = some id) :
    ∃ handed, ((itemEntry rows item).key, handed) ∈ keyedGroups sessionId rows items /\
      id ∈ handed.wmItemIds := by
  obtain ⟨group, hgroup⟩ := exists_get_of_mem rows hitem
  have hlisted : id ∈ group.wmItemIds := (mem_wmItemIds hgroup).mpr ⟨item, hitem, rfl, hid⟩
  have hkept : ¬ ((!group.hasNewContent && group.wmItemIds.isEmpty) = true) := by
    cases hids : group.wmItemIds with
    | nil =>
      rw [hids] at hlisted
      cases hlisted
    | cons first rest => simp
  have hhanded : ∃ handed, sessionGroup sessionId group = some handed :=
    ⟨_, if_neg hkept⟩
  obtain ⟨handed, hhanded⟩ := hhanded
  exact ⟨handed, mem_keyedGroups.mpr ⟨group, hgroup, hhanded⟩,
    ((sessionGroup_eq_some hhanded).2.2 id).mpr hlisted⟩

theorem keyedGroups_keysNodup (sessionId : String) (rows : List StoredRow) (items : List WmItem) :
    ((keyedGroups sessionId rows items).map Prod.fst).Nodup := by
  refine Nodup.sublist ?_ (groupsOf rows items).keysNodup
  unfold keyedGroups
  rw [map_filterMap]
  induction (groupsOf rows items).entries with
  | nil => exact Sublist.slnil
  | cons entry rest ih =>
    rw [filterMap_cons, map_cons]
    cases sessionGroup sessionId entry.2 with
    | none => exact ih.cons _
    | some handed => exact ih.cons_cons _

end AnchorMind.Link.SessionGroups
