import AnchorMind.Kernel.NamedSets
import AnchorMind.Kernel.Transition
import AnchorMind.Text.Characters
import AnchorMind.Text.Keywords

/-!
# The inverted index of fragments

`index` puts the id of a fragment into the sets of its terms, of its topic, of its type,
and of the recent fragments of its key.  `deindex` works out the sets once more from what
a statement returned of the row, and takes the id out of these.
-/

namespace AnchorMind.Index.FragmentIndex

open Kernel.FirstOf Kernel.NamedSets Text.Keywords Text.Whitespace List

/-- The values the check constraint of the `type` column admits. -/
inductive FragmentType where
  | fact
  | decision
  | error
  | preference
  | procedure
  | relation
  | episode
deriving DecidableEq

def FragmentType.name : FragmentType -> String
  | .fact => "fact"
  | .decision => "decision"
  | .error => "error"
  | .preference => "preference"
  | .procedure => "procedure"
  | .relation => "relation"
  | .episode => "episode"

theorem FragmentType.name_ne_empty (type : FragmentType) : type.name ≠ "" := by
  cases type <;> decide

/-- The columns the index and the delete statements read. -/
structure Row where
  id : String
  keyId : Option String
  topic : String
  type : FragmentType
  keywords : List String
  content : String
  linkedTo : List String
deriving DecidableEq

/-- What the write gate hands to `FragmentFactory.create`. -/
structure Draft where
  keyId : Option String
  topic : Option String
  type : Option FragmentType
  keywords : List String
  content : String
  linkedTo : List String

section

variable (lower : String -> String)

def normalizeKeywords (keywords : List String) : List String := keywords.map lower

def maxMergedKeywords : Nat := 10

def mergeKeywords (supplied extracted : List String) : List String :=
  extracted.foldl (fun merged keyword =>
    if maxMergedKeywords ≤ merged.length then merged
    else if lower keyword ∈ merged.map lower then merged
    else merged ++ [keyword]) supplied

def topicOrGeneral (topic : Option String) : String :=
  let trimmed := trim (topic.getD "")
  if trimmed = "" then "general" else trimmed

def create (id : String) (draft : Draft) : Row where
  id := id
  keyId := draft.keyId
  topic := topicOrGeneral draft.topic
  type := draft.type.getD .fact
  keywords :=
    let extracted := extractKeywords lower draft.content 5
    if draft.keywords = [] then extracted
    else mergeKeywords lower (normalizeKeywords lower draft.keywords) extracted
  content := draft.content
  linkedTo := draft.linkedTo

theorem topicOrGeneral_ne_empty (topic : Option String) : topicOrGeneral topic ≠ "" := by
  unfold topicOrGeneral
  dsimp only
  split
  · decide
  · assumption

theorem create_topic_ne_empty (id : String) (draft : Draft) :
    (create lower id draft).topic ≠ "" := by
  simp only [create]
  exact topicOrGeneral_ne_empty draft.topic

end

def keyNs : Option String -> String
  | none => "_g"
  | some key => "_k" ++ key

def termSet (keyId : Option String) (term : String) : String :=
  "frag:kw:" ++ keyNs keyId ++ ":" ++ term

def topicSet (keyId : Option String) (topic : String) : String :=
  "frag:tp:" ++ keyNs keyId ++ ":" ++ topic

def typeSet (keyId : Option String) (type : String) : String :=
  "frag:ty:" ++ keyNs keyId ++ ":" ++ type

def recentSet (keyId : Option String) : String := "frag:recent:" ++ keyNs keyId

variable {keyId : Option String} {term other : String}

theorem termSet_inj (hsame : termSet keyId term = termSet keyId other) : term = other := by
  have hlists := congrArg String.toList hsame
  simp only [termSet, String.toList_append] at hlists
  exact String.toList_inj.mp (append_cancel_left hlists)

theorem termSet_ne_topicSet (topic : String) : termSet keyId term ≠ topicSet keyId topic := by
  intro hsame
  have hlists := congrArg (fun name => name.toList.take 6) hsame
  simp [termSet, topicSet] at hlists

theorem termSet_ne_typeSet (type : String) : termSet keyId term ≠ typeSet keyId type := by
  intro hsame
  have hlists := congrArg (fun name => name.toList.take 6) hsame
  simp [termSet, typeSet] at hlists

theorem termSet_ne_recentSet : termSet keyId term ≠ recentSet keyId := by
  intro hsame
  have hlists := congrArg (fun name => name.toList.take 6) hsame
  simp [termSet, recentSet] at hlists

theorem topicSet_inj (hsame : topicSet keyId term = topicSet keyId other) : term = other := by
  have hlists := congrArg String.toList hsame
  simp only [topicSet, String.toList_append] at hlists
  exact String.toList_inj.mp (append_cancel_left hlists)

theorem topicSet_ne_typeSet (topic type : String) : topicSet keyId topic ≠ typeSet keyId type := by
  intro hsame
  have hlists := congrArg (fun name => name.toList.take 7) hsame
  simp [topicSet, typeSet] at hlists

theorem topicSet_ne_recentSet (topic : String) : topicSet keyId topic ≠ recentSet keyId := by
  intro hsame
  have hlists := congrArg (fun name => name.toList.take 6) hsame
  simp [topicSet, recentSet] at hlists

section

variable (lower : String -> String)

def contentTerms : Option String -> List String
  | none => []
  | some content => if content = "" then [] else extractKeywords lower content 8

def indexedTerms (keywords : List String) (content : Option String) : List String :=
  firsts id (keywords.map lower ++ contentTerms lower content)

/-- The sets `index` puts a fragment into. -/
def indexSets (row : Row) : List String :=
  (indexedTerms lower row.keywords (some row.content)).map (termSet row.keyId) ++
    [topicSet row.keyId row.topic, typeSet row.keyId row.type.name, recentSet row.keyId]

structure Returned where
  id : String
  keywords : List String
  topic : String
  type : String
  keyId : Option String
  content : Option String

/-- `DEINDEX_COLUMNS`. -/
def Row.deindexColumns (row : Row) : Returned :=
  ⟨row.id, row.keywords, row.topic, row.type.name, row.keyId, some row.content⟩

/-- The sets `deindex` takes a fragment out of. -/
def deindexSets (returned : Returned) : List String :=
  (indexedTerms lower returned.keywords returned.content).map (termSet returned.keyId) ++
    (if returned.topic = "" then [] else [topicSet returned.keyId returned.topic]) ++
    (if returned.type = "" then [] else [typeSet returned.keyId returned.type]) ++
    [recentSet returned.keyId]

abbrev IndexSets := Sets String String

def index (sets : IndexSets) (row : Row) : IndexSets := add sets (indexSets lower row) row.id

def deindex (sets : IndexSets) (returned : Returned) : IndexSets :=
  remove sets (deindexSets lower returned) returned.id

def deindexRows (sets : IndexSets) (rows : List Returned) : IndexSets :=
  rows.foldl (deindex lower) sets

variable {lower} {row : Row} {returned : Returned} {name : String}

theorem mem_indexedTerms {keywords : List String} {content : Option String} {term : String} :
    term ∈ indexedTerms lower keywords content <->
      term ∈ keywords.map lower \/ term ∈ contentTerms lower content := by
  have hfirsts := exists_mem_firsts id (keywords.map lower ++ contentTerms lower content) term
  unfold indexedTerms
  simpa only [id_eq, exists_eq_right, mem_append] using hfirsts

/-- With the columns it is meant to get, `deindex` finds the sets `index` used. -/
theorem deindexSets_deindexColumns (htopic : row.topic ≠ "") :
    deindexSets lower row.deindexColumns = indexSets lower row := by
  simp [deindexSets, indexSets, Row.deindexColumns, htopic, FragmentType.name_ne_empty]

theorem mem_deindexSets_of_indexSets (htopic : row.topic ≠ "")
    (hname : name ∈ indexSets lower row) : name ∈ deindexSets lower row.deindexColumns := by
  rwa [deindexSets_deindexColumns htopic]

theorem mem_indexSets : name ∈ indexSets lower row <->
    name ∈ (indexedTerms lower row.keywords (some row.content)).map (termSet row.keyId) \/
      name = topicSet row.keyId row.topic \/ name = typeSet row.keyId row.type.name \/
        name = recentSet row.keyId := by
  simp only [indexSets, mem_append, mem_cons, not_mem_nil, or_false]

theorem mem_deindexSets : name ∈ deindexSets lower returned <->
    name ∈ (indexedTerms lower returned.keywords returned.content).map (termSet returned.keyId) \/
      (returned.topic ≠ "" /\ name = topicSet returned.keyId returned.topic) \/
        (returned.type ≠ "" /\ name = typeSet returned.keyId returned.type) \/
          name = recentSet returned.keyId := by
  simp only [deindexSets, mem_append, mem_ite_nil_left, mem_singleton, or_assoc,
    ne_eq]

/-- `deindex` never looks further than `index` went. -/
theorem deindexSets_subset : deindexSets lower row.deindexColumns ⊆ indexSets lower row := by
  intro name hname
  rw [mem_indexSets]
  rcases mem_deindexSets.mp hname with hterm | ⟨-, htopic⟩ | ⟨-, htype⟩ | hrecent
  · exact .inl hterm
  · exact .inr (.inl htopic)
  · exact .inr (.inr (.inl htype))
  · exact .inr (.inr (.inr hrecent))

theorem termSet_mem_deindexSets {term : String} :
    termSet returned.keyId term ∈ deindexSets lower returned <->
      term ∈ indexedTerms lower returned.keywords returned.content := by
  rw [mem_deindexSets]
  constructor
  · rintro (hmem | ⟨-, htopic⟩ | ⟨-, htype⟩ | hrecent)
    · obtain ⟨other, hother, hsame⟩ := mem_map.mp hmem
      rwa [termSet_inj hsame] at hother
    · exact absurd htopic (termSet_ne_topicSet _)
    · exact absurd htype (termSet_ne_typeSet _)
    · exact absurd hrecent termSet_ne_recentSet
  · intro hterm
    exact .inl (mem_map.mpr ⟨term, hterm, rfl⟩)

theorem topicSet_mem_indexSets {topic : String} :
    topicSet row.keyId topic ∈ indexSets lower row <-> topic = row.topic := by
  rw [mem_indexSets]
  constructor
  · rintro (hmem | htopic | htype | hrecent)
    · obtain ⟨term, -, hsame⟩ := mem_map.mp hmem
      exact absurd hsame (termSet_ne_topicSet topic)
    · exact topicSet_inj htopic
    · exact absurd htype (topicSet_ne_typeSet _ _)
    · exact absurd hrecent (topicSet_ne_recentSet _)
  · rintro rfl
    exact .inr (.inl rfl)

end

end AnchorMind.Index.FragmentIndex

/-!
# Inserts, amends, and the ways fragments are deleted

Every path that deletes fragments cleans up after the rows its statement returned: the
audit records that point to them, the references to them, and the index.  The statements
return `DEINDEX_COLUMNS`, the one of the forget cascade the columns it selects from what
was deleted.
-/

namespace AnchorMind.Index.DeletePaths

open Kernel.Transition Kernel.NamedSets Index.FragmentIndex

structure Store where
  table : List Row
  sets : IndexSets

structure Changes where
  content : Option String
  topic : Option String
  keywords : Option (List String)
  type : Option FragmentType

def Changes.apply (changes : Changes) (row : Row) : Row :=
  { row with
    content := changes.content.getD row.content
    topic := changes.topic.getD row.topic
    keywords := changes.keywords.getD row.keywords
    type := changes.type.getD row.type }

section

variable (lower : String -> String)

def afterAmend (sets : IndexSets) (existing result : Row) : IndexSets :=
  index lower (deindex lower sets existing.deindexColumns) { result with keyId := existing.keyId }

def contradictionAuditTopic : String := "contradiction_audit"

/-- A record the server wrote about a contradiction it resolved. -/
def isAudit (row : Row) : Bool :=
  decide (row.topic = contradictionAuditTopic) && row.keyId.isNone

def unlink (ids : List String) (row : Row) : Row :=
  { row with linkedTo := row.linkedTo.filter fun id => decide (id ∉ ids) }

/-- The rows a delete returned, cleaned up after.  With `copies` the audit records that
point to them go too. -/
def cleanupDeletedRows (store : Store) (rows : List Returned) (copies : Bool) : Store :=
  let list := rows.filter fun row => decide (row.id ≠ "")
  let ids := list.map Returned.id
  if ids = [] then store
  else
    let audited (row : Row) : Bool := copies && isAudit row &&
      row.linkedTo.any (fun id => decide (id ∈ ids)) && decide (row.id ∉ ids)
    let list := list ++ (store.table.filter audited).map Row.deindexColumns
    let removedIds := list.map Returned.id
    { table := (store.table.filter fun row => !audited row).map (unlink removedIds)
      sets := deindexRows lower store.sets list }

def deleteRows (store : Store) (gone : Row -> Bool) (columns : Row -> Returned) (copies : Bool) :
    Store :=
  cleanupDeletedRows lower { store with table := store.table.filter fun row => !gone row }
    ((store.table.filter gone).map columns) copies

def inScope (scope : Option String) (row : Row) : Bool :=
  scope.isNone || decide (row.keyId = scope)

def targeted (ids : List String) (scope : Option String) (row : Row) : Bool :=
  decide (row.id ∈ ids) && inScope scope row

/-- `delete`, `deleteMany`, and the garbage collections. -/
def deleteMany (store : Store) (ids : List String) (scope : Option String) (copies : Bool) :
    Store :=
  deleteRows lower store (targeted ids scope) Row.deindexColumns copies

def cascadeLocked (table : List Row) (ids : List String) (scope : Option String) (row : Row) :
    Bool :=
  targeted ids scope row || isAudit row && table.any fun source =>
    targeted ids scope source && decide (source.topic ≠ contradictionAuditTopic) &&
      decide (source.id ∈ row.linkedTo)

/-- What `CASCADE_DELETE_SQL` selects from the rows it deleted. -/
def cascadeColumns (row : Row) : Returned := { row.deindexColumns with content := none }

def deleteWithCascade (store : Store) (ids : List String) (scope : Option String) : Store :=
  deleteRows lower store (cascadeLocked store.table ids scope) cascadeColumns false

inductive Label where
  /-- A write under a generated id, of a single fragment or of an item of a batch: the
  store creates the row or names an existing one, and the path indexes it or not. -/
  | remember (draft : Draft) (id : String) (existing : Option String) (indexed : Bool)
  /-- An import creates a row and leaves the index to the next warm-up. -/
  | importRow (row : Row)
  /-- The update goes through unless the content is that of another fragment. -/
  | amend (id : String) (changes : Changes) (duplicate : Bool)
  /-- By id or by topic, with the cascade on or off. -/
  | forget (ids : List String) (scope : Option String) (cascade : Bool)
  | collect (ids : List String)

def fresh (table : List Row) (id : String) : Bool :=
  decide (id ≠ "") && table.all fun row => decide (row.id ≠ id)

def step (store : Store) : Label -> Option Store
  | .remember draft id none indexed =>
    if fresh store.table id then
      let row := create lower id draft
      some ⟨store.table ++ [row], if indexed then index lower store.sets row else store.sets⟩
    else none
  | .remember draft id (some existing) indexed =>
    if store.table.any fun row => decide (row.id = existing /\ row.keyId = draft.keyId) then
      -- the fragment that was not stored is indexed under the id of the existing row
      let row := { create lower id draft with id := existing }
      some { store with sets := if indexed then index lower store.sets row else store.sets }
    else none
  | .importRow row =>
    if fresh store.table row.id then some { store with table := store.table ++ [row] } else none
  | .amend id changes duplicate =>
    match store.table.find? fun row => decide (row.id = id) with
    | none => some store
    | some existing =>
      if duplicate then some store
      else
        let result := changes.apply existing
        some ⟨store.table.map fun row => if row.id = id then result else row,
          afterAmend lower store.sets existing result⟩
  | .forget ids scope cascade =>
    if cascade then some (deleteWithCascade lower store ids scope)
    else some (deleteMany lower store ids scope false)
  | .collect ids => some (deleteMany lower store ids none true)

end

def system (lower : String -> String) : System Store Label where
  start store := store.table = [] /\ ∀ name, store.sets name = ∅
  step before label after := step lower before label = some after

def NoStaleId (store : Store) : Prop :=
  ∀ name id, id ∈ store.sets name -> ∃ row ∈ store.table, row.id = id

/-- The steps after which deindexing finds every set again: a write that meets an
existing row brings no term, topic, or type of its own, an amend leaves a topic, and the
contents the cascade deletes have no term their keywords do not have. -/
def KeepsIndex (lower : String -> String) (store : Store) : Label -> Prop
  | .remember draft id (some existing) true => ∀ row ∈ store.table, row.id = existing ->
      row.keyId = draft.keyId ->
        let created := create lower id draft
        created.topic = row.topic /\ created.type = row.type /\
          indexedTerms lower created.keywords (some created.content) ⊆
            indexedTerms lower row.keywords (some row.content)
  | .amend id changes false => ∀ row ∈ store.table, row.id = id ->
      (changes.apply row).topic ≠ ""
  | .forget ids scope true => ∀ row ∈ store.table,
      cascadeLocked store.table ids scope row = true ->
        contentTerms lower (some row.content) ⊆ row.keywords.map lower
  | _ => True

end AnchorMind.Index.DeletePaths
