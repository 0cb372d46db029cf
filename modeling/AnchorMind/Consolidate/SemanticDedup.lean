import AnchorMind.Kernel.Chains
import AnchorMind.Kernel.KeyedTable
import AnchorMind.Link.LinkStore

/-!
# Merging semantic duplicates

Fragments of one topic, workspace and key are compared pair by pair.  A pair that is
close enough and passes the gate is merged in one transaction: the older fragment is
closed, its links move to the younger one, and it names that one as its successor.
-/

namespace AnchorMind.Consolidate.SemanticDedup

open Kernel.KeyedTable Link List

structure Row where
  id : String
  topic : Option String
  workspace : Option String
  keyId : Option String
  content : String
  createdAt : Nat
  isAnchor : Bool
  hasEmbedding : Bool
  accessCount : Nat
  validTo : Option Nat
  deriving DecidableEq

abbrev Rows := Table Row.id fun _ => True

/-- The fragments, under pairwise distinct ids, and the links between them. -/
structure Store where
  rows : Rows
  links : LinkTable String Rat

/-- `SET valid_to = NOW() WHERE id = $1 AND valid_to IS NULL` -/
def closeRow (id : String) (now : Nat) : Table.Update Row.id (fun _ => True) where
  select row := decide (row.id = id) && row.validTo.isNone
  image row := { row with validTo := some now }
  keepsKey _ := rfl
  keepsCheck _ _ _ := trivial

/-- `SET access_count = $1 WHERE id = $2` -/
def countRow (id : String) (accessCount : Nat) : Table.Update Row.id (fun _ => True) where
  select row := decide (row.id = id)
  image row := { row with accessCount := accessCount }
  keepsKey _ := rfl
  keepsCheck _ _ _ := trivial

def moveFrom (keepId oldId : String) (links : LinkTable String Rat) : LinkTable String Rat :=
  fun key =>
    if key.1 = oldId ∧ key.2 ≠ keepId ∧ links (keepId, key.2) = none then none
    else if key.1 = keepId ∧ key.2 ≠ keepId ∧ links key = none then links (oldId, key.2)
    else links key

def moveTo (keepId oldId : String) (links : LinkTable String Rat) : LinkTable String Rat :=
  fun key =>
    if key.2 = oldId ∧ key.1 ≠ keepId ∧ links (key.1, keepId) = none then none
    else if key.2 = keepId ∧ key.1 ≠ keepId ∧ links key = none then links (key.1, oldId)
    else links key

def deleteLink (fromId toId : String) (links : LinkTable String Rat) : LinkTable String Rat :=
  fun key => if key = (fromId, toId) then none else links key

def mergeLinks (keepId oldId : String) (links : LinkTable String Rat) : LinkTable String Rat :=
  supersede oldId keepId
    (deleteLink keepId oldId (moveTo keepId oldId
      (deleteLink oldId keepId (moveFrom keepId oldId links))))

def isLivePair (keepId oldId : String) (row : Row) : Bool :=
  (decide (row.id = keepId) || decide (row.id = oldId)) && row.validTo.isNone

structure Merge where
  merged : Bool
  rolledBack : Bool
  store : Store

/-- `mergeDedupPair`.  Nothing is written unless both rows are locked alive; `commits`
is false where the transaction fails. -/
def mergeDedupPair (commits : Bool) (now : Nat) (store : Store) (keepId oldId : String) : Merge :=
  let alive := store.rows.rows.filter (isLivePair keepId oldId)
  if alive.length ≠ 2 then { merged := false, rolledBack := false, store := store }
  else if !commits then { merged := false, rolledBack := true, store := store }
  else
    let combinedAccess := (alive.map Row.accessCount).sum
    let closed := store.rows.apply (closeRow oldId now)
    { merged := true
      rolledBack := false
      store := ⟨closed.apply (countRow keepId combinedAccess), mergeLinks keepId oldId store.links⟩
        }

structure Loaded where
  id : String
  content : String
  createdAt : Nat
  isAnchor : Bool

/-- `compareRecency`: the first comes after the second. -/
def moreRecent (a b : Loaded) : Bool :=
  decide (b.createdAt < a.createdAt) ||
    decide (a.createdAt = b.createdAt) && decide (b.id < a.id)

structure Group where
  topic : String
  workspace : Option String
  keyId : Option String
  deriving DecidableEq

/-- What the vectors, the merge gate and the database answer, and how far the time
budget reaches. -/
structure Verdicts where
  hasVector : String -> Bool
  neighbors : List Loaded -> Nat -> List (Nat × Rat)
  allows : String -> String -> Rat -> Bool
  commits : String -> String -> Bool
  topicsInTime : Nat

structure Stats where
  merged : Nat := 0
  blocked : Nat := 0
  rolledBack : Nat := 0
  groups : Nat := 0

structure Run where
  store : Store
  processed : List String := []
  stats : Stats := {}

/-- `COS_THRESHOLD` -/
def cosThreshold : Rat := 92 / 100

structure Judging where
  judged : List String
  run : Run

def pairKey (frag candidate : Loaded) : String :=
  if frag.id < candidate.id then frag.id ++ "|" ++ candidate.id
  else candidate.id ++ "|" ++ frag.id

section

variable (verdicts : Verdicts) (now : Nat)

/-- One candidate is judged and merged; the answer is whether the fragment in turn was
closed itself. -/
def judgeCandidate (frag candidate : Loaded) (cosine : Rat) (state : Judging) : Bool × Judging :=
  if cosine < cosThreshold ∨ candidate.isAnchor ∨ candidate.id ∈ state.run.processed then
    (false, state)
  else if pairKey frag candidate ∈ state.judged then (false, state)
  else
    let judged := pairKey frag candidate :: state.judged
    let fragKept := moreRecent frag candidate
    let keep := if fragKept then frag else candidate
    let old := if fragKept then candidate else frag
    if !verdicts.allows keep.id old.id cosine then
      (false, ⟨judged, { state.run with
        stats := { state.run.stats with blocked := state.run.stats.blocked + 1 } }⟩)
    else
      let merge :=
        mergeDedupPair (verdicts.commits keep.id old.id) now state.run.store keep.id old.id
      if merge.merged then
        (decide (old.id = frag.id),
          ⟨judged, { store := merge.store
                     processed := old.id :: state.run.processed
                     stats := { state.run.stats with merged := state.run.stats.merged + 1 } }⟩)
      else
        (false, ⟨judged, { state.run with
          store := merge.store
          stats := { state.run.stats with
            rolledBack := state.run.stats.rolledBack + merge.rolledBack.toNat } }⟩)

def judgeNeighbors (frags : List Loaded) (frag : Loaded) : List (Nat × Rat) -> Judging -> Judging
  | [], state => state
  | (index, cosine) :: rest, state =>
    match frags[index]? with
    | none => judgeNeighbors frags frag rest state
    | some candidate =>
      let (closedSelf, judged) := judgeCandidate verdicts now frag candidate cosine state
      if closedSelf then judged else judgeNeighbors frags frag rest judged

def judgeFragments (frags : List Loaded) : List (Loaded × Nat) -> Judging -> Judging
  | [], state => state
  | (frag, index) :: rest, state =>
    if frag.isAnchor ∨ frag.id ∈ state.run.processed then judgeFragments frags rest state
    else judgeFragments frags rest
      (judgeNeighbors verdicts now frags frag (verdicts.neighbors frags index) state)

def inGroup (group : Group) (row : Row) : Bool :=
  decide (row.topic = some group.topic) && decide (row.workspace = group.workspace) &&
    row.hasEmbedding && row.validTo.isNone && decide (row.keyId = group.keyId)

def loadGroup (store : Store) (group : Group) : List Loaded :=
  ((store.rows.rows.filter (inGroup group)).filter fun row => verdicts.hasVector row.id).map
    fun row => ⟨row.id, row.content, row.createdAt, row.isAnchor⟩

def dedupGroup (run : Run) (group : Group) : Run :=
  let counted := { run with stats := { run.stats with groups := run.stats.groups + 1 } }
  let frags := loadGroup verdicts run.store group
  if frags.length < 2 then counted
  else
    let order := frags.zipIdx.mergeSort fun a b => !moreRecent b.1 a.1
    (judgeFragments verdicts now frags order ⟨[], counted⟩).run

def embeddedTopics (store : Store) : List String :=
  (store.rows.rows.filter fun row => row.hasEmbedding && row.validTo.isNone).filterMap Row.topic

def loadTopics (store : Store) (minFragments limit : Nat) : List String :=
  let topics := embeddedTopics store
  ((topics.dedup.filter fun topic => decide (minFragments ≤ topics.count topic)).mergeSort
    fun a b => decide (topics.count b ≤ topics.count a)).take limit

def loadGroups (store : Store) (topic : String) : List Group :=
  let groups := (store.rows.rows.filter fun row =>
    decide (row.topic = some topic) && row.hasEmbedding && row.validTo.isNone).map
      fun row => Group.mk topic row.workspace row.keyId
  groups.dedup.filter fun group => decide (2 ≤ groups.count group)

def dedupTopic (run : Run) (topic : String) : Run :=
  (loadGroups run.store topic).foldl (dedupGroup verdicts now) run

def runSemanticDedup (minFragments batchSize : Nat) (store : Store) : Run :=
  ((loadTopics store minFragments batchSize).take verdicts.topicsInTime).foldl
    (dedupTopic verdicts now) { store := store }

end

end AnchorMind.Consolidate.SemanticDedup

/-!
# Chains of superseded fragments

Every fragment a run of the semantic dedup closes names a younger fragment of its
group, and by such names leads to one that is live.  A merge keeps the chains of the
fragments closed before it: a link to the fragment it closes stays or moves to that
fragment's successor.
-/

namespace AnchorMind.Consolidate.SemanticDedup

open Kernel.KeyedTable Kernel.Succession Link List

def Live (store : Store) (id : String) : Prop :=
  ∃ row ∈ store.rows, row.id = id /\ row.validTo = none

def ClosedSince (start store : Store) (id : String) : Prop :=
  Live start id /\ Not (Live store id)

/-- One row comes before another in the order of `compareRecency`. -/
def Before (a b : Row) : Prop :=
  a.createdAt < b.createdAt \/ (a.createdAt = b.createdAt /\ a.id < b.id)

def YoungerInGroup (start : Store) (id younger : String) : Prop :=
  ∃ row next, row ∈ start.rows /\ next ∈ start.rows /\ row.id = id /\ next.id = younger /\
    Before row next /\ row.topic = next.topic /\ row.workspace = next.workspace /\
    row.keyId = next.keyId

def Superseded (store : Store) (id next : String) : Prop :=
  ∃ row, store.links (id, next) = some row /\ row.relationType = some .supersededBy /\
    row.deletedAt = none

/-- The columns a merge leaves alone. -/
structure SameFragment (first row : Row) : Prop where
  id : first.id = row.id
  topic : first.topic = row.topic
  workspace : first.workspace = row.workspace
  keyId : first.keyId = row.keyId
  createdAt : first.createdAt = row.createdAt
  isAnchor : first.isAnchor = row.isAnchor

theorem SameFragment.trans {a b c : Row} (hab : SameFragment a b) (hbc : SameFragment b c) :
    SameFragment a c where
  id := hab.id.trans hbc.id
  topic := hab.topic.trans hbc.topic
  workspace := hab.workspace.trans hbc.workspace
  keyId := hab.keyId.trans hbc.keyId
  createdAt := hab.createdAt.trans hbc.createdAt
  isAnchor := hab.isAnchor.trans hbc.isAnchor

variable {start store : Store} {keepId oldId id : String}

theorem Before.trans {a b c : Row} (hab : Before a b) (hbc : Before b c) : Before a c := by
  rcases hab with hab | ⟨hab, hid⟩
  · rcases hbc with hbc | ⟨hbc, -⟩
    · exact .inl (hab.trans hbc)
    · exact .inl (hbc ▸ hab)
  · rcases hbc with hbc | ⟨hbc, hnext⟩
    · exact .inl (hab ▸ hbc)
    · exact Or.inr ⟨hab.trans hbc, hid.trans hnext⟩

theorem Before.irrefl (a : Row) : Not (Before a a) := by
  rintro (hlt | ⟨-, hlt⟩)
  · exact Nat.lt_irrefl _ hlt
  · exact lt_irrefl _ hlt

theorem YoungerInGroup.trans {a b c : String} (hab : YoungerInGroup start a b)
    (hbc : YoungerInGroup start b c) : YoungerInGroup start a c := by
  obtain ⟨row, mid, hrow, hmid, rfl, rfl, hbefore, htopic, hworkspace, hkey⟩ := hab
  obtain ⟨same, next, hsame, hnext, hid, rfl, hafter, htopic', hworkspace', hkey'⟩ := hbc
  cases Table.eq_of_key_eq hsame hmid hid
  exact ⟨row, next, hrow, hnext, rfl, rfl, hbefore.trans hafter, htopic.trans htopic',
    hworkspace.trans hworkspace', hkey.trans hkey'⟩

theorem YoungerInGroup.irrefl (a : String) : Not (YoungerInGroup start a a) := by
  rintro ⟨row, next, hrow, hnext, hid, hid', hbefore, -⟩
  cases Table.eq_of_key_eq hrow hnext (hid.trans hid'.symm)
  exact Before.irrefl row hbefore

section

variable {commits : Bool} {now : Nat}

def afterMerge (now accessCount : Nat) (store : Store) (keepId oldId : String) : Store :=
  ⟨(store.rows.apply (closeRow oldId now)).apply (countRow keepId accessCount),
    mergeLinks keepId oldId store.links⟩

theorem mergeDedupPair_cases (commits : Bool) (now : Nat) (store : Store) (keepId oldId : String) :
    ((mergeDedupPair commits now store keepId oldId).merged = false /\
      (mergeDedupPair commits now store keepId oldId).store = store) \/
    ((mergeDedupPair commits now store keepId oldId).merged = true /\
      (store.rows.rows.filter (isLivePair keepId oldId)).length = 2 /\
      ∃ accessCount, (mergeDedupPair commits now store keepId oldId).store =
        afterMerge now accessCount store keepId oldId) := by
  simp only [mergeDedupPair]
  by_cases hcount : (store.rows.rows.filter (isLivePair keepId oldId)).length = 2
  · cases commits with
    | false => exact .inl (by simp [hcount])
    | true =>
      right
      rw [if_neg (by simpa using hcount)]
      exact ⟨rfl, hcount, _, rfl⟩
  · left
    rw [if_pos hcount]
    exact ⟨rfl, rfl⟩

theorem live_of_pair (hcount : (store.rows.rows.filter (isLivePair keepId oldId)).length = 2) :
    keepId ≠ oldId /\ Live store keepId /\ Live store oldId := by
  have hids : ((store.rows.rows.filter (isLivePair keepId oldId)).map Row.id).Nodup :=
    store.rows.keysNodup.sublist (filter_sublist.map Row.id)
  have hmem : ∀ row ∈ store.rows.rows.filter (isLivePair keepId oldId),
      (row.id = keepId \/ row.id = oldId) /\ Live store row.id := by
    intro row hrow
    obtain ⟨hmem, halive⟩ := mem_filter.mp hrow
    simp only [isLivePair, Bool.and_eq_true, Bool.or_eq_true, decide_eq_true_iff,
      Option.isNone_iff_eq_none] at halive
    exact ⟨halive.1, row, hmem, rfl, halive.2⟩
  obtain ⟨first, second, hpair⟩ := length_eq_two.mp hcount
  rw [hpair] at hids hmem
  have hne : first.id ≠ second.id := by simpa using hids
  obtain ⟨hfirst, hfirstLive⟩ := hmem first (by simp)
  obtain ⟨hsecond, hsecondLive⟩ := hmem second (by simp)
  rcases hfirst with rfl | rfl
  · rcases hsecond with hsame | rfl
    · exact absurd hsame.symm hne
    · exact ⟨hne, hfirstLive, hsecondLive⟩
  · rcases hsecond with rfl | hsame
    · exact ⟨hne.symm, hsecondLive, hfirstLive⟩
    · exact absurd hsame.symm hne

theorem mem_merged {accessCount : Nat} {row : Row}
    (hrow : row ∈ (afterMerge now accessCount store keepId oldId).rows) :
    ∃ source ∈ store.rows, SameFragment source row /\
      (row.validTo = none -> source.validTo = none /\ source.id ≠ oldId) := by
  have hclose : ∀ closed ∈ store.rows.apply (closeRow oldId now),
      ∃ source ∈ store.rows, SameFragment source closed /\
        (closed.validTo = none -> source.validTo = none /\ source.id ≠ oldId) := by
    intro closed hclosed
    obtain ⟨source, hsource, hcase⟩ := Table.mem_apply.mp hclosed
    refine ⟨source, hsource, ?_⟩
    rcases hcase with ⟨-, rfl⟩ | ⟨hopen, rfl⟩
    · exact ⟨⟨rfl, rfl, rfl, rfl, rfl, rfl⟩, fun hlive => by cases hlive⟩
    · refine ⟨⟨rfl, rfl, rfl, rfl, rfl, rfl⟩, fun hlive => ⟨hlive, ?_⟩⟩
      intro hid
      simp [closeRow, hid, hlive] at hopen
  obtain ⟨closed, hclosed, hcounted⟩ := Table.mem_apply.mp hrow
  obtain ⟨source, hsource, hsame, hlive⟩ := hclose closed hclosed
  rcases hcounted with ⟨-, rfl⟩ | ⟨-, rfl⟩
  · exact ⟨source, hsource, ⟨hsame.id, hsame.topic, hsame.workspace, hsame.keyId,
      hsame.createdAt, hsame.isAnchor⟩, hlive⟩
  · exact ⟨source, hsource, hsame, hlive⟩

theorem exists_merged {accessCount : Nat} {source : Row} (hsource : source ∈ store.rows) :
    ∃ row ∈ (afterMerge now accessCount store keepId oldId).rows,
      row.id = source.id /\
      (source.id ≠ oldId -> source.validTo = none -> row.validTo = none) := by
  have hclosed : ∃ closed ∈ store.rows.apply (closeRow oldId now),
      closed.id = source.id /\
      (source.id ≠ oldId -> source.validTo = none -> closed.validTo = none) := by
    cases hselect : (closeRow oldId now).select source with
    | true =>
      refine ⟨_, Table.mem_apply_of_selected hsource hselect, rfl, ?_⟩
      intro hne
      simp [closeRow, hne] at hselect
    | false => exact ⟨source, Table.mem_apply_of_unselected hsource hselect, rfl, fun _ => id⟩
  obtain ⟨closed, hclosed, hid, hlive⟩ := hclosed
  cases hselect : (countRow keepId accessCount).select closed with
  | true => exact ⟨_, Table.mem_apply_of_selected hclosed hselect, hid, hlive⟩
  | false => exact ⟨closed, Table.mem_apply_of_unselected hclosed hselect, hid, hlive⟩

end

variable {links : LinkTable String Rat}

theorem mergeLinks_other {item next : String} {row : LinkRow Rat} (hitemOld : item ≠ oldId)
    (hitemKeep : item ≠ keepId) (hnext : next ≠ oldId) (hrow : links (item, next) = some row) :
    mergeLinks keepId oldId links (item, next) = some row := by
  have hfrom : moveFrom keepId oldId links (item, next) = some row := by
    simp [moveFrom, hitemOld, hitemKeep, hrow]
  have hdelete : deleteLink oldId keepId (moveFrom keepId oldId links) (item, next) = some row := by
    simp [deleteLink, hitemOld, hfrom]
  have hto : moveTo keepId oldId (deleteLink oldId keepId (moveFrom keepId oldId links))
      (item, next) = some row := by
    simp [moveTo, hnext, hdelete]
  simp [mergeLinks, supersede, deleteLink, hitemOld, hitemKeep, hto]

theorem mergeLinks_old {item : String} {row : LinkRow Rat} (hne : keepId ≠ oldId)
    (hitemOld : item ≠ oldId) (hitemKeep : item ≠ keepId) (hrow : links (item, oldId) = some row) :
    mergeLinks keepId oldId links (item, oldId) = some row \/
      mergeLinks keepId oldId links (item, keepId) = some row := by
  have hrest : ∀ next, deleteLink oldId keepId (moveFrom keepId oldId links) (item, next) =
      links (item, next) := by
    intro next
    simp [deleteLink, moveFrom, hitemOld, hitemKeep]
  cases htaken : links (item, keepId) with
  | some taken =>
    left
    have hto : moveTo keepId oldId (deleteLink oldId keepId (moveFrom keepId oldId links))
        (item, oldId) = some row := by
      simp [moveTo, hrest, htaken, hrow, hitemKeep]
    simp [mergeLinks, supersede, deleteLink, hitemOld, hitemKeep, hto]
  | none =>
    right
    have hto : moveTo keepId oldId (deleteLink oldId keepId (moveFrom keepId oldId links))
        (item, keepId) = some row := by
      simp [moveTo, hrest, htaken, hrow, hitemKeep, hne]
    simp [mergeLinks, supersede, deleteLink, hitemOld, hitemKeep, hto]

theorem mergeLinks_superseded :
    ∃ row, mergeLinks keepId oldId links (oldId, keepId) = some row /\
      row.relationType = some .supersededBy /\ row.deletedAt = none := by
  simp only [mergeLinks, supersede]
  rw [if_pos trivial]
  split <;> exact ⟨_, rfl, rfl, rfl⟩

structure Sound (start store : Store) : Prop where
  back : ∀ row ∈ store.rows, ∃ first ∈ start.rows,
    SameFragment first row /\ (row.validTo = none -> first.validTo = none)
  chains : Succeeded (ClosedSince start store) (Live store) (Superseded store)
    (YoungerInGroup start)
  anchors : ∀ row ∈ start.rows, row.isAnchor = true -> row.validTo = none ->
    Live store row.id

theorem sound_start : Sound store store where
  back row hrow := ⟨row, hrow, ⟨rfl, rfl, rfl, rfl, rfl, rfl⟩, fun hlive => hlive⟩
  chains _ hclosed := absurd hclosed.1 hclosed.2
  anchors row hrow _ hlive := ⟨row, hrow, rfl, hlive⟩

def FromStart (start : Store) (group : Group) (frag : Loaded) : Prop :=
  ∃ row ∈ start.rows, row.id = frag.id /\ row.topic = some group.topic /\
    row.workspace = group.workspace /\ row.keyId = group.keyId /\
    row.createdAt = frag.createdAt /\ row.isAnchor = frag.isAnchor

section

variable {commits : Bool} {now : Nat} {group : Group} {keep old : Loaded}

theorem youngerInGroup_of_moreRecent (hkeep : FromStart start group keep)
    (hold : FromStart start group old) (hrecent : moreRecent keep old = true) :
    YoungerInGroup start old.id keep.id := by
  obtain ⟨next, hnext, hnextId, htopic', hworkspace', hkey', hcreated', -⟩ := hkeep
  obtain ⟨row, hrow, hrowId, htopic, hworkspace, hkey, hcreated, -⟩ := hold
  refine ⟨row, next, hrow, hnext, hrowId, hnextId, ?_, htopic.trans htopic'.symm,
    hworkspace.trans hworkspace'.symm, hkey.trans hkey'.symm⟩
  simp only [moreRecent, Bool.or_eq_true, Bool.and_eq_true, decide_eq_true_iff] at hrecent
  unfold Before
  rw [hcreated, hcreated', hrowId, hnextId]
  rcases hrecent with hlater | ⟨hsame, hid⟩
  · exact .inl hlater
  · exact Or.inr ⟨hsame.symm, hid⟩

theorem Sound.merge (hsound : Sound start store) (hkeep : FromStart start group keep)
    (hold : FromStart start group old) (hanchor : old.isAnchor = false)
    (hrecent : moreRecent keep old = true) :
    Sound start (mergeDedupPair commits now store keep.id old.id).store := by
  rcases mergeDedupPair_cases commits now store keep.id old.id with
    ⟨-, hstore⟩ | ⟨-, hcount, accessCount, hstore⟩
  · rw [hstore]
    exact hsound
  · rw [hstore]
    obtain ⟨hne, hkeepLive, holdLive⟩ := live_of_pair hcount
    have hlive : ∀ item, Live (afterMerge now accessCount store keep.id old.id) item <->
        Live store item /\ item ≠ old.id := by
      intro item
      constructor
      · rintro ⟨row, hrow, rfl, hopen⟩
        obtain ⟨source, hsource, hsame, hsourceLive⟩ := mem_merged hrow
        obtain ⟨hopenSource, hother⟩ := hsourceLive hopen
        exact ⟨⟨source, hsource, hsame.id, hopenSource⟩, hsame.id ▸ hother⟩
      · rintro ⟨⟨source, hsource, rfl, hopen⟩, hother⟩
        obtain ⟨row, hrow, hid, hkept⟩ := exists_merged hsource
        exact ⟨row, hrow, hid, hkept hother hopen⟩
    have hstartOld : Live start old.id := by
      obtain ⟨row, hrow, hid, hopen⟩ := holdLive
      obtain ⟨first, hfirst, hsame, hstartLive⟩ := hsound.back row hrow
      exact ⟨first, hfirst, hsame.id.trans hid, hstartLive hopen⟩
    have hshut : ∀ item, ClosedSince start store item -> item ≠ old.id /\ item ≠ keep.id := by
      intro item hclosed
      constructor
      · rintro rfl
        exact hclosed.2 holdLive
      · rintro rfl
        exact hclosed.2 hkeepLive
    have hafter : ∀ item,
        ClosedSince start (afterMerge now accessCount store keep.id old.id) item <->
          ClosedSince start store item \/ item = old.id := by
      intro item
      unfold ClosedSince
      rw [hlive]
      constructor
      · rintro ⟨hstart, hshutNow⟩
        rcases Classical.em (item = old.id) with hsame | hother
        · exact .inr hsame
        · exact Or.inl ⟨hstart, fun hitem => hshutNow ⟨hitem, hother⟩⟩
      · rintro (⟨hstart, hclosed⟩ | rfl)
        · exact ⟨hstart, fun hitem => hclosed hitem.1⟩
        · exact ⟨hstartOld, fun hitem => hitem.2 rfl⟩
    have hkept : ∀ item next, ClosedSince start store item -> Superseded store item next ->
        next ≠ old.id ->
          Superseded (afterMerge now accessCount store keep.id old.id) item next := by
      rintro item next hclosed ⟨row, hrow, htype, hactive⟩ hnext
      obtain ⟨hother, hnotKeep⟩ := hshut item hclosed
      exact ⟨row, mergeLinks_other hother hnotKeep hnext hrow, htype, hactive⟩
    have hmoved : ∀ item, ClosedSince start store item -> Superseded store item old.id ->
        Superseded (afterMerge now accessCount store keep.id old.id) item old.id \/
          Superseded (afterMerge now accessCount store keep.id old.id) item keep.id := by
      rintro item hclosed ⟨row, hrow, htype, hactive⟩
      obtain ⟨hother, hnotKeep⟩ := hshut item hclosed
      rcases mergeLinks_old hne hother hnotKeep hrow with hstays | hmoves
      · exact Or.inl ⟨row, hstays, htype, hactive⟩
      · exact Or.inr ⟨row, hmoves, htype, hactive⟩
    constructor
    · intro row hrow
      obtain ⟨source, hsource, hsame, hopen⟩ := mem_merged hrow
      obtain ⟨first, hfirst, hfirstSame, hstartLive⟩ := hsound.back source hsource
      exact ⟨first, hfirst, hfirstSame.trans hsame, fun hrowLive => hstartLive (hopen hrowLive).1⟩
    · exact Succeeded.retire (fun a b c => YoungerInGroup.trans) hafter
        (fun hclosed => hclosed.2 holdLive) (youngerInGroup_of_moreRecent hkeep hold hrecent)
        mergeLinks_superseded hkept
          hmoved (fun item hitem hother => (hlive item).mpr ⟨hitem, hother⟩)
        ((hlive keep.id).mpr ⟨hkeepLive, hne⟩) hsound.chains
    · intro row hrow hrowAnchor hopen
      refine (hlive row.id).mpr ⟨hsound.anchors row hrow hrowAnchor hopen, ?_⟩
      intro hid
      obtain ⟨first, hfirst, hfirstId, -, -, -, -, hflag⟩ := hold
      cases Table.eq_of_key_eq hrow hfirst (hid.trans hfirstId.symm)
      rw [hrowAnchor, hanchor] at hflag
      cases hflag

theorem moreRecent_of_not {frag candidate : Loaded} (hrecent : moreRecent frag candidate = false)
    (hne : candidate.id ≠ frag.id) : moreRecent candidate frag = true := by
  simp only [moreRecent, Bool.or_eq_false_iff, Bool.and_eq_false_iff, decide_eq_false_iff_not,
    not_lt] at hrecent
  simp only [moreRecent, Bool.or_eq_true, Bool.and_eq_true, decide_eq_true_iff]
  obtain ⟨hcreated, hrest⟩ := hrecent
  rcases Nat.lt_or_eq_of_le hcreated with hlt | heq
  · exact .inl hlt
  · refine Or.inr ⟨heq.symm, ?_⟩
    rcases hrest with hother | hid
    · exact absurd heq hother
    · exact lt_of_le_of_ne hid (Ne.symm hne)

end

section

variable {verdicts : Verdicts} {now : Nat} {group : Group} {frags : List Loaded}
  {frag candidate : Loaded} {state : Judging} {cosine : Rat}

theorem store_of_same (commits : Bool) (id : String) :
    (mergeDedupPair commits now store id id).store = store := by
  rcases mergeDedupPair_cases commits now store id id with ⟨-, hstore⟩ | ⟨-, hcount, -⟩
  · exact hstore
  · exact absurd rfl (live_of_pair hcount).1

theorem judgeCandidate_sound (hfrag : FromStart start group frag)
    (hcandidate : FromStart start group candidate) (hanchor : frag.isAnchor = false)
    (hsound : Sound start state.run.store) :
    Sound start (judgeCandidate verdicts now frag candidate cosine state).2.run.store := by
  have hmerge : ∀ commits, candidate.isAnchor = false ->
      Sound start (mergeDedupPair commits now state.run.store
        (if moreRecent frag candidate then frag else candidate).id
        (if moreRecent frag candidate then candidate else frag).id).store := by
    intro commits hother
    cases hrecent : moreRecent frag candidate with
    | true => exact hsound.merge hfrag hcandidate hother hrecent
    | false =>
      by_cases hsame : candidate.id = frag.id
      · simp only [Bool.false_eq_true, if_false, hsame, store_of_same]
        exact hsound
      · exact hsound.merge hcandidate hfrag hanchor (moreRecent_of_not hrecent hsame)
  unfold judgeCandidate
  split
  · exact hsound
  · rename_i hjudged
    have hother : candidate.isAnchor = false := by
      cases hflag : candidate.isAnchor with
      | false => rfl
      | true => exact absurd (.inr (.inl hflag)) hjudged
    split
    · exact hsound
    · dsimp only
      generalize (if moreRecent frag candidate then frag else candidate) = keep at hmerge ⊢
      generalize (if moreRecent frag candidate then candidate else frag) = old at hmerge ⊢
      split
      · exact hsound
      · split <;> exact hmerge _ hother

theorem judgeNeighbors_sound (hfrag : FromStart start group frag)
    (hfrags : ∀ other ∈ frags, FromStart start group other) (hanchor : frag.isAnchor = false)
    (neighbors : List (Nat × Rat)) (hsound : Sound start state.run.store) :
    Sound start (judgeNeighbors verdicts now frags frag neighbors state).run.store := by
  induction neighbors generalizing state with
  | nil => exact hsound
  | cons neighbor rest ih =>
    obtain ⟨index, cosine⟩ := neighbor
    unfold judgeNeighbors
    split
    · exact ih hsound
    · rename_i other hother
      have hstep : Sound start
          (judgeCandidate verdicts now frag other cosine state).2.run.store :=
        judgeCandidate_sound hfrag (hfrags other (mem_of_getElem? hother)) hanchor hsound
      dsimp only
      split
      · exact hstep
      · exact ih hstep

theorem judgeFragments_sound (hfrags : ∀ other ∈ frags, FromStart start group other)
    (order : List (Loaded × Nat)) (horder : ∀ entry ∈ order, entry.1 ∈ frags)
    (hsound : Sound start state.run.store) :
    Sound start (judgeFragments verdicts now frags order state).run.store := by
  induction order generalizing state with
  | nil => exact hsound
  | cons entry rest ih =>
    obtain ⟨frag, index⟩ := entry
    have hrest : ∀ entry ∈ rest, entry.1 ∈ frags :=
      fun entry hentry => horder entry (mem_cons_of_mem _ hentry)
    have hfrag : FromStart start group frag := hfrags frag (horder (frag, index) mem_cons_self)
    unfold judgeFragments
    split
    · exact ih hrest hsound
    · rename_i hturn
      have hanchor : frag.isAnchor = false := by
        cases hflag : frag.isAnchor with
        | false => rfl
        | true => exact absurd (.inl hflag) hturn
      exact ih hrest (judgeNeighbors_sound hfrag hfrags hanchor _ hsound)

theorem loadGroup_fromStart (hsound : Sound start store) :
    ∀ frag ∈ loadGroup verdicts store group, FromStart start group frag := by
  intro frag hfrag
  obtain ⟨row, hrow, rfl⟩ := mem_map.mp hfrag
  obtain ⟨hrow, hgroup⟩ := mem_filter.mp (mem_filter.mp hrow).1
  simp only [inGroup, Bool.and_eq_true, decide_eq_true_iff] at hgroup
  obtain ⟨⟨⟨⟨htopic, hworkspace⟩, -⟩, -⟩, hkey⟩ := hgroup
  obtain ⟨first, hfirst, hsame, -⟩ := hsound.back row hrow
  exact ⟨first, hfirst, hsame.id, hsame.topic.trans htopic, hsame.workspace.trans hworkspace,
    hsame.keyId.trans hkey, hsame.createdAt, hsame.isAnchor⟩

theorem dedupGroup_sound {run : Run} (group : Group) (hsound : Sound start run.store) :
    Sound start (dedupGroup verdicts now run group).store := by
  unfold dedupGroup
  dsimp only
  split
  · exact hsound
  · apply judgeFragments_sound (loadGroup_fromStart hsound)
    · intro entry hentry
      have hzip := (mergeSort_perm _ _).mem_iff.mp hentry
      exact fst_mem_of_mem_zipIdx hzip
    · exact hsound

theorem dedupTopic_sound {run : Run} (topic : String) (hsound : Sound start run.store) :
    Sound start (dedupTopic verdicts now run topic).store := by
  have hgroups : ∀ (groups : List Group) (run : Run), Sound start run.store ->
      Sound start (groups.foldl (dedupGroup verdicts now) run).store := by
    intro groups
    induction groups with
    | nil => exact fun run hrun => hrun
    | cons group rest ih => exact fun run hrun => ih _ (dedupGroup_sound group hrun)
  exact hgroups _ run hsound

theorem runSemanticDedup_sound (minFragments batchSize : Nat) (store : Store) :
    Sound store (runSemanticDedup verdicts now minFragments batchSize store).store := by
  have htopics : ∀ (topics : List String) (run : Run), Sound store run.store ->
      Sound store (topics.foldl (dedupTopic verdicts now) run).store := by
    intro topics
    induction topics with
    | nil => exact fun run hrun => hrun
    | cons topic rest ih => exact fun run hrun => ih _ (dedupTopic_sound topic hrun)
  exact htopics _ { store := store } sound_start

/-- Whatever the similarities and the gates say, every fragment a run closes leads
along active `superseded_by` links, each to a younger fragment of its group, to one
that is live; no such path comes back, and no live anchor is closed. -/
theorem runSemanticDedup_chains (verdicts : Verdicts) (now minFragments batchSize : Nat)
    (store : Store) :
    (∀ id, ClosedSince store
        (runSemanticDedup verdicts now minFragments batchSize store).store id ->
      ∃ last, Live (runSemanticDedup verdicts now minFragments batchSize store).store last /\
        Relation.TransGen
          (Hop (ClosedSince
            store (runSemanticDedup verdicts now minFragments batchSize store).store)
            (Superseded (runSemanticDedup verdicts now minFragments batchSize store).store)
            (YoungerInGroup store)) id last) /\
    (∀ id, Not (Relation.TransGen
      (Hop (ClosedSince store (runSemanticDedup verdicts now minFragments batchSize store).store)
        (Superseded (runSemanticDedup verdicts now minFragments batchSize store).store)
        (YoungerInGroup store)) id id)) /\
    ∀ row ∈ store.rows, row.isAnchor = true -> row.validTo = none ->
      Live (runSemanticDedup verdicts now minFragments batchSize store).store row.id := by
  have hsound : Sound store (runSemanticDedup verdicts now minFragments batchSize store).store :=
    runSemanticDedup_sound minFragments batchSize store
  refine ⟨hsound.chains, ?_, hsound.anchors⟩
  exact not_transGen_self (fun a b c => YoungerInGroup.trans) YoungerInGroup.irrefl

end

end AnchorMind.Consolidate.SemanticDedup
