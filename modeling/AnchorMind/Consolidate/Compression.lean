import AnchorMind.Kernel.FirstOf
import AnchorMind.Kernel.KeyedTable
import AnchorMind.Kernel.Transition
import AnchorMind.Link.LinkStore

/-!
# Compressing old fragments

Old fragments of low importance are grouped by similarity within one topic, key, and
workspace.  The most important one of a group is kept and the others are closed in its
favour.  The groups are built from rows read earlier, statement by statement, while
recalls count accesses and other steps close and delete fragments.
-/

namespace AnchorMind.Consolidate.Compression

open Kernel.FirstOf Kernel.KeyedTable Kernel.Transition Link List

structure Row where
  id : String
  topic : Option String
  keyId : Option String
  workspace : Option String
  importance : Rat
  accessCount : Nat
  accessedAt : Nat
  isAnchor : Bool
  hasEmbedding : Bool
  validTo : Option Nat
  deriving DecidableEq

abbrev Rows := Table Row.id fun _ => True

/-- What a group knows of a fragment: the row as it was read. -/
structure Member where
  id : String
  importance : Rat
  accessCount : Nat
  deriving DecidableEq

structure Candidate where
  member : Member
  topic : Option String
  keyId : Option String
  workspace : Option String
  deriving DecidableEq

structure Neighbor where
  member : Member
  cosine : Rat
  deriving DecidableEq

def Row.member (row : Row) : Member := ⟨row.id, row.importance, row.accessCount⟩

/-- `cfg.ageDays` as a span of time, `cfg.minGroup`, and the collation of topics. -/
structure Config where
  age : Nat
  minGroup : Nat
  topicBefore : String -> String -> Bool

def isOld (config : Config) (now : Nat) (row : Row) : Bool :=
  decide (row.accessedAt + config.age < now) && decide (row.importance < 1 / 2) &&
    !row.isAnchor && row.validTo.isNone && row.hasEmbedding

/-- `_queryCompressCandidates`, in the order of topic and falling importance. -/
def queryCompressCandidates (config : Config) (now : Nat) (rows : Rows) : List Candidate :=
  ((rows.rows.filter (isOld config now)).insertionSort fun a b =>
    config.topicBefore (a.topic.getD "") (b.topic.getD "") = true \/
      a.topic = b.topic /\ b.importance ≤ a.importance).map
    fun row => ⟨row.member, row.topic, row.keyId, row.workspace⟩

def groupKey (candidate : Candidate) : Option String × Option String × Option String :=
  (candidate.topic, candidate.keyId, candidate.workspace)

def topicGroups (candidates : List Candidate) : List (List Candidate) :=
  let named := candidates.filter fun candidate =>
    candidate.topic.isSome && decide (candidate.topic ≠ some "")
  (firsts groupKey named).map fun first =>
    named.filter fun candidate => decide (groupKey candidate = groupKey first)

def isNeighbor (config : Config) (now : Nat) (candidate : Candidate) (row : Row) : Bool :=
  isOld config now row && decide (row.topic = candidate.topic) &&
    decide (row.id ≠ candidate.member.id) && decide (row.workspace = candidate.workspace) &&
    decide (row.keyId = candidate.keyId)

def queryNeighbors (config : Config) (now : Nat) (candidate : Candidate)
    (nearest : List (String × Rat)) (rows : Rows) : List Neighbor :=
  (nearest.filterMap fun (id, cosine) =>
    (rows.rows.find? fun row => decide (row.id = id) && isNeighbor config now candidate row).map
      fun row => ⟨row.member, cosine⟩).take 10

abbrev CompressionGroup := List Member

def minCosine : Rat := 4 / 5

def maxGroup : Nat := 10

def addNeighbors : CompressionGroup -> List String -> List Neighbor ->
    CompressionGroup × List String
  | group, assigned, [] => (group, assigned)
  | group, assigned, neighbor :: rest =>
    if neighbor.member.id ∈ assigned then addNeighbors group assigned rest
    else if neighbor.cosine < minCosine ∨ maxGroup ≤ group.length then (group, assigned)
    else addNeighbors (group ++ [neighbor.member]) (neighbor.member.id :: assigned) rest

def formGroups (minGroup : Nat) : List (Candidate × List Neighbor) -> List String ->
    List CompressionGroup -> List String × List CompressionGroup
  | [], assigned, groups => (assigned, groups)
  | (candidate, neighbors) :: rest, assigned, groups =>
    if candidate.member.id ∈ assigned then formGroups minGroup rest assigned groups
    else
      let (group, taken) := addNeighbors [candidate.member] (candidate.member.id :: assigned)
        neighbors
      formGroups minGroup rest taken
        (if minGroup ≤ group.length then groups ++ [group] else groups)

/-- Where `_buildCompressionGroups` stands.  The first of the topics is the one in turn. -/
structure Building where
  topics : List (List Candidate)
  assigned : List String
  batch : List (Candidate × Option (List Neighbor))
  groups : List CompressionGroup

structure Commit where
  keeper : Member
  others : List Member
  totalAccess : Nat
  linking : Option String

inductive Phase where
  | idle
  | building (work : Building)
  | committing (groups : List CompressionGroup)
  | inGroup (commit : Commit) (groups : List CompressionGroup)

/-- What a commit does to a group: it closes a fragment in favour of the keeper, and
writes over the keeper's counter. -/
inductive Event where
  | closed (keeper old : String) (keeperLive : Bool)
  | counted (keeper : String) (was now : Option Nat)
  deriving DecidableEq

structure State where
  rows : Rows
  links : LinkTable String Rat
  phase : Phase
  compressed : Nat
  log : List Event

def touchRows (ids : List String) (now : Nat) : Table.Update Row.id (fun _ => True) where
  select row := decide (row.id ∈ ids)
  image row := { row with accessCount := row.accessCount + 1, accessedAt := now }
  keepsKey _ := rfl
  keepsCheck _ _ _ := trivial

/-- `SET valid_to = NOW()` on those of the fragments that are open. -/
def closeRows (ids : List String) (now : Nat) : Table.Update Row.id (fun _ => True) where
  select row := decide (row.id ∈ ids) && row.validTo.isNone
  image row := { row with validTo := some now }
  keepsKey _ := rfl
  keepsCheck _ _ _ := trivial

/-- `SET access_count = $1 WHERE id = $2` -/
def countRow (id : String) (accessCount : Nat) : Table.Update Row.id (fun _ => True) where
  select row := decide (row.id = id)
  image row := { row with accessCount := accessCount }
  keepsKey _ := rfl
  keepsCheck _ _ _ := trivial

def findRow (rows : Rows) (id : String) : Option Row :=
  rows.rows.find? fun row => decide (row.id = id)

def isLive (rows : Rows) (id : String) : Bool :=
  (findRow rows id).any fun row => row.validTo.isNone

inductive Label where
  | start (now : Nat)
  | nextBatch
  | answer (index now : Nat) (nearest : List (String × Rat))
  | form
  | beginGroup
  | closeOther (now : Nat)
  | link (works : Bool)
  | count
  | abort
  | touch (ids : List String) (now : Nat)
  | close (ids : List String) (now : Nat)
  | delete (ids : List String)

def batchSize : Nat := 20

def nextBatch (work : Building) : Phase :=
  match work.topics with
  | [] => .committing work.groups
  | frags :: rest =>
    if frags.isEmpty then .building { work with topics := rest, assigned := [] }
    else
      .building { work with
        topics := frags.drop batchSize :: rest
        batch := ((frags.take batchSize).filter fun candidate =>
          decide (candidate.member.id ∉ work.assigned)).map fun candidate => (candidate, none) }

def answered : List (Candidate × Option (List Neighbor)) ->
    Option (List (Candidate × List Neighbor))
  | [] => some []
  | (candidate, some neighbors) :: rest => (answered rest).map fun all => (candidate,
    neighbors) :: all
  | (_, none) :: _ => none

/-- The most important member comes first. -/
def sortGroup (group : CompressionGroup) : CompressionGroup :=
  group.insertionSort fun a b => b.importance ≤ a.importance

def beginGroup (group : CompressionGroup) (groups : List CompressionGroup) : Phase :=
  match sortGroup group with
  | [] => .committing groups
  | keeper :: others => .inGroup ⟨keeper, others, keeper.accessCount, none⟩ groups

def closeOther (now : Nat) (state : State) (commit : Commit) (old : Member) (others : List Member)
    (groups : List CompressionGroup) : State :=
  if isLive state.rows old.id then
    { state with
      rows := state.rows.apply (closeRows [old.id] now)
      phase := .inGroup { commit with
        others := others
        totalAccess := commit.totalAccess + old.accessCount
        linking := some old.id } groups
      log := state.log ++ [.closed commit.keeper.id old.id (isLive state.rows commit.keeper.id)] }
  else { state with phase := .inGroup { commit with others := others } groups }

def countKeeper (state : State) (commit : Commit) (groups : List CompressionGroup) : State :=
  let rows := state.rows.apply (countRow commit.keeper.id commit.totalAccess)
  { state with
    rows := rows
    phase := .committing groups
    log := state.log ++ [.counted commit.keeper.id
      ((findRow state.rows commit.keeper.id).map Row.accessCount)
      ((findRow rows commit.keeper.id).map Row.accessCount)] }

def step (config : Config) (state : State) (label : Label) : Option State :=
  match label, state.phase with
  | .start now, .idle =>
    let candidates := queryCompressCandidates config now state.rows
    some { state with
      phase := .building
        ⟨(topicGroups candidates).filter fun frags => decide (config.minGroup ≤ frags.length),
          [], [], []⟩ }
  | .nextBatch, .building work =>
    if work.batch.isEmpty then some { state with phase := nextBatch work } else none
  | .answer index now nearest, .building work =>
    match work.batch[index]? with
    | some (candidate, none) =>
      let found := queryNeighbors config now candidate nearest state.rows
      some { state with
        phase := .building { work with batch := work.batch.set index (candidate, some found) } }
    | _ => none
  | .form, .building work =>
    match answered work.batch with
    | some answers =>
      let (assigned, groups) := formGroups config.minGroup answers work.assigned work.groups
      some { state with
        phase := .building { work with assigned := assigned, batch := [], groups := groups } }
    | none => none
  | .beginGroup, .committing [] => some { state with phase := .idle }
  | .beginGroup, .committing (group :: groups) =>
    some { state with phase := beginGroup group groups }
  | .closeOther now, .inGroup ⟨keeper, old :: others, totalAccess, none⟩ groups =>
    some (closeOther now state ⟨keeper, old :: others, totalAccess, none⟩ old others groups)
  | .link works, .inGroup ⟨keeper, others, totalAccess, some old⟩ groups =>
    some { state with
      links := if works then supersede old keeper.id state.links else state.links
      compressed := state.compressed + 1
      phase := .inGroup ⟨keeper, others, totalAccess, none⟩ groups }
  | .count, .inGroup ⟨keeper, [], totalAccess, none⟩ groups =>
    some (countKeeper state ⟨keeper, [], totalAccess, none⟩ groups)
  | .abort, _ => some { state with phase := .idle }
  | .touch ids now, _ => some { state with rows := state.rows.apply (touchRows ids now) }
  | .close ids now, _ => some { state with rows := state.rows.apply (closeRows ids now) }
  | .delete ids, _ =>
    some { state with rows := state.rows.deleteWhere fun row => decide (row.id ∈ ids) }
  | _, _ => none

/-- The interleavings from any table, before a compression begins. -/
def system (config : Config) : System State Label where
  start state := state.phase = .idle /\ state.log = []
  step before label after := step config before label = some after

end AnchorMind.Consolidate.Compression

/-!
# What a compression does beside other steps

A compression neither looks again at the keeper of a group nor counts on from its
counter.  It closes fragments beside a live keeper and loses no access where the keeper
is as it was read when its commit begins, and nothing else touches it until the commit
ends.
-/

namespace AnchorMind.Consolidate.Compression

open Kernel.KeyedTable Kernel.Transition Kernel.Transition.System List

section Groups

variable {group : CompressionGroup} {assigned : List String} {neighbors : List Neighbor}

def ids (group : CompressionGroup) : List String := group.map Member.id

def Assigned (group : CompressionGroup) (assigned : List String) : Prop :=
  (ids group).Nodup /\ ids group ⊆ assigned

theorem addNeighbors_assigned (hgroup : Assigned group assigned) :
    Assigned (addNeighbors group assigned neighbors).1
      (addNeighbors group assigned neighbors).2 := by
  induction neighbors generalizing group assigned with
  | nil => exact hgroup
  | cons neighbor rest ih =>
    unfold addNeighbors
    split
    · exact ih hgroup
    · rename_i hnew
      split
      · exact hgroup
      · apply ih
        obtain ⟨hnodup, hsub⟩ := hgroup
        constructor
        · rw [ids, map_append, nodup_append]
          refine ⟨hnodup, nodup_singleton _, ?_⟩
          intro left hleft right hright
          rw [mem_singleton.mp hright]
          rintro rfl
          exact hnew (hsub hleft)
        · rw [ids, map_append]
          intro id hid
          rcases mem_append.mp hid with hold | hlast
          · exact mem_cons_of_mem _ (hsub hold)
          · rw [mem_singleton.mp hlast]
            exact mem_cons_self

theorem formGroups_nodup {minGroup : Nat} {groups : List CompressionGroup}
    (answers : List (Candidate × List Neighbor)) (hgroups : ∀ group ∈ groups, (ids group).Nodup) :
    ∀ group ∈ (formGroups minGroup answers assigned groups).2,
      (ids group).Nodup := by
  induction answers generalizing assigned groups with
  | nil => exact hgroups
  | cons answer rest ih =>
    obtain ⟨candidate, neighbors⟩ := answer
    unfold formGroups
    split
    · exact ih hgroups
    · dsimp only
      apply ih
      split
      · intro group hgroup
        rcases mem_append.mp hgroup with hold | hlast
        · exact hgroups group hold
        · rw [mem_singleton.mp hlast]
          have hfirst : Assigned [candidate.member] (candidate.member.id :: assigned) :=
            ⟨nodup_singleton _, by simp [ids]⟩
          exact (addNeighbors_assigned hfirst).1
      · exact hgroups

theorem sortGroup_perm : (sortGroup group).Perm group := perm_insertionSort _ _

end Groups

def Honest : Event -> Prop
  | .closed _ _ keeperLive => keeperLive = true
  | .counted _ was now => ∀ before after, was = some before -> now = some after ->
      before ≤ after

/-- Every close a compression made found the keeper live, and every counter it wrote is
at least the one it wrote over. -/
def KeepsKeepers (state : State) : Prop := ∀ event ∈ state.log, Honest event

def Stands (rows : Rows) (id : String) (accessCount : Nat) : Prop :=
  ∃ row ∈ rows, row.id = id /\ row.validTo = none /\ row.accessCount ≤ accessCount

def LeavesKeeper (state : State) (label : Label) : Prop :=
  match label, state.phase with
  | .beginGroup, .committing (group :: _) => ∀ keeper ∈ (sortGroup group).head?,
      Stands state.rows keeper.id keeper.accessCount
  | .touch ids _, .inGroup commit _ => commit.keeper.id ∉ ids
  | .close ids _, .inGroup commit _ => commit.keeper.id ∉ ids
  | .delete ids, .inGroup commit _ => commit.keeper.id ∉ ids
  | _, _ => True

def Steady (rows : Rows) : Phase -> Prop
  | .idle => True
  | .building work => ∀ group ∈ work.groups, (ids group).Nodup
  | .committing groups => ∀ group ∈ groups, (ids group).Nodup
  | .inGroup commit groups =>
    (∀ group ∈ groups, (ids group).Nodup) /\
    commit.keeper.id ∉ ids commit.others /\
    Stands rows commit.keeper.id commit.totalAccess

structure Sound (state : State) : Prop where
  steady : Steady state.rows state.phase
  honest : KeepsKeepers state

section Rows

variable {rows : Rows} {id : String} {accessCount : Nat}

theorem findRow_of_mem {row : Row} (hrow : row ∈ rows) : findRow rows row.id = some row := by
  have hsome : (rows.rows.find? fun other => decide (other.id = row.id)).isSome = true := by
    rw [find?_isSome]
    exact ⟨row, hrow, by simp⟩
  obtain ⟨found, hfound⟩ := Option.isSome_iff_exists.mp hsome
  have hid : found.id = row.id := by simpa using find?_some hfound
  rw [findRow, hfound, Table.eq_of_key_eq (mem_of_find?_eq_some hfound) hrow hid]

section

variable (hstands : Stands rows id accessCount)
include hstands

theorem Stands.live : isLive rows id = true := by
  obtain ⟨row, hrow, rfl, hlive, -⟩ := hstands
  rw [isLive, findRow_of_mem hrow]
  simp [hlive]

theorem Stands.unselected {update : Table.Update Row.id fun _ => True}
    (hother : ∀ row, row.id = id -> update.select row = false) :
    Stands (rows.apply update) id accessCount := by
  obtain ⟨row, hrow, hid, hlive, hcount⟩ := hstands
  exact ⟨row, Table.mem_apply_of_unselected hrow (hother row hid), hid, hlive, hcount⟩

theorem Stands.deleteWhere {select : Row -> Bool}
    (hother : ∀ row, row.id = id -> select row = false) :
    Stands (rows.deleteWhere select) id accessCount := by
  obtain ⟨row, hrow, hid, hlive, hcount⟩ := hstands
  exact ⟨row, Table.mem_deleteWhere.mpr ⟨hrow, hother row hid⟩, hid, hlive, hcount⟩

theorem Stands.mono {more : Nat} (hmore : accessCount ≤ more) : Stands rows id more := by
  obtain ⟨row, hrow, hid, hlive, hcount⟩ := hstands
  exact ⟨row, hrow, hid, hlive, hcount.trans hmore⟩

theorem Stands.counted :
    ∃ before, (findRow rows id).map Row.accessCount = some before /\ before ≤ accessCount /\
      (findRow (rows.apply (countRow id accessCount)) id).map Row.accessCount =
        some accessCount := by
  obtain ⟨row, hrow, rfl, hlive, hcount⟩ := hstands
  have hselect : (countRow row.id accessCount).select row = true := by simp [countRow]
  have hafter : findRow (rows.apply (countRow row.id accessCount)) row.id =
      some ((countRow row.id accessCount).image row) :=
    findRow_of_mem (Table.mem_apply_of_selected hrow hselect)
  refine ⟨row.accessCount, by rw [findRow_of_mem hrow]; rfl, hcount, ?_⟩
  rw [hafter]
  rfl

end

end Rows

section Operations

variable {state : State} {groups : List CompressionGroup}

theorem KeepsKeepers.snoc {event : Event} {after : State} (hkeeps : KeepsKeepers state)
    (hevent : Honest event) (hlog : after.log = state.log ++ [event]) : KeepsKeepers after := by
  intro other hother
  rw [hlog] at hother
  rcases mem_append.mp hother with hold | hlast
  · exact hkeeps other hold
  · rw [mem_singleton.mp hlast]
    exact hevent

theorem Steady.rows {before after : Rows} {phase : Phase} (hsteady : Steady before phase)
    (hkeeper : ∀ commit groups, phase = .inGroup commit groups ->
      Stands before commit.keeper.id commit.totalAccess ->
        Stands after commit.keeper.id commit.totalAccess) : Steady after phase := by
  cases phase with
  | idle => trivial
  | building work => exact hsteady
  | committing groups => exact hsteady
  | inGroup commit groups =>
    obtain ⟨hgroups, hothers, hstands⟩ := hsteady
    exact ⟨hgroups, hothers, hkeeper commit groups rfl hstands⟩

theorem nextBatch_steady {rows : Rows} {work : Building} (hsteady : Steady rows (.building work)) :
    Steady rows (nextBatch work) := by
  unfold nextBatch
  split
  · exact hsteady
  · split <;> exact hsteady

theorem beginGroup_steady {rows : Rows} {group : CompressionGroup}
    (hgroups : ∀ other ∈ group :: groups, (ids other).Nodup)
    (hkeeper : ∀ keeper ∈ (sortGroup group).head?, Stands rows keeper.id keeper.accessCount) :
    Steady rows (beginGroup group groups) := by
  have hrest : ∀ other ∈ groups, (ids other).Nodup := fun other hother =>
    hgroups other (mem_cons_of_mem _ hother)
  have hnodup : (ids (sortGroup group)).Nodup :=
    ((sortGroup_perm.map Member.id).nodup_iff).mpr (hgroups group mem_cons_self)
  unfold beginGroup
  cases hsorted : sortGroup group with
  | nil => exact hrest
  | cons keeper others =>
    rw [hsorted] at hnodup hkeeper
    exact ⟨hrest, (nodup_cons.mp hnodup).1, hkeeper keeper rfl⟩

theorem closeOther_sound {now : Nat} {keeper old : Member} {others : List Member}
    {totalAccess : Nat} (hsound : Sound state)
    (hphase : state.phase = .inGroup ⟨keeper, old :: others, totalAccess, none⟩ groups) :
    Sound (closeOther now state ⟨keeper, old :: others, totalAccess, none⟩ old others groups) := by
  have hsteady := hsound.steady
  rw [hphase] at hsteady
  obtain ⟨hgroups, hothers, hstands⟩ := hsteady
  obtain ⟨hdistinct, hrest⟩ : keeper.id ≠ old.id /\ keeper.id ∉ ids others := by
    simpa [ids] using hothers
  unfold closeOther
  split
  · constructor
    · refine ⟨hgroups, hrest, ?_⟩
      have hkept : Stands (state.rows.apply (closeRows [old.id] now)) keeper.id totalAccess := by
        apply hstands.unselected
        intro row hid
        simp [closeRows, hid, hdistinct]
      exact hkept.mono (Nat.le_add_right _ _)
    · have hevent : Honest (.closed keeper.id old.id (isLive state.rows keeper.id)) := hstands.live
      exact hsound.honest.snoc hevent rfl
  · exact ⟨⟨hgroups, hrest, hstands⟩, hsound.honest⟩

theorem countKeeper_sound {keeper : Member} {totalAccess : Nat} (hsound : Sound state)
    (hphase : state.phase = .inGroup ⟨keeper, [], totalAccess, none⟩ groups) :
    Sound (countKeeper state ⟨keeper, [], totalAccess, none⟩ groups) := by
  have hsteady := hsound.steady
  rw [hphase] at hsteady
  obtain ⟨hgroups, -, hstands⟩ := hsteady
  obtain ⟨before, hbefore, hle, hafter⟩ := hstands.counted
  have hevent : Honest (.counted keeper.id ((findRow state.rows keeper.id).map Row.accessCount)
      ((findRow (state.rows.apply (countRow keeper.id totalAccess)) keeper.id).map
        Row.accessCount)) := by
    intro was now hwas hnow
    rw [hbefore, Option.some.injEq] at hwas
    rw [hafter, Option.some.injEq] at hnow
    omega
  exact ⟨hgroups, hsound.honest.snoc hevent rfl⟩

end Operations

section Runs

variable {config : Config} {state after : State} {label : Label}

theorem step_sound (hsound : Sound state) (hstep : step config state label = some after)
    (hleaves : LeavesKeeper state label) : Sound after := by
  obtain ⟨hsteady, hhonest⟩ := hsound
  unfold step at hstep
  split at hstep
  case h_1 now hphase =>
      cases hstep
      exact ⟨nofun, hhonest⟩
  case h_2 work hphase =>
      split at hstep
      · cases hstep
        rw [hphase] at hsteady
        exact ⟨nextBatch_steady hsteady, hhonest⟩
      · cases hstep
  case h_3 index now nearest work hphase =>
      rw [hphase] at hsteady
      split at hstep
      · cases hstep
        exact ⟨hsteady, hhonest⟩
      · cases hstep
  case h_4 work hphase =>
      rw [hphase] at hsteady
      split at hstep
      · rename_i answers _
        cases hstep
        exact ⟨formGroups_nodup answers hsteady, hhonest⟩
      · cases hstep
  case h_5 hphase =>
      cases hstep
      exact ⟨trivial, hhonest⟩
  case h_6 group groups hphase =>
      cases hstep
      rw [hphase] at hsteady
      unfold LeavesKeeper at hleaves
      simp only [hphase] at hleaves
      exact ⟨beginGroup_steady hsteady hleaves, hhonest⟩
  case h_7 now keeper old others totalAccess groups hphase =>
      cases hstep
      exact closeOther_sound ⟨hsteady, hhonest⟩ hphase
  case h_8 works keeper others totalAccess old groups hphase =>
      cases hstep
      rw [hphase] at hsteady
      exact ⟨hsteady, hhonest⟩
  case h_9 keeper totalAccess groups hphase =>
      cases hstep
      exact countKeeper_sound ⟨hsteady, hhonest⟩ hphase
  case h_10 =>
      cases hstep
      exact ⟨trivial, hhonest⟩
  case h_11 ids now _ =>
      cases hstep
      refine ⟨hsteady.rows ?_, hhonest⟩
      intro commit groups hphase hstands
      simp only [LeavesKeeper, hphase] at hleaves
      apply hstands.unselected
      rintro row hid
      simp [touchRows, hid, hleaves]
  case h_12 ids now _ =>
      cases hstep
      refine ⟨hsteady.rows ?_, hhonest⟩
      intro commit groups hphase hstands
      simp only [LeavesKeeper, hphase] at hleaves
      apply hstands.unselected
      rintro row hid
      simp [closeRows, hid, hleaves]
  case h_13 ids _ =>
      cases hstep
      refine ⟨hsteady.rows ?_, hhonest⟩
      intro commit groups hphase hstands
      simp only [LeavesKeeper, hphase] at hleaves
      apply hstands.deleteWhere
      rintro row hid
      simp [hid, hleaves]
  case h_14 => cases hstep

theorem sound_of_reachable (hreach : ((system config).restrict LeavesKeeper).Reachable state) :
    Sound state := by
  apply Reachable.invariant _ _ hreach
  · rintro start ⟨hphase, hlog⟩
    constructor
    · rw [hphase]
      trivial
    · rw [KeepsKeepers, hlog]
      exact nofun
  · rintro before label after - hsound ⟨hstep, hleaves⟩
    exact step_sound hsound hstep hleaves

/-- Where every keeper is left alone from the reading of the groups to the end of their
commit, a compression closes fragments only beside live keepers and lowers no counter. -/
theorem keepsKeepers_of_reachable
    (hreach : ((system config).restrict LeavesKeeper).Reachable state) : KeepsKeepers state :=
  (sound_of_reachable hreach).honest

end Runs

section Samples

def oldRow (id : String) (importance : Rat) (accessCount : Nat) : Row where
  id := id
  topic := some "ops"
  keyId := some "key"
  workspace := none
  importance := importance
  accessCount := accessCount
  accessedAt := 0
  isAnchor := false
  hasEmbedding := true
  validTo := none

def trio : State where
  rows := ⟨[oldRow "a" (2 / 5) 3, oldRow "b" (1 / 5) 2, oldRow "c" (1 / 5) 1], by decide,
    fun _ _ => trivial⟩
  links := fun _ => none
  phase := .idle
  compressed := 0
  log := []

def trioConfig : Config := ⟨30, 3, fun a b => decide (a < b)⟩

/-- The groups are built from one batch, where each fragment is near the two others. -/
def buildTrio : List Label :=
  [.start 100, .nextBatch, .answer 0 100 [("b", 9 / 10), ("c", 17 / 20)],
    .answer 1 100 [("a", 9 / 10)], .answer 2 100 [], .form, .nextBatch, .nextBatch]

/-- Both others are closed and the counters are summed up. -/
def commitTrio : List Label :=
  [.beginGroup, .closeOther 100, .link true, .closeOther 100, .link false, .count]

def closedKeeper : List Label := buildTrio ++ [.close ["a"] 100, .beginGroup, .closeOther 100]

instance {rows : Rows} {id : String} {accessCount : Nat} :
    Decidable (Stands rows id accessCount) :=
  inferInstanceAs (Decidable (∃ row ∈ rows.rows, row.id = id /\ row.validTo = none /\
    row.accessCount ≤ accessCount))

instance {state : State} {label : Label} : Decidable (LeavesKeeper state label) := by
  unfold LeavesKeeper
  split <;> infer_instance

theorem trio_start : (system trioConfig).start trio := ⟨rfl, rfl⟩

def restrictedStep (state : State) (label : Label) : Option State :=
  if LeavesKeeper state label then step trioConfig state label else none

theorem restrictedStep_step {before after : State} {label : Label}
    (hstep : restrictedStep before label = some after) :
    ((system trioConfig).restrict LeavesKeeper).step before label after := by
  unfold restrictedStep at hstep
  split at hstep
  · rename_i hleaves
    exact ⟨hstep, hleaves⟩
  · cases hstep

/-- Where nothing comes between, both others are closed beside a live keeper, and its
counter is raised. -/
theorem commitTrio_keepsKeepers :
    ∃ state, ((system trioConfig).restrict LeavesKeeper).Reachable state /\
      state.log = [.closed "a" "b" true, .closed "a" "c" true, .counted "a" (some 3) (some 6)] /\
      KeepsKeepers state := by
  have hlog : (follow restrictedStep trio (buildTrio ++ commitTrio)).map State.log =
      some [.closed "a" "b" true, .closed "a" "c" true, .counted "a" (some 3) (some 6)] := by
    decide +kernel
  obtain ⟨state, hfollow, hlog⟩ := Option.map_eq_some_iff.mp hlog
  have hstart : ((system trioConfig).restrict LeavesKeeper).Reachable trio := .ofStart trio_start
  have hreach := hstart.run (.of_follow (fun _ _ _ => restrictedStep_step) hfollow)
  exact ⟨state, hreach, hlog, keepsKeepers_of_reachable hreach⟩

/-- A keeper closed after the groups were built: the commit closes another fragment in
favour of it. -/
theorem closedKeeper_closes_beside :
    ∃ state, (system trioConfig).Reachable state /\ Not (KeepsKeepers state) := by
  have hlog : (follow (step trioConfig) trio closedKeeper).map State.log =
      some [.closed "a" "b" false] := by
    decide +kernel
  obtain ⟨state, hfollow, hlog⟩ := Option.map_eq_some_iff.mp hlog
  have hstart : (system trioConfig).Reachable trio := .ofStart trio_start
  refine ⟨state, hstart.run (.of_follow (fun _ _ _ hstep => hstep) hfollow), ?_⟩
  intro hkeeps
  have hhonest : Honest (.closed "a" "b" false) :=
    hkeeps _ (by rw [hlog]; exact mem_singleton_self _)
  cases hhonest

end Samples

end AnchorMind.Consolidate.Compression
