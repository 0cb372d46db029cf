import AnchorMind.Kernel.Locks
import AnchorMind.Write.AnchorLimit

/-!
# Quotas and what counts against them

A key may have a limit, and so may the groups it is a member of.  A key's limit is
measured by its own live fragments, a group's by those of all its members; of the limits
that apply to a write the one with the least room decides.
-/

namespace AnchorMind.Accounting.QuotaQueries

open Write.Fragments

/-- A row of `api_key_groups` with the keys of its members. -/
structure Group where
  id : String
  name : String
  limit : Option Nat
  members : List String
deriving DecidableEq

/-- `api_keys.fragment_limit` and the groups in the order of their ids. -/
structure Limits where
  keyLimit : String -> Option Nat
  groups : List Group

def Limits.limitedGroups (limits : Limits) (key : String) : List Group :=
  limits.groups.filter fun group => group.limit.isSome && decide (key ∈ group.members)

def countLiveFragments (table : List Row) (key : String) : Nat :=
  table.countP fun row => decide (row.keyId = some key) && row.validTo.isNone

def inGroup (group : Group) (row : Row) : Bool :=
  match row.keyId with
  | none => false
  | some key => decide (key ∈ group.members)

def countGroupLiveFragments (table : List Row) (group : Group) : Nat :=
  table.countP fun row => inGroup group row && row.validTo.isNone

/-- An entry of `groupQuotaUsage`. -/
structure Usage where
  group : Group
  current : Nat

inductive QuotaScope where
  | key
  | group (id name : String)
deriving DecidableEq

structure Quota where
  scope : QuotaScope
  limit : Nat
  current : Nat
  remaining : Nat
deriving DecidableEq

def keyQuota (limit current : Nat) : Quota := ⟨.key, limit, current, limit - current⟩

def groupQuota (usage : Usage) (limit : Nat) : Quota :=
  ⟨.group usage.group.id usage.group.name, limit, usage.current, limit - usage.current⟩

def candidates (keyLimit : Option Nat) (keyCurrent : Nat) (usages : List Usage) : List Quota :=
  (keyLimit.map fun limit => keyQuota limit keyCurrent).toList ++
    usages.filterMap fun usage => usage.group.limit.map (groupQuota usage)

def leastRoom : List Quota -> Option Quota
  | [] => none
  | first :: rest =>
    some (rest.foldl (fun least quota => if quota.remaining < least.remaining then quota else least)
      first)

def tightestQuota (keyLimit : Option Nat) (keyCurrent : Nat) (usages : List Usage) : Option Quota :=
  leastRoom (candidates keyLimit keyCurrent usages)

theorem leastRoom_le {quotas : List Quota} {least : Quota}
    (hleast : leastRoom quotas = some least) :
    ∀ quota ∈ quotas, least.remaining ≤ quota.remaining := by
  cases quotas with
  | nil => cases hleast
  | cons first rest =>
    have hfold : ∀ start : Quota,
        let last := rest.foldl
          (fun least quota => if quota.remaining < least.remaining then quota else least) start
        last.remaining ≤ start.remaining /\
          ∀ quota ∈ rest, last.remaining ≤ quota.remaining := by
      clear hleast
      induction rest with
      | nil => simp
      | cons head rest ih =>
        intro start
        simp only [List.foldl_cons]
        obtain ⟨hstart, hrest⟩ := ih (if head.remaining < start.remaining then head else start)
        have hboth : (if head.remaining < start.remaining then head else start).remaining ≤
            min start.remaining head.remaining := by
          split <;> omega
        constructor
        · omega
        · intro quota hquota
          rcases List.mem_cons.mp hquota with rfl | hquota
          · omega
          · exact hrest quota hquota
    obtain ⟨hfirst, hrest⟩ := hfold first
    cases hleast
    intro quota hquota
    rcases List.mem_cons.mp hquota with rfl | hquota
    · exact hfirst
    · exact hrest quota hquota

variable {keyLimit : Option Nat} {usages : List Usage}

theorem tightestQuota_le {keyCurrent : Nat} {quota : Quota}
    (hquota : tightestQuota keyLimit keyCurrent usages = some quota) :
    (∀ limit, keyLimit = some limit -> quota.remaining ≤ limit - keyCurrent) /\
      ∀ usage limit, usage ∈ usages -> usage.group.limit = some limit ->
        quota.remaining ≤ limit - usage.current := by
  have hle := leastRoom_le hquota
  constructor
  · rintro limit rfl
    exact hle (keyQuota limit keyCurrent) (List.mem_append_left _ (by simp))
  · intro usage limit husage hlimit
    apply hle (groupQuota usage limit)
    refine List.mem_append_right _ (List.mem_filterMap.mpr ⟨usage, husage, ?_⟩)
    rw [hlimit, Option.map_some]

theorem tightestQuota_eq_none {keyCurrent : Nat}
    (hnone : tightestQuota keyLimit keyCurrent usages = none) :
    keyLimit = none /\ ∀ usage ∈ usages, usage.group.limit = none := by
  have hempty : candidates keyLimit keyCurrent usages = [] := by
    unfold tightestQuota at hnone
    cases hcandidates : candidates keyLimit keyCurrent usages with
    | nil => rfl
    | cons first rest => rw [hcandidates] at hnone; cases hnone
  obtain ⟨hkey, hgroups⟩ := List.append_eq_nil_iff.mp hempty
  constructor
  · simpa using hkey
  · simpa using hgroups

end AnchorMind.Accounting.QuotaQueries

/-!
# Atomic writes under quotas

In the atomic mode a write locks the row of its key, counts, locks the rows of the
key's groups that have a limit one after another, counts those, and goes on with what
the tightest quota leaves; the locks go with the transaction.  A batch is cut to its
quota twice, in a transaction of its own and in the one that inserts.
-/

namespace AnchorMind.Accounting.AtomicWrites

open Kernel.Transition Kernel.Locks Write.Fragments Write.DedupScope Write.BatchInsert
  Write.BatchDedup Write.FragmentWriter Write.FragmentUpdate
open Write.AnchorQuota (foldedItems)
open Accounting.QuotaQueries

variable {sha : Sha256}

structure Settings where
  limits : Limits
  configured : Scope
  anchorLimit : Nat
  enforceAnchors : Bool

def Settings.context (settings : Settings) (indexes : DedupIndexState) (key : String) :
    WriteContext where
  keyId := some key
  indexes := indexes
  configured := settings.configured
  anchorLimit := settings.anchorLimit
  enforceAnchors := settings.enforceAnchors

inductive Resource where
  | key (key : String)
  | group (group : Group)
deriving DecidableEq

/-- What a transaction that runs `lockQuota` does after it: the single write, the check
that writes nothing, and the two phases of a batch. -/
inductive Job (sha : Sha256) where
  | remember (fragment : Fragment sha.hashContent)
  | check
  | phaseA (items : List (Item sha.hashContent)) (results : Results)
  | phaseB (items : List (Item sha.hashContent)) (results : Results) (attempts : Nat)

/-- The rows a write may still add. -/
def Job.size : Job sha -> Nat
  | .remember _ => 1
  | .phaseB items _ _ => items.length
  | _ => 0

inductive Session (sha : Sha256) where
  | idle
  | pending (key : String) (job : Job sha)
  | keyLocked (key : String) (job : Job sha)
  | groupLocking (key : String) (job : Job sha) (keyCurrent : Nat) (locked waiting : List Group)
  | groupCounting (key : String) (job : Job sha) (keyCurrent : Nat) (usages : List Usage)
      (waiting : List Group)
  | writing (key : String) (job : Job sha)

structure State (Client : Type) (sha : Sha256) where
  table : List Row
  indexes : DedupIndexState
  locks : LockTable Resource Client
  session : Client -> Session sha

inductive Label (Client : Type) (sha : Sha256) where
  | remember (client : Client) (key : String) (fragment : Fragment sha.hashContent)
  | batchRemember (client : Client) (key : String) (items : List (Item sha.hashContent))
      (results : Results)
  | check (client : Client) (key : String)
  | lockKey (client : Client)
  | countKey (client : Client)
  | lockGroup (client : Client)
  | countGroup (client : Client)
  | judge (client : Client)
  | write (client : Client)
  | rollback (client : Client)
  | close (id : String) (time : Nat)
  | changeIndexes (indexes : DedupIndexState)

section

variable {Client : Type} [DecidableEq Client]

namespace State

def put (state : State Client sha) (client : Client) (session : Session sha) :
    State Client sha :=
  { state with session := Function.update state.session client session }

def lock (state : State Client sha) (client : Client) (resource : Resource)
    (session : Session sha) : Option (State Client sha) :=
  if state.locks resource = none then
    some { state.put client session with locks := acquire state.locks client resource }
  else none

def finish (state : State Client sha) (client : Client) (session : Session sha)
    (table : List Row) : State Client sha :=
  { state.put client session with
    table := table
    locks := release state.locks client }

def accept (state : State Client sha) (client : Client) (key : String) (job : Job sha) :
    Option (State Client sha) :=
  match state.session client with
  | .idle => some (state.put client (.pending key job))
  | _ => none

end State

def quotaError : String := "fragment_limit_exceeded"

def rejectItems (results : Results) (rejected : List (Item sha.hashContent)) : Results :=
  rejected.foldl (fun results item =>
    Function.update results item.index
      { results item.index with id := none, error := some quotaError }) results

/-- What follows the quota: the transaction goes on, ends, or cuts a batch. -/
def judge (state : State Client sha) (client : Client) (key : String) (job : Job sha)
    (quota : Option Quota) : State Client sha :=
  match job, quota with
  | .remember fragment, none => state.put client (.writing key (.remember fragment))
  | .remember fragment, some quota =>
    if quota.remaining = 0 then state.finish client .idle state.table
    else state.put client (.writing key (.remember fragment))
  | .check, _ => state.finish client .idle state.table
  | .phaseA items results, none =>
    state.finish client (.pending key (.phaseB items results dedupRetries)) state.table
  | .phaseA items results, some quota =>
    if quota.remaining = 0 then state.finish client .idle state.table
    else
      let left := items.take quota.remaining
      let results := rejectItems results (items.drop quota.remaining)
      state.finish client (.pending key (.phaseB left results dedupRetries)) state.table
  | .phaseB items results attempts, none =>
    state.put client (.writing key (.phaseB items results attempts))
  | .phaseB items results attempts, some quota =>
    if quota.remaining = 0 then state.finish client .idle state.table
    else
      let left := items.take quota.remaining
      let results := rejectItems results (items.drop quota.remaining)
      state.put client (.writing key (.phaseB left results attempts))

def writeJob (settings : Settings) (state : State Client sha) (client : Client) (key : String) :
    Job sha -> Option (State Client sha)
  | .remember fragment =>
    let context := settings.context state.indexes key
    match insertDetailed sha context state.table fragment with
    | .ok written => some (state.finish client .idle written.table)
    | .error _ => some (state.finish client .idle state.table)
  | .phaseB items results attempts =>
    let context := settings.context state.indexes key
    let allotment := applyAnchorQuotaToBatch context state.table items results
    match insertAccepted context state.table allotment.kept allotment.results with
    | .ok outcome => some (state.finish client .idle outcome.table)
    | .error refusal =>
      let folded := foldedItems context state.table allotment.kept
      let again := if isDedupIndexError refusal && decide (0 < attempts) then
          .pending key (.phaseB folded allotment.results (attempts - 1))
        else .idle
      some (state.finish client again state.table)
  | _ => none

def step (settings : Settings) (state : State Client sha) :
    Label Client sha -> Option (State Client sha)
  | .remember client key fragment => state.accept client key (.remember fragment)
  | .batchRemember client key items results => state.accept client key (.phaseA items results)
  | .check client key => state.accept client key .check
  | .lockKey client =>
    match state.session client with
    | .pending key job => state.lock client (.key key) (.keyLocked key job)
    | _ => none
  | .countKey client =>
    match state.session client with
    | .keyLocked key job =>
      let current := match settings.limits.keyLimit key with
        | none => 0
        | some _ => countLiveFragments state.table key
      some (state.put client
        (.groupLocking key job current [] (settings.limits.limitedGroups key)))
    | _ => none
  | .lockGroup client =>
    match state.session client with
    | .groupLocking key job current locked (group :: waiting) =>
      state.lock client (.group group)
        (.groupLocking key job current (locked ++ [group]) waiting)
    | .groupLocking key job current locked [] =>
      some (state.put client (.groupCounting key job current [] locked))
    | _ => none
  | .countGroup client =>
    match state.session client with
    | .groupCounting key job current usages (group :: waiting) =>
      let usage : Usage := ⟨group, countGroupLiveFragments state.table group⟩
      some (state.put client (.groupCounting key job current (usages ++ [usage]) waiting))
    | _ => none
  | .judge client =>
    match state.session client with
    | .groupCounting key job current usages [] =>
      let quota := tightestQuota (settings.limits.keyLimit key) current usages
      some (judge state client key job quota)
    | _ => none
  | .write client =>
    match state.session client with
    | .writing key job => writeJob settings state client key job
    | _ => none
  | .rollback client => some (state.finish client .idle state.table)
  | .close id time => some { state with table := closeRow id time state.table }
  | .changeIndexes indexes =>
    if satisfied indexes state.table then some { state with indexes := indexes } else none

end

def limitOf (limits : Limits) : Resource -> Option Nat
  | .key key => limits.keyLimit key
  | .group group => if group ∈ limits.groups then group.limit else none

def liveCount (table : List Row) : Resource -> Nat
  | .key key => countLiveFragments table key
  | .group group => countGroupLiveFragments table group

def WithinLimits (limits : Limits) (table : List Row) : Prop :=
  ∀ resource limit, limitOf limits resource = some limit ->
    liveCount table resource ≤ limit

def system {Client : Type} [DecidableEq Client] (settings : Settings) :
    System (State Client sha) (Label Client sha) where
  start state := WithinLimits settings.limits state.table /\
    Satisfies state.indexes state.table /\ (∀ resource, state.locks resource = none) /\
    ∀ client, state.session client = .idle
  step before label after := step settings before label = some after

end AnchorMind.Accounting.AtomicWrites
