import AnchorMind.Kernel.SharedState
import AnchorMind.Write.FragmentUpdate

/-!
# The paths that set anchors, run by many callers at once

A caller's request passes the gate, waits for the lock on the row of its key if it
designates an anchor, counts the live anchors of the key, and writes; the lock goes
with the transaction.  Requests without a designation, amends of a row that was an
anchor when it was read, and the promotion of anchors take no lock.
-/

namespace AnchorMind.Write.AnchorQuota

open List Function

open Kernel.Transition Kernel.Reservation Write.Fragments Write.DedupScope Write.BatchInsert
  Write.BatchDedup Write.FragmentWriter Write.AnchorAllotment Write.FragmentUpdate

structure Settings where
  key : String
  configured : Scope
  anchorLimit : Nat
  enforceAnchors : Bool

def Settings.context (settings : Settings) (indexes : DedupIndexState) : WriteContext where
  keyId := some settings.key
  indexes := indexes
  configured := settings.configured
  anchorLimit := settings.anchorLimit
  enforceAnchors := settings.enforceAnchors

variable {sha : Sha256}

/-- `_withAnchorQuota` on a created fragment: a designation the gate grants is marked
and one it does not grant is withdrawn. -/
def gateCreate (granted : Bool) (fragment : Fragment sha.hashContent) :
    Fragment sha.hashContent :=
  { fragment with
    isAnchor := fragment.isAnchor && granted
    anchorQuota := fragment.isAnchor && granted }

/-- Where a caller stands.  Past the gate a request waits to write; a locked one holds
the lock on the key and has counted. -/
inductive Session (sha : Sha256) where
  | idle
  | remembering (fragment : Fragment sha.hashContent)
  | rememberLocked (fragment : Fragment sha.hashContent)
  | batching (items : List (Item sha.hashContent)) (results : Results) (attempts : Nat)
  | batchLocked (items : List (Item sha.hashContent)) (results : Results) (attempts : Nat)
  | amending (updates : Updates) (existing : Row)
  | amendLocked (updates : Updates)

namespace Session

def locked : Session sha -> Bool
  | rememberLocked _ => true
  | batchLocked _ _ _ => true
  | amendLocked _ => true
  | _ => false

def allowance : Session sha -> Nat
  | rememberLocked fragment => fragment.isAnchor.toNat
  | batchLocked items _ _ => items.countP fun item => item.fragment.isAnchor
  | amendLocked updates => (decide (updates.isAnchor = some true)).toNat
  | _ => 0

end Session

/-- The fragments table, its indexes, who holds the lock on the key, where every caller
stands, and how many anchors were made outside the quota. -/
structure State (Client : Type) (sha : Sha256) where
  table : List Row
  indexes : DedupIndexState
  holder : Option Client
  session : Client -> Session sha
  waived : Nat

inductive Label (Client : Type) (sha : Sha256) where
  | remember (client : Client) (granted : Bool) (fragment : Fragment sha.hashContent)
  | batchRemember (client : Client) (granted : Nat -> Bool)
      (items : List (Item sha.hashContent)) (results : Results)
  | amend (client : Client) (granted : Bool) (updates : Updates)
  | lockAndCountAnchors (client : Client)
  | write (client : Client)
  | rollback (client : Client)
  | promoteAnchors (ready : List String)
  | masterAmend (updates : Updates)
  | close (id : String) (time : Nat)
  | changeIndexes (indexes : DedupIndexState)

section

variable {Client : Type} [DecidableEq Client]

namespace State

def put (state : State Client sha) (client : Client) (session : Session sha) :
    State Client sha :=
  { state with session := update state.session client session }

def lock (state : State Client sha) (client : Client) (session : Session sha) :
    State Client sha :=
  { state.put client session with holder := some client }

/-- The transaction ends, and with it the lock. -/
def finish (state : State Client sha) (client : Client) (session : Session sha)
    (table : List Row) : State Client sha :=
  { state.put client session with
    table := table
    holder := if state.holder = some client then none else state.holder }

end State

/-- `applyToFragment`, `applyAnchorQuotaToBatch`, `applyAnchorQuotaToUpdate`: each waits
for the lock, counts, and goes on with what is granted. -/
def lockAndCountAnchors (settings : Settings) (state : State Client sha) (client : Client) :
    Option (State Client sha) :=
  let context := settings.context state.indexes
  if state.holder ≠ none then none
  else
    match state.session client with
    | .remembering fragment =>
      if fragment.anchorQuota && fragment.isAnchor then
        match applyAnchorQuota context state.table fragment with
        | .error _ => some (state.finish client .idle state.table)
        | .ok allowed => some (state.lock client (.rememberLocked allowed))
      else none
    | .batching items results attempts =>
      if items.any designates then
        let allotment := applyAnchorQuotaToBatch context state.table items results
        some (state.lock client (.batchLocked allotment.kept allotment.results attempts))
      else none
    | .amending updates existing =>
      if recounts updates existing then
        match applyAnchorQuotaToUpdate context state.table updates existing with
        | .error _ => some (state.finish client .idle state.table)
        | .ok allowed => some (state.lock client (.amendLocked allowed))
      else none
    | _ => none

def foldedItems (context : WriteContext) (table : List Row) (items : List (Item sha.hashContent)) :
    List (Item sha.hashContent) :=
  let rest := (resolveDuplicates context table items).2
  let unique := (collapseHashDuplicates rest context.scope).unique
  items.map fun item => (unique.find? fun primary => primary.index = item.index).getD item

def writeRemember (settings : Settings) (state : State Client sha) (client : Client)
    (fragment : Fragment sha.hashContent) : State Client sha :=
  let context := settings.context state.indexes
  match runInsert context state.table (prepareInsertRow sha context.keyId fragment) with
  | .ok written => state.finish client .idle written.table
  | .error _ => state.finish client .idle state.table

def writeBatch (settings : Settings) (state : State Client sha) (client : Client)
    (items : List (Item sha.hashContent)) (results : Results) (attempts : Nat) :
    State Client sha :=
  let context := settings.context state.indexes
  match insertAccepted context state.table items results with
  | .ok outcome => state.finish client .idle outcome.table
  | .error refusal =>
    let again := if isDedupIndexError refusal && decide (0 < attempts) then
        .batching (foldedItems context state.table items) results (attempts - 1)
      else .idle
    state.finish client again state.table

def writeAmend (settings : Settings) (state : State Client sha) (client : Client)
    (updates : Updates) : State Client sha :=
  let context := settings.context state.indexes
  state.finish client .idle (update sha context context.keyId state.table updates)

def write (settings : Settings) (state : State Client sha) (client : Client) :
    Option (State Client sha) :=
  match state.session client with
  | .idle => none
  | .remembering fragment =>
    if fragment.anchorQuota && fragment.isAnchor then none
    else some (writeRemember settings state client fragment)
  | .rememberLocked fragment => some (writeRemember settings state client fragment)
  | .batching items results attempts =>
    if items.any designates then none
    else some (writeBatch settings state client items results attempts)
  | .batchLocked items results attempts =>
    some (writeBatch settings state client items results attempts)
  | .amending updates existing =>
    if recounts updates existing then none
    else some (writeAmend settings state client updates)
  | .amendLocked updates => some (writeAmend settings state client updates)

/-- `is_anchor = FALSE AND access_count >= 10 AND importance >= 0.8`; `ready` names the
rows with enough accesses that wait for no review. -/
def promotable (ready : List String) (row : Row) : Bool :=
  !row.isAnchor && decide (row.id ∈ ready) && decide (4 / 5 ≤ row.importance.val)

def promoteAnchors (ready : List String) (table : List Row) : List Row :=
  table.map fun row => if promotable ready row then { row with isAnchor := true } else row

def waive (settings : Settings) (state : State Client sha) (table : List Row) :
    State Client sha :=
  let keyId := some settings.key
  { state with
    table := table
    waived := state.waived + (countLiveAnchors table keyId - countLiveAnchors state.table keyId) }

def step (settings : Settings) (state : State Client sha) :
    Label Client sha -> Option (State Client sha)
  | .remember client granted fragment =>
    match state.session client with
    | .idle => some (state.put client (.remembering (gateCreate granted fragment)))
    | _ => none
  | .batchRemember client granted items results =>
    match state.session client with
    | .idle =>
      let gated := items.map fun item =>
        { item with fragment := gateCreate (granted item.index) item.fragment }
      some (state.put client (.batching gated results dedupRetries))
    | _ => none
  | .amend client granted updates =>
    match state.session client, lockRow updates.id state.table with
    | .idle, some (_, existing, _) =>
      if existing.keyId = some settings.key then
        some (state.put client (.amending (gateUpdate granted existing updates) existing))
      else none
    | _, _ => none
  | .lockAndCountAnchors client => lockAndCountAnchors settings state client
  | .write client => write settings state client
  | .rollback client => some (state.finish client .idle state.table)
  | .promoteAnchors ready => some (waive settings state (promoteAnchors ready state.table))
  | .masterAmend updates =>
    let context := settings.context state.indexes
    some (waive settings state (update sha context none state.table updates))
  | .close id time => some { state with table := closeRow id time state.table }
  | .changeIndexes indexes =>
    if satisfied indexes state.table then some { state with indexes := indexes } else none

def system (settings : Settings) (origin : List Row) :
    System (State Client sha) (Label Client sha) where
  start state := state.table = origin /\ Satisfies state.indexes origin /\
    state.holder = none /\ (∀ client, state.session client = .idle) /\ state.waived = 0
  step before label after := step settings before label = some after

/-- The steps that do not act on what is out of date: an amend that takes no lock since
its row was an anchor finds it an anchor still, and a batch asks only for the anchors
the gate marked (one that is run again may have merged a mark into an unmarked item). -/
def KeepsQuota (settings : Settings) (state : State Client sha) : Label Client sha -> Prop
  | .write client =>
    match state.session client with
    | .amending updates _ => updates.isAnchor = some true ->
        ∀ row ∈ state.table, row.id = updates.id ->
          row.keyId = some settings.key -> row.isAnchor = true
    | .batching items _ _ => ∀ item ∈ items, item.fragment.isAnchor = true ->
        item.fragment.anchorQuota = true
    | _ => True
  | .lockAndCountAnchors client =>
    match state.session client with
    | .batching items _ _ => ∀ item ∈ items, item.fragment.isAnchor = true ->
        item.fragment.anchorQuota = true
    | _ => True
  | _ => True

end

end AnchorMind.Write.AnchorQuota

/-!
# The anchor limit of a key

Live anchors together with what the holder of the lock may still make stay within the
limit, apart from anchors that promotions and the master make and as long as no step
acts on a mark or a row that is out of date.
-/

namespace AnchorMind.Write.AnchorLimit

open List Function

open Kernel.Transition Kernel.Reservation Write.Fragments Write.DedupScope Write.BatchInsert
  Write.BatchDedup Write.FragmentWriter Write.AnchorAllotment Write.FragmentUpdate Write.AnchorQuota

variable {sha : Sha256} {Client : Type} [DecidableEq Client] {settings : Settings}
variable {state after : State Client sha} {client : Client}

def held (state : State Client sha) : Nat :=
  match state.holder with
  | none => 0
  | some client => (state.session client).allowance

def account (settings : Settings) (state : State Client sha) : Account where
  count := countLiveAnchors state.table (some settings.key)
  held := held state
  waived := state.waived

section

variable {session : Session sha} {table : List Row}

omit [DecidableEq Client] in
theorem held_of_holder (hholder : state.holder = some client) :
    held state = (state.session client).allowance := by
  simp only [held, hholder]

theorem held_put_le (hsession : session.allowance ≤ (state.session client).allowance) :
    held (state.put client session) ≤ held state := by
  unfold held State.put
  cases hholder : state.holder with
  | none => exact Nat.le_refl _
  | some other =>
    rcases Classical.em (other = client) with rfl | hne
    · simpa using hsession
    · simp [update_of_ne hne]

theorem held_lock : held (state.lock client session) = session.allowance := by
  simp [held, State.lock, State.put]

theorem held_finish_of_holder (hholder : state.holder = some client) :
    held (state.finish client session table) = 0 := by
  simp [held, State.finish, State.put, hholder]

theorem held_finish_of_other (hholder : state.holder ≠ some client) :
    held (state.finish client session table) = held state := by
  unfold held State.finish State.put
  rw [if_neg hholder]
  cases hother : state.holder with
  | none => rfl
  | some other =>
    have hne : other ≠ client := fun hsame => hholder (hsame ▸ hother)
    simp [update_of_ne hne]

end

/-- The indexes hold, the lock is held exactly by the request that counted, and what
waits to be remembered as an anchor is marked. -/
structure Sound (state : State Client sha) : Prop where
  satisfies : Satisfies state.indexes state.table
  exclusive : ∀ client, state.holder = some client <->
    (state.session client).locked = true
  marked : ∀ client fragment, state.session client = .remembering fragment ->
    fragment.isAnchor = true -> fragment.anchorQuota = true

def Ended : Session sha -> Prop
  | .idle => True
  | .batching _ _ _ => True
  | _ => False

theorem Ended.locked {session : Session sha} (hended : Ended session) : session.locked = false := by
  cases session <;> first | rfl | exact hended.elim

section

variable {session : Session sha} {table : List Row}

section

variable (hsound : Sound state)
include hsound

theorem Sound.put (hidle : state.session client = .idle) (hlocked : session.locked = false)
    (hmarked : ∀ fragment, session = .remembering fragment -> fragment.isAnchor = true ->
      fragment.anchorQuota = true) : Sound (state.put client session) := by
  constructor
  · exact hsound.satisfies
  · intro other
    rcases Classical.em (other = client) with rfl | hne
    · have hiff := hsound.exclusive other
      rw [hidle] at hiff
      simp only [State.put, update_self, hlocked]
      exact hiff
    · simp only [State.put, update_of_ne hne]
      exact hsound.exclusive other
  · intro other fragment hother
    rcases Classical.em (other = client) with rfl | hne
    · simp only [State.put, update_self] at hother
      exact hmarked fragment hother
    · simp only [State.put, update_of_ne hne] at hother
      exact hsound.marked other fragment hother

theorem Sound.lock (hfree : state.holder = none) (hlocked : session.locked = true) :
    Sound (state.lock client session) := by
  constructor
  · exact hsound.satisfies
  · intro other
    rcases Classical.em (other = client) with rfl | hne
    · simp [State.lock, State.put, hlocked]
    · have hiff := hsound.exclusive other
      rw [hfree] at hiff
      simp only [State.lock, State.put, update_of_ne hne]
      constructor
      · intro hholder
        exact absurd (Option.some.inj hholder).symm hne
      · intro hother
        exact absurd (hiff.mpr hother) (by simp)
  · intro other fragment hother
    rcases Classical.em (other = client) with rfl | hne
    · simp only [State.lock, State.put, update_self] at hother
      rw [hother] at hlocked
      cases hlocked
    · simp only [State.lock, State.put, update_of_ne hne] at hother
      exact hsound.marked other fragment hother

theorem Sound.finish (hended : Ended session) (hsatisfies : Satisfies state.indexes table) :
    Sound (state.finish client session table) := by
  constructor
  · exact hsatisfies
  · intro other
    rcases Classical.em (other = client) with rfl | hne
    · simp only [State.finish, State.put, update_self, hended.locked]
      split
      · simp
      · rename_i hother
        simpa using hother
    · simp only [State.finish, State.put, update_of_ne hne]
      rw [<- hsound.exclusive other]
      split
      · rename_i hholder
        rw [hholder]
        simp [Ne.symm hne]
      · rfl
  · intro other fragment hother
    rcases Classical.em (other = client) with rfl | hne
    · simp only [State.finish, State.put, update_self] at hother
      rw [hother] at hended
      exact hended.elim
    · simp only [State.finish, State.put, update_of_ne hne] at hother
      exact hsound.marked other fragment hother

omit [DecidableEq Client] in
theorem Sound.commit {indexes : DedupIndexState} {waived : Nat}
    (hsatisfies : Satisfies indexes table) :
    Sound { state with table := table, indexes := indexes, waived := waived } :=
  ⟨hsatisfies, hsound.exclusive, hsound.marked⟩

end

end

variable {items : List (Item sha.hashContent)}

/-- What a step under the lock leaves: the request is over, or it holds the lock with an
allowance the limit has room for. -/
structure Grants (settings : Settings) (state after : State Client sha) (client : Client) : Prop
  where
  outcome : after = state.finish client .idle state.table \/
    ∃ session, after = state.lock client session /\ session.locked = true /\
      (session.allowance = 0 \/
        countLiveAnchors state.table (some settings.key) + session.allowance ≤
          settings.anchorLimit)

theorem marked_kept (context : WriteContext) (table : List Row) (results : Results)
    (hmarked : ∀ item ∈ items, item.fragment.isAnchor = true -> item.fragment.anchorQuota = true) :
    ∀ item ∈ (applyAnchorQuotaToBatch context table items results).kept,
      item.fragment.isAnchor = true -> item.fragment.anchorQuota = true := by
  unfold applyAnchorQuotaToBatch
  have hkeep : ∀ state : Allotment sha.hashContent,
      (∀ item ∈ state.kept, item.fragment.isAnchor = true ->
        item.fragment.anchorQuota = true) ->
      ∀ item ∈ (items.foldl (allotAnchor context) state).kept,
        item.fragment.isAnchor = true -> item.fragment.anchorQuota = true := by
    induction items with
    | nil => exact fun state hstate => hstate
    | cons head rest ih =>
      intro state hstate
      have hrest := ih fun item hitem => hmarked item (mem_cons_of_mem _ hitem)
      apply hrest (allotAnchor context state head)
      intro item hitem hanchor
      rcases allotAnchor_kept context state head with hkept | hkept | hkept
      · rw [hkept] at hitem
        exact hstate item hitem hanchor
      · rw [hkept] at hitem
        rcases mem_append.mp hitem with hold | hnew
        · exact hstate item hold hanchor
        · rw [mem_singleton.mp hnew] at hanchor ⊢
          exact hmarked head mem_cons_self hanchor
      · rw [hkept] at hitem
        rcases mem_append.mp hitem with hold | hnew
        · exact hstate item hold hanchor
        · rw [mem_singleton.mp hnew] at hanchor
          cases hanchor
  exact hkeep _ (by simp)

theorem countP_designates
    (hmarked : ∀ item ∈ items, item.fragment.isAnchor = true -> item.fragment.anchorQuota = true) :
    items.countP (fun item => item.fragment.isAnchor) = items.countP designates := by
  apply countP_congr
  intro item hitem
  simp only [designates, Bool.and_eq_true]
  constructor
  · intro hanchor
    exact ⟨hanchor, hmarked item hitem hanchor⟩
  · intro hboth
    exact hboth.1

theorem lockAndCountAnchors_grants
    (hkeeps : KeepsQuota settings state (.lockAndCountAnchors client))
    (hstep : lockAndCountAnchors settings state client = some after) :
    state.holder = none /\ Grants settings state after client := by
  unfold lockAndCountAnchors at hstep
  unfold KeepsQuota at hkeeps
  dsimp only at hstep
  split at hstep
  · cases hstep
  · rename_i hholder
    have hfree : state.holder = none := by simpa using hholder
    refine ⟨hfree, ?_⟩
    cases hsession : state.session client with
    | remembering fragment =>
      simp only [hsession] at hstep
      split at hstep
      · rename_i hdesignates
        split at hstep
        · cases hstep
          exact ⟨.inl rfl⟩
        · rename_i allowed hallowed
          cases hstep
          refine ⟨Or.inr ⟨_, rfl, rfl, ?_⟩⟩
          unfold applyAnchorQuota at hallowed
          rw [if_pos hdesignates] at hallowed
          split at hallowed
          · rename_i hroom
            cases hallowed
            have hone : fragment.isAnchor.toNat ≤ 1 := Bool.toNat_le _
            have hroom : countLiveAnchors state.table (some settings.key) <
                settings.anchorLimit := hroom
            right
            change _ + fragment.isAnchor.toNat ≤ _
            omega
          · split at hallowed
            · cases hallowed
            · cases hallowed
              exact .inl rfl
      · cases hstep
    | batching items results attempts =>
      simp only [hsession] at hstep hkeeps
      split at hstep
      · cases hstep
        refine ⟨Or.inr ⟨_, rfl, rfl, ?_⟩⟩
        let context := settings.context state.indexes
        have htotal := (granted_applyAnchorQuotaToBatch context state.table items results).total
        have hsame := countP_designates (marked_kept context state.table results hkeeps)
        change countP _ _ = 0 \/ _ + countP _ _ ≤ _
        rw [hsame]
        exact htotal
      · cases hstep
    | amending updates existing =>
      simp only [hsession] at hstep
      split at hstep
      · rename_i hrecounts
        split at hstep
        · cases hstep
          exact ⟨.inl rfl⟩
        · rename_i allowed hallowed
          cases hstep
          refine ⟨Or.inr ⟨_, rfl, rfl, ?_⟩⟩
          unfold applyAnchorQuotaToUpdate at hallowed
          rw [if_pos hrecounts] at hallowed
          split at hallowed
          · rename_i hroom
            cases hallowed
            have hone : (decide (updates.isAnchor = some true)).toNat ≤ 1 := Bool.toNat_le _
            have hroom : countLiveAnchors state.table (some settings.key) <
                settings.anchorLimit := hroom
            right
            change _ + (decide (updates.isAnchor = some true)).toNat ≤ _
            omega
          · split at hallowed
            · cases hallowed
            · cases hallowed
              exact .inl rfl
      · cases hstep
    | idle => simp only [hsession] at hstep; cases hstep
    | rememberLocked fragment => simp only [hsession] at hstep; cases hstep
    | batchLocked items results attempts => simp only [hsession] at hstep; cases hstep
    | amendLocked updates => simp only [hsession] at hstep; cases hstep

/-- What the rest of a transaction leaves: it ends, with no more anchors made than its
allowance. -/
structure Writes (settings : Settings) (state after : State Client sha) (client : Client) : Prop
  where
  outcome : ∃ session table, after = state.finish client session table /\ Ended session /\
    AddsAnchors (settings.context state.indexes) state.table table
      (state.session client).allowance

theorem writeRemember_writes (hsound : Sound state) {fragment : Fragment sha.hashContent}
    (hallowance : fragment.isAnchor.toNat ≤ (state.session client).allowance) :
    Writes settings state (writeRemember settings state client fragment) client := by
  unfold writeRemember
  dsimp only
  split
  · rename_i written hwrite
    have hadds : AddsAnchors (settings.context state.indexes) state.table written.table
        fragment.isAnchor.toNat := runInsert_anchors hsound.satisfies rfl rfl hwrite
    refine ⟨.idle, written.table, rfl, trivial, hadds.satisfies, ?_⟩
    exact Nat.le_trans hadds.count (Nat.add_le_add_left hallowance _)
  · exact ⟨.idle, state.table, rfl, trivial, hsound.satisfies, Nat.le_add_right _ _⟩

theorem writeBatch_writes (hsound : Sound state) {items : List (Item sha.hashContent)}
    {results : Results} {attempts : Nat}
    (hallowance : items.countP (fun item => item.fragment.isAnchor) ≤
      (state.session client).allowance) :
    Writes settings state (writeBatch settings state client items results attempts) client := by
  unfold writeBatch
  dsimp only
  split
  · rename_i outcome hwrite
    have hadds : AddsAnchors (settings.context state.indexes) state.table outcome.table
        (items.countP fun item => item.fragment.isAnchor) :=
      insertAccepted_anchors hsound.satisfies hwrite
    refine ⟨.idle, outcome.table, rfl, trivial, hadds.satisfies, ?_⟩
    exact Nat.le_trans hadds.count (Nat.add_le_add_left hallowance _)
  · refine ⟨_, state.table, rfl, ?_, hsound.satisfies, Nat.le_add_right _ _⟩
    split <;> trivial

theorem write_writes (hsound : Sound state) (hkeeps : KeepsQuota settings state (.write client))
    (hstep : write settings state client = some after) : Writes settings state after client := by
  unfold write at hstep
  unfold KeepsQuota at hkeeps
  cases hsession : state.session client with
  | idle => simp only [hsession] at hstep; cases hstep
  | remembering fragment =>
    simp only [hsession] at hstep
    split at hstep
    · cases hstep
    · rename_i hdesignates
      cases hstep
      apply writeRemember_writes hsound
      have hmarked := hsound.marked client fragment hsession
      cases hanchor : fragment.isAnchor with
      | false => simp
      | true => simp [hanchor, hmarked hanchor] at hdesignates
  | rememberLocked fragment =>
    simp only [hsession] at hstep
    cases hstep
    apply writeRemember_writes hsound
    rw [hsession]
    exact Nat.le_refl _
  | batching items results attempts =>
    simp only [hsession] at hstep hkeeps
    split at hstep
    · cases hstep
    · rename_i hnone
      cases hstep
      apply writeBatch_writes hsound
      rw [countP_designates hkeeps]
      have hzero : items.countP designates = 0 := by
        rw [countP_eq_zero]
        simpa using hnone
      rw [hzero]
      exact Nat.zero_le _
  | batchLocked items results attempts =>
    simp only [hsession] at hstep
    cases hstep
    apply writeBatch_writes hsound
    rw [hsession]
    exact Nat.le_refl _
  | amending updates existing =>
    simp only [hsession] at hstep hkeeps
    split at hstep
    · cases hstep
    · cases hstep
      refine ⟨.idle, _, rfl, trivial, ?_⟩
      apply update_anchors hsound.satisfies
      intro row hrow hid howner hset hanchor
      rcases howner with hmaster | howner
      · cases hmaster
      · rw [hkeeps hset row hrow hid howner] at hanchor
        cases hanchor
  | amendLocked updates =>
    simp only [hsession] at hstep
    cases hstep
    refine ⟨.idle, _, rfl, trivial, ?_⟩
    apply update_anchors hsound.satisfies
    intro row _ _ _ hset _
    simp [hsession, Session.allowance, hset]

variable {indexes : DedupIndexState} {table : List Row}

theorem satisfies_promoteAnchors (hsatisfies : Satisfies indexes table) (ready : List String) :
    Satisfies indexes (promoteAnchors ready table) := by
  intro name hname
  refine pairwise_map.mpr ((hsatisfies name hname).imp ?_)
  intro left right hnot
  have hentry (row : Row) : indexEntry name
      (if promotable ready row then { row with isAnchor := true } else row) =
        indexEntry name row := by
    split
    · cases name <;> rfl
    · rfl
  rw [Kernel.UniqueIndex.Clash, hentry, hentry]
  exact hnot

theorem countLiveAnchors_closeRow_le (id : String) (time : Nat) (keyId : Option String) :
    countLiveAnchors (closeRow id time table) keyId ≤ countLiveAnchors table keyId := by
  unfold closeRow
  split
  · exact Nat.le_refl _
  · rename_i front row back hlock
    rw [(lockRow_eq hlock).1]
    have hclosed : (liveAnchor keyId { row with validTo := some time }).toNat ≤
        (liveAnchor keyId row).toNat + 0 := by simp [liveAnchor]
    exact countP_replace hclosed

section

variable {origin : List Row} {label : Label Client sha}

omit [DecidableEq Client] in
theorem moves_of_held_le (htable : after.table = state.table)
    (hwaived : after.waived = state.waived) (hheld : held after ≤ held state) :
    Moves settings.anchorLimit (account settings state) (account settings after) := by
  apply Moves.spend
  · simp only [account, htable]
    omega
  · simp only [account, hwaived]
    exact Nat.le_refl _

theorem step_sound (hsound : Sound state) (hkeeps : KeepsQuota settings state label)
    (hstep : step settings state label = some after) :
    Sound after /\ Moves settings.anchorLimit (account settings state) (account settings after) :=
      by
  have hput (client : Client) (session : Session sha) (hidle : state.session client = .idle)
      (hlocked : session.locked = false) (hallowance : session.allowance = 0)
      (hmarked : ∀ fragment, session = .remembering fragment -> fragment.isAnchor = true ->
        fragment.anchorQuota = true) :
      Sound (state.put client session) /\
        Moves settings.anchorLimit (account settings state)
          (account settings (state.put client session)) := by
    refine ⟨hsound.put hidle hlocked hmarked, moves_of_held_le rfl rfl (held_put_le ?_)⟩
    rw [hallowance]
    exact Nat.zero_le _
  have hwaive (table : List Row) (hsatisfies : Satisfies state.indexes table) :
      Sound (waive settings state table) /\
        Moves settings.anchorLimit (account settings state)
          (account settings (waive settings state table)) := by
    refine ⟨hsound.commit hsatisfies, Moves.waive (Nat.le_refl _) ?_⟩
    simp only [account, waive]
    omega
  cases label with
  | remember client granted fragment =>
    simp only [step] at hstep
    split at hstep
    · rename_i hidle
      cases hstep
      apply hput client _ hidle rfl rfl
      intro gated hgated hanchor
      cases hgated
      exact hanchor
    · cases hstep
  | batchRemember client granted items results =>
    simp only [step] at hstep
    split at hstep
    · rename_i hidle
      cases hstep
      apply hput client _ hidle rfl rfl
      intro gated hgated
      cases hgated
    · cases hstep
  | amend client granted updates =>
    simp only [step] at hstep
    split at hstep
    · rename_i front existing back hidle hlock
      split at hstep
      · cases hstep
        apply hput client _ hidle rfl rfl
        intro gated hgated
        cases hgated
      · cases hstep
    · cases hstep
  | lockAndCountAnchors client =>
    obtain ⟨hfree, ⟨hfinished | ⟨session, hlocked, hsession, hroom⟩⟩⟩ :=
      lockAndCountAnchors_grants hkeeps hstep
    · subst hfinished
      have hother : state.holder ≠ some client := by simp [hfree]
      refine ⟨hsound.finish trivial hsound.satisfies, moves_of_held_le rfl rfl ?_⟩
      exact Nat.le_of_eq (held_finish_of_other hother)
    · subst hlocked
      refine ⟨hsound.lock hfree hsession, Moves.grant (Nat.le_refl _) ?_ (Nat.le_refl _)⟩
      simp only [account, held_lock]
      exact hroom
  | write client =>
    obtain ⟨session, table, hafter, hended, hadds⟩ :=
      (write_writes hsound hkeeps hstep).outcome
    subst hafter
    refine ⟨hsound.finish hended hadds.satisfies, Moves.spend ?_ (Nat.le_refl _)⟩
    have hcount : countLiveAnchors table (some settings.key) ≤
        countLiveAnchors state.table (some settings.key) + (state.session client).allowance :=
      hadds.count
    rcases Classical.em (state.holder = some client) with hholder | hother
    · have hbefore := held_of_holder hholder
      have hnone : held (state.finish client session table) = 0 := held_finish_of_holder hholder
      simp only [account, hbefore, hnone]
      exact hcount
    · have hsame : held (state.finish client session table) = held state :=
        held_finish_of_other hother
      have hunlocked : (state.session client).allowance = 0 := by
        have hiff := hsound.exclusive client
        cases hsession : state.session client with
        | rememberLocked fragment => exact absurd (hiff.mpr (by rw [hsession]; rfl)) hother
        | batchLocked items results attempts =>
          exact absurd (hiff.mpr (by rw [hsession]; rfl)) hother
        | amendLocked updates => exact absurd (hiff.mpr (by rw [hsession]; rfl)) hother
        | idle => rfl
        | remembering fragment => rfl
        | batching items results attempts => rfl
        | amending updates existing => rfl
      rw [hunlocked] at hcount
      simp only [account, hsame]
      exact Nat.add_le_add_right hcount _
  | rollback client =>
    simp only [step] at hstep
    cases hstep
    refine ⟨hsound.finish trivial hsound.satisfies, moves_of_held_le rfl rfl ?_⟩
    rcases Classical.em (state.holder = some client) with hholder | hother
    · rw [held_finish_of_holder hholder]
      exact Nat.zero_le _
    · exact Nat.le_of_eq (held_finish_of_other hother)
  | promoteAnchors ready =>
    simp only [step] at hstep
    cases hstep
    exact hwaive _ (satisfies_promoteAnchors hsound.satisfies ready)
  | masterAmend updates =>
    simp only [step] at hstep
    cases hstep
    apply hwaive
    have hadds : AddsAnchors (settings.context state.indexes) state.table
        (update sha (settings.context state.indexes) none state.table updates) 1 :=
      update_anchors hsound.satisfies fun _ _ _ _ _ _ => Nat.le_refl _
    exact hadds.satisfies
  | close id time =>
    simp only [step] at hstep
    cases hstep
    refine ⟨hsound.commit (satisfies_closeRow hsound.satisfies id time),
      Moves.spend ?_ (Nat.le_refl _)⟩
    exact Nat.add_le_add_right (countLiveAnchors_closeRow_le id time _) _
  | changeIndexes indexes =>
    simp only [step] at hstep
    split at hstep
    · rename_i hsatisfied
      cases hstep
      exact ⟨hsound.commit (satisfies_of_satisfied hsatisfied),
        moves_of_held_le rfl rfl (Nat.le_refl _)⟩
    · cases hstep

/-- In every run whose steps act on nothing out of date, the live anchors of the key stay
within the limit, or within what there was at first, apart from those promoted or set by
the master. -/
theorem countLiveAnchors_le
    (hreach : ((system settings origin).restrict (KeepsQuota settings)).Reachable state) :
    countLiveAnchors state.table (some settings.key) ≤
      max settings.anchorLimit (countLiveAnchors origin (some settings.key)) + state.waived := by
  have hsound : ∀ state : State Client sha,
      ((system settings origin).restrict (KeepsQuota settings)).Reachable state -> Sound state := by
    intro state hreach
    apply hreach.invariant
    · rintro start ⟨htable, hsatisfies, hholder, hidle, -⟩
      constructor
      · rwa [htable]
      · intro client
        simp [hholder, hidle client, Session.locked]
      · intro client fragment hsession
        rw [hidle client] at hsession
        cases hsession
    · rintro before label after - hbefore ⟨hstep, hkeeps⟩
      exact (step_sound hbefore hkeeps hstep).1
  have hbounded : (account settings state).Bounded settings.anchorLimit
      (countLiveAnchors origin (some settings.key)) := by
    apply bounded_of_reachable ?_ ?_ hreach
    · rintro start ⟨htable, -, hholder, -, -⟩
      simp [account, held, htable, hholder]
    · rintro before label after hbefore ⟨hstep, hkeeps⟩
      exact (step_sound (hsound before hbefore) hkeeps hstep).2
  unfold Account.Bounded at hbounded
  exact Nat.le_trans (Nat.le_add_right _ _) hbounded

end

def sampleSettings : Settings where
  key := "key-a"
  configured := .workspace
  anchorLimit := 1
  enforceAnchors := false

def sampleIndexes : DedupIndexState :=
  ⟨fun
    | .keyScoped => some true
    | .masterScoped => some true
    | .keyLegacy => none
    | .masterLegacy => none⟩

def sampleStart (table : List Row) : State Nat sampleDigest where
  table := table
  indexes := sampleIndexes
  holder := none
  session _ := .idle
  waived := 0

def anchorFragment : Fragment sampleDigest.hashContent :=
  { (sampleItem none).fragment with isAnchor := true }

def rememberRun : List (Label Nat sampleDigest) :=
  [.remember 0 true anchorFragment, .lockAndCountAnchors 0, .write 0]

theorem countLiveAnchors_le_remember :
    ∃ state : State Nat sampleDigest,
      ((system sampleSettings []).restrict (KeepsQuota sampleSettings)).Run
        (sampleStart []) rememberRun state /\
      state.table.map Row.isAnchor = [true] /\
      countLiveAnchors state.table (some "key-a") ≤
        max 1 (countLiveAnchors [] (some "key-a")) + state.waived := by
  have hstart : ((system sampleSettings []).restrict (KeepsQuota sampleSettings)).start
      (sampleStart []) :=
    ⟨rfl, fun _ _ => Pairwise.nil, rfl, fun _ => rfl, rfl⟩
  have hrun : ∃ state : State Nat sampleDigest,
      ((system sampleSettings []).restrict (KeepsQuota sampleSettings)).Run
        (sampleStart []) rememberRun state /\ state.table.map Row.isAnchor = [true] :=
    ⟨_, .cons ⟨rfl, trivial⟩ (.cons ⟨rfl, trivial⟩ (.cons ⟨rfl, trivial⟩ (.nil _))), rfl⟩
  obtain ⟨state, hrun, hanchors⟩ := hrun
  exact ⟨state, hrun, hanchors, countLiveAnchors_le (.run (.ofStart hstart) hrun)⟩

def promotionTable : List Row :=
  [{ sampleRow none with isAnchor := true },
    { sampleRow none with
      id := "frag-used"
      content := "The audit log is kept for a year."
      contentHash := "5c1d0b7e9a3f2846"
      importance := FragmentWriter.maxInitialImportance "preference" }]

/-- The promotion of anchors takes a key past its limit. -/
theorem promoteAnchors_exceeds_limit :
    ∃ state : State Nat sampleDigest,
      (system sampleSettings promotionTable).start (sampleStart promotionTable) /\
      (system sampleSettings promotionTable).Run (sampleStart promotionTable)
        [.promoteAnchors ["frag-used"]] state /\
      countLiveAnchors promotionTable (some "key-a") = 1 /\
      countLiveAnchors state.table (some "key-a") = 2 := by
  refine ⟨_, ⟨rfl, ?_, rfl, fun _ => rfl, rfl⟩, .single rfl, by decide, ?_⟩
  · exact satisfies_of_satisfied (by decide +kernel)
  · decide +kernel

end AnchorMind.Write.AnchorLimit
