import AnchorMind.Kernel.InsertionMap
import AnchorMind.Kernel.Transition

/-!
# The key-state cache

A session's key is looked up again once the cached state has run out.  A process keeps
three maps for this: the cache, the end of the failure window of a key, and the generation
of a key, which every invalidation raises.  Look-ups are in flight while keys are
invalidated, and each query reads the store at a moment of its own.
-/

namespace AnchorMind.Session.KeyStateCache

open Kernel.Transition Kernel.InsertionMap List Function

structure Read (KeyState : Type*) where
  state : KeyState
  tick : Nat
  deriving DecidableEq

abbrev StateRead (KeyState : Type*) := List (Read KeyState)

structure CacheEntry (KeyState : Type*) where
  state : StateRead KeyState
  expiresAt : Nat
  deriving DecidableEq

/-- Where a call has come to.  A waiting call holds the values it took before its look-up. -/
inductive Point (KeyState : Type*) where
  | waiting (now ttl : Nat) (hit : Option (CacheEntry KeyState)) (generation : Nat)
      (reads : StateRead KeyState)
  | returned (answer : Option (StateRead KeyState))
  deriving DecidableEq

structure Call (KeyState : Type*) where
  keyId : String
  startedAt : Nat
  point : Point KeyState
  deriving DecidableEq

structure State (KeyState : Type*) where
  /-- The number of steps taken. -/
  tick : Nat
  /-- What the database holds of a key. -/
  store : String -> KeyState
  cache : Map String (CacheEntry KeyState)
  failureUntil : Map String Nat
  generations : Map String Nat
  /-- The calls that were made, each with what it returned. -/
  calls : List (Call KeyState)
  /-- The ticks at which a key was invalidated. -/
  invalidations : String -> List Nat

variable {KeyState : Type*}

def maxEntries : Nat := 10000

def keyStateFailureWindowMs : Nat := 5000

/-- `cache.delete(cache.keys().next().value)` beyond the limit. -/
def trimmed {Value : Type*} (map : Map String Value) : Map String Value :=
  if maxEntries < map.entries.length then
    match map.entries with
    | [] => map
    | oldest :: _ => map.delete oldest.1
  else map

def State.generation (state : State KeyState) (keyId : String) : Nat :=
  (state.generations.get keyId).getD 0

def State.advance (state : State KeyState) : State KeyState :=
  { state with tick := state.tick + 1 }

def State.moveTo (state : State KeyState) (call : Nat) (made : Call KeyState)
    (point : Point KeyState) : State KeyState :=
  { state with calls := state.calls.set call { made with point := point } }

/-- `hit ? hit.state : null` -/
def hitState (hit : Option (CacheEntry KeyState)) : Option (StateRead KeyState) :=
  hit.map CacheEntry.state

/-- The part of `getCachedKeyState` before its look-up. -/
def begin (state : State KeyState) (keyId : String) (now ttl : Nat) : Point KeyState :=
  if ttl = 0 ∨ keyId = "" then .returned none
  else
    let hit := state.cache.get keyId
    match hit.filter fun entry => now < entry.expiresAt with
    | some entry => .returned (some entry.state)
    | none =>
      if now < (state.failureUntil.get keyId).getD 0 then .returned (hitState hit)
      else .waiting now ttl hit (state.generation keyId) []

/-- The look-up succeeded. -/
def settle (state : State KeyState) (call : Nat) (made : Call KeyState) (now ttl generation : Nat)
    (reads : StateRead KeyState) : State KeyState :=
  let returned := state.moveTo call made (.returned (some reads))
  if state.generation made.keyId ≠ generation then returned
  else
    { returned with
      failureUntil := state.failureUntil.delete made.keyId
      cache := trimmed ((state.cache.delete made.keyId).set made.keyId
        { state := reads, expiresAt := now + ttl }) }

/-- The look-up failed, `elapsed` after its start. -/
def abandon (state : State KeyState) (call : Nat) (made : Call KeyState) (now generation : Nat)
    (hit : Option (CacheEntry KeyState)) (elapsed : Nat) : State KeyState :=
  let returned := state.moveTo call made (.returned (hitState hit))
  if state.generation made.keyId ≠ generation then returned
  else
    { returned with
      failureUntil := trimmed ((state.failureUntil.delete made.keyId).set made.keyId
        (now + elapsed + keyStateFailureWindowMs)) }

def invalidateKeyState (state : State KeyState) (keyId : String) : State KeyState :=
  { state with
    cache := state.cache.delete keyId
    failureUntil := state.failureUntil.delete keyId
    generations := state.generations.set keyId (state.generation keyId + 1)
    invalidations := update state.invalidations keyId
      (state.tick :: state.invalidations keyId) }

/-- A call starts; a query of a look-up reads the store; a look-up ends, well or not; a key
is invalidated; the store changes. -/
inductive Label (KeyState : Type*) where
  | start (keyId : String) (now ttl : Nat)
  | query (call : Nat)
  | succeed (call : Nat)
  | fail (call : Nat) (elapsed : Nat)
  | invalidate (keyId : String)
  | write (keyId : String) (value : KeyState)

def act (state : State KeyState) : Label KeyState -> Option (State KeyState)
  | .start keyId now ttl =>
    some { state with
      calls := state.calls ++
        [{ keyId := keyId, startedAt := state.tick, point := begin state keyId now ttl }] }
  | .query call =>
    match state.calls[call]? with
    | some { keyId, startedAt, point := .waiting now ttl hit generation reads } =>
      some (state.moveTo call ⟨keyId, startedAt, .waiting now ttl hit generation reads⟩
        (.waiting now ttl hit generation
          (reads ++ [{ state := state.store keyId, tick := state.tick }])))
    | _ => none
  | .succeed call =>
    match state.calls[call]? with
    | some { keyId, startedAt, point := .waiting now ttl hit generation reads } =>
      some (settle state call ⟨keyId, startedAt, .waiting now ttl hit generation reads⟩ now ttl
        generation reads)
    | _ => none
  | .fail call elapsed =>
    match state.calls[call]? with
    | some { keyId, startedAt, point := .waiting now ttl hit generation reads } =>
      some (abandon state call ⟨keyId, startedAt, .waiting now ttl hit generation reads⟩ now
        generation hit elapsed)
    | _ => none
  | .invalidate keyId => some (invalidateKeyState state keyId)
  | .write keyId value => some { state with store := update state.store keyId value }

def step (state : State KeyState) (label : Label KeyState) : Option (State KeyState) :=
  (act state label).map State.advance

/-- A process that has just come up. -/
structure Started (state : State KeyState) : Prop where
  cache : state.cache = Map.empty
  failureUntil : state.failureUntil = Map.empty
  generations : state.generations = Map.empty
  calls : state.calls = []
  invalidations : ∀ keyId, state.invalidations keyId = []

def keyStates : System (State KeyState) (Label KeyState) where
  start := Started
  step before label after := step before label = some after

def FreshAt (state : State KeyState) (keyId : String) (tick : Nat) (value : StateRead KeyState) :
    Prop :=
  ∀ moment ∈ state.invalidations keyId, moment < tick ->
    ∀ read ∈ value, moment < read.tick

/-- What holds of where a call has come to.  While its generation is the current one, its
key was not invalidated since it started. -/
def PointFresh (state : State KeyState) (keyId : String) (startedAt : Nat) :
    Point KeyState -> Prop
  | .waiting _ _ hit generation reads =>
    (∀ read ∈ reads, startedAt ≤ read.tick) /\
    (∀ value, hitState hit = some value -> FreshAt state keyId startedAt value) /\
    generation ≤ state.generation keyId /\
    (generation = state.generation keyId ->
      ∀ moment ∈ state.invalidations keyId, moment < startedAt)
  | .returned answer => ∀ value, answer = some value -> FreshAt state keyId startedAt value

def CallFresh (state : State KeyState) (call : Call KeyState) : Prop :=
  call.startedAt < state.tick /\ PointFresh state call.keyId call.startedAt call.point

structure Fresh (state : State KeyState) : Prop where
  past : ∀ keyId moment, moment ∈ state.invalidations keyId -> moment < state.tick
  cached : ∀ keyId entry, state.cache.get keyId = some entry ->
    FreshAt state keyId state.tick entry.state
  calls : ∀ call ∈ state.calls, CallFresh state call

variable {keyId : String}

theorem get_trimmed {Value : Type*} {map : Map String Value} {value : Value}
    (hget : (trimmed map).get keyId = some value) : map.get keyId = some value := by
  unfold trimmed at hget
  split at hget
  · split at hget
    · exact hget
    · rw [Map.get_delete] at hget
      split at hget
      · cases hget
      · exact hget
  · exact hget

variable {after : State KeyState} {before : State KeyState} {call : Call KeyState}

theorem CallFresh.later (hcall : CallFresh before call) (htick : before.tick ≤ after.tick)
    (hgenerations : after.generations = before.generations)
    (hinvalidations : after.invalidations = before.invalidations) : CallFresh after call := by
  obtain ⟨hstarted, hpoint⟩ := hcall
  refine ⟨Nat.lt_of_lt_of_le hstarted htick, ?_⟩
  cases hplace : call.point <;> rw [hplace] at hpoint <;>
    simpa only [PointFresh, FreshAt, State.generation, hgenerations, hinvalidations] using hpoint

theorem Fresh.of_act (hfresh : Fresh before) (htick : after.tick = before.tick)
    (hgenerations : after.generations = before.generations)
    (hinvalidations : after.invalidations = before.invalidations)
    (hcache : ∀ keyId entry, after.cache.get keyId = some entry ->
      before.cache.get keyId = some entry \/
        ∀ moment ∈ before.invalidations keyId, ∀ read ∈ entry.state,
          moment < read.tick)
    (hcalls : ∀ call ∈ after.calls, call ∈ before.calls \/ CallFresh after.advance call) :
    Fresh after.advance where
  past keyId moment hmoment := by
    change moment < after.tick + 1
    rw [htick]
    have hbefore : moment ∈ before.invalidations keyId := by
      rw [← hinvalidations]
      exact hmoment
    exact Nat.lt_succ_of_lt (hfresh.past keyId moment hbefore)
  cached keyId entry hentry moment hmoment _ := by
    have hbefore : moment ∈ before.invalidations keyId := by
      rw [← hinvalidations]
      exact hmoment
    rcases hcache keyId entry hentry with hold | hnew
    · exact hfresh.cached keyId entry hold moment hbefore (hfresh.past keyId moment hbefore)
    · exact hnew moment hbefore
  calls call hcall := by
    rcases hcalls call hcall with hold | hnew
    · exact (hfresh.calls call hold).later (htick ▸ Nat.le_succ _) hgenerations hinvalidations
    · exact hnew

variable {state : State KeyState}

section

variable (hfresh : Fresh state)
include hfresh

theorem callFresh_begin (keyId : String) (now ttl : Nat) :
    CallFresh state.advance
      { keyId := keyId, startedAt := state.tick, point := begin state keyId now ttl } := by
  have hhit : ∀ value, hitState (state.cache.get keyId) = some value ->
      FreshAt state keyId state.tick value := by
    intro value hvalue
    obtain ⟨entry, hentry, rfl⟩ := Option.map_eq_some_iff.mp hvalue
    exact hfresh.cached keyId entry hentry
  refine ⟨Nat.lt_succ_self _, ?_⟩
  simp only [begin]
  split
  · intro value hvalue
    cases hvalue
  · split
    · rename_i entry hentry
      obtain ⟨hget, -⟩ := Option.filter_eq_some_iff.mp hentry
      intro value hvalue
      cases hvalue
      exact hfresh.cached keyId entry hget
    · split
      · exact hhit
      · exact ⟨fun _ hread => absurd hread not_mem_nil, hhit, Nat.le_refl _,
          fun _ => hfresh.past keyId⟩

variable {call : Nat}

theorem Fresh.waiting {startedAt now ttl generation : Nat} {hit : Option (CacheEntry KeyState)}
    {reads : StateRead KeyState}
    (hcall : state.calls[call]? = some ⟨keyId, startedAt, .waiting now ttl hit generation reads⟩) :
    startedAt < state.tick /\
      (∀ read ∈ reads, startedAt ≤ read.tick) /\
      (∀ value, hitState hit = some value -> FreshAt state keyId startedAt value) /\
      generation ≤ state.generation keyId /\
      (generation = state.generation keyId ->
        ∀ moment ∈ state.invalidations keyId, moment < startedAt) :=
  hfresh.calls _ (mem_of_getElem? hcall)

omit hfresh in
theorem mem_moveTo {made moved : Call KeyState} {point : Point KeyState}
    (hmem : moved ∈ (state.moveTo call made point).calls) :
    moved ∈ state.calls \/ moved = { made with point := point } :=
  mem_or_eq_of_mem_set hmem

theorem Fresh.start (keyId : String) (now ttl : Nat)
    (hact : act state (.start keyId now ttl) = some after) : Fresh after.advance := by
  cases hact
  refine hfresh.of_act rfl rfl rfl (fun _ _ hentry => .inl hentry) fun call hcall => ?_
  rcases mem_append.mp hcall with hold | hnew
  · exact .inl hold
  · obtain rfl := mem_singleton.mp hnew
    exact .inr (callFresh_begin hfresh keyId now ttl)

theorem Fresh.query (hact : act state (.query call) = some after) : Fresh after.advance := by
  simp only [act] at hact
  split at hact
  · rename_i keyId startedAt now ttl hit generation reads hcall
    cases hact
    obtain ⟨hstarted, hreads, hhit, hle, hcurrent⟩ := hfresh.waiting hcall
    refine hfresh.of_act rfl rfl rfl (fun _ _ hentry => .inl hentry) fun moved hmoved => ?_
    rcases mem_moveTo hmoved with hold | rfl
    · exact .inl hold
    · refine .inr ⟨Nat.lt_succ_of_lt hstarted, fun read hread => ?_, hhit, hle, hcurrent⟩
      rcases mem_append.mp hread with hearlier | hlast
      · exact hreads read hearlier
      · obtain rfl := mem_singleton.mp hlast
        exact Nat.le_of_lt hstarted
  · cases hact

theorem Fresh.succeed (hact : act state (.succeed call) = some after) : Fresh after.advance := by
  simp only [act] at hact
  split at hact
  · rename_i keyId startedAt now ttl hit generation reads hcall
    cases hact
    obtain ⟨hstarted, hreads, hhit, hle, hcurrent⟩ := hfresh.waiting hcall
    have hreturned : CallFresh state.advance ⟨keyId, startedAt, .returned (some reads)⟩ := by
      refine ⟨Nat.lt_succ_of_lt hstarted, fun value hvalue moment _ hmoment read hread => ?_⟩
      cases hvalue
      exact Nat.lt_of_lt_of_le hmoment (hreads read hread)
    unfold settle
    split
    · refine hfresh.of_act rfl rfl rfl (fun _ _ hentry => .inl hentry) fun moved hmoved => ?_
      rcases mem_moveTo hmoved with hold | rfl
      · exact .inl hold
      · exact .inr hreturned
    · rename_i hsame
      have hgeneration : generation = state.generation keyId := (not_not.mp hsame).symm
      refine hfresh.of_act rfl rfl rfl (fun other entry hentry => ?_) fun moved hmoved => ?_
      · have hget := get_trimmed hentry
        rw [Map.get_set] at hget
        split at hget
        · rename_i hother
          cases hget
          subst hother
          right
          intro moment hmoment read hread
          exact Nat.lt_of_lt_of_le (hcurrent hgeneration moment hmoment) (hreads read hread)
        · rename_i hother
          rw [Map.get_delete, if_neg hother] at hget
          exact .inl hget
      · rcases mem_moveTo hmoved with hold | rfl
        · exact .inl hold
        · exact .inr hreturned
  · cases hact

theorem Fresh.fail {elapsed : Nat} (hact : act state (.fail call elapsed) = some after) :
    Fresh after.advance := by
  simp only [act] at hact
  split at hact
  · rename_i keyId startedAt now ttl hit generation reads hcall
    cases hact
    obtain ⟨hstarted, -, hhit, -, -⟩ := hfresh.waiting hcall
    have hreturned : CallFresh state.advance ⟨keyId, startedAt, .returned (hitState hit)⟩ :=
      ⟨Nat.lt_succ_of_lt hstarted, hhit⟩
    unfold abandon
    split
    · refine hfresh.of_act rfl rfl rfl (fun _ _ hentry => .inl hentry) fun moved hmoved => ?_
      rcases mem_moveTo hmoved with hold | rfl
      · exact .inl hold
      · exact .inr hreturned
    · refine hfresh.of_act rfl rfl rfl (fun _ _ hentry => .inl hentry) fun moved hmoved => ?_
      rcases mem_moveTo hmoved with hold | rfl
      · exact .inl hold
      · exact .inr hreturned
  · cases hact

end

theorem mem_invalidations {other : String} {moment : Nat}
    (hmoment : moment ∈ (invalidateKeyState state keyId).invalidations other) :
    moment ∈ state.invalidations other \/ (other = keyId /\ moment = state.tick) := by
  change moment ∈ update state.invalidations keyId
    (state.tick :: state.invalidations keyId) other at hmoment
  by_cases hother : other = keyId
  · subst hother
    rw [update_self] at hmoment
    rcases mem_cons.mp hmoment with hnow | hold
    · exact .inr ⟨rfl, hnow⟩
    · exact .inl hold
  · rw [update_of_ne hother] at hmoment
    exact .inl hmoment

theorem FreshAt.invalidate {other : String} {tick : Nat} {value : StateRead KeyState}
    (hfresh : FreshAt state other tick value) (htick : tick ≤ state.tick) :
    FreshAt (invalidateKeyState state keyId) other tick value := by
  intro moment hmoment hearly
  rcases mem_invalidations hmoment with hold | ⟨-, rfl⟩
  · exact hfresh moment hold hearly
  · exact absurd hearly (Nat.not_lt.mpr htick)

theorem generation_invalidate (state : State KeyState) (keyId other : String) :
    (invalidateKeyState state keyId).generation other =
      if other = keyId then state.generation keyId + 1 else state.generation other := by
  change ((state.generations.set keyId (state.generation keyId + 1)).get other).getD 0 = _
  rw [Map.get_set]
  split <;> rfl

theorem CallFresh.invalidate (hcall : CallFresh state call) (keyId : String) :
    CallFresh (invalidateKeyState state keyId) call := by
  obtain ⟨name, startedAt, point⟩ := call
  obtain ⟨hstarted, hpoint⟩ := hcall
  refine ⟨hstarted, ?_⟩
  cases point with
  | returned answer =>
    exact fun value hvalue => (hpoint value hvalue).invalidate (Nat.le_of_lt hstarted)
  | waiting now ttl hit generation reads =>
    obtain ⟨hreads, hhit, hle, hcurrent⟩ := hpoint
    refine ⟨hreads, fun value hvalue => (hhit value hvalue).invalidate (Nat.le_of_lt hstarted),
      ?_, ?_⟩
    · rw [generation_invalidate]
      split
      · rename_i hname
        exact Nat.le_succ_of_le (hname ▸ hle)
      · exact hle
    · rw [generation_invalidate]
      intro hsame moment hmoment
      split at hsame
      · rename_i hname
        rw [← hname] at hsame
        dsimp only at hsame hle
        omega
      · rename_i hname
        rcases mem_invalidations hmoment with hold | ⟨hname', -⟩
        · exact hcurrent hsame moment hold
        · exact absurd hname' hname

theorem Fresh.invalidate (hfresh : Fresh state) (keyId : String) :
    Fresh (invalidateKeyState state keyId).advance where
  past other moment hmoment := by
    rcases mem_invalidations hmoment with hold | ⟨-, rfl⟩
    · exact Nat.lt_succ_of_lt (hfresh.past other moment hold)
    · exact Nat.lt_succ_self _
  cached other entry hentry moment hmoment _ := by
    change (state.cache.delete keyId).get other = some entry at hentry
    rw [Map.get_delete] at hentry
    split at hentry
    · cases hentry
    · rename_i hother
      rcases mem_invalidations hmoment with hold | ⟨hname, -⟩
      · exact hfresh.cached other entry hentry moment hold (hfresh.past other moment hold)
      · exact absurd hname hother
  calls call hcall :=
    ((hfresh.calls call hcall).invalidate keyId).later (Nat.le_succ _) rfl rfl

theorem fresh_of_reachable (hreach : keyStates.Reachable state) : Fresh state := by
  have hstart : ∀ origin : State KeyState, keyStates.start origin -> Fresh origin := by
    intro origin horigin
    refine ⟨fun keyId moment hmoment => ?_, fun keyId entry hentry => ?_, fun call hcall => ?_⟩
    · rw [horigin.invalidations] at hmoment
      cases hmoment
    · rw [horigin.cache] at hentry
      cases hentry
    · rw [horigin.calls] at hcall
      cases hcall
  have hkeep : ∀ (before : State KeyState) label after, keyStates.Reachable before ->
      Fresh before -> keyStates.step before label after -> Fresh after := by
    intro before label after _ hfresh hstep
    obtain ⟨middle, hact, rfl⟩ := Option.map_eq_some_iff.mp hstep
    cases label with
    | start keyId now ttl => exact hfresh.start keyId now ttl hact
    | query call => exact hfresh.query hact
    | succeed call => exact hfresh.succeed hact
    | fail call elapsed => exact hfresh.fail hact
    | invalidate keyId =>
      cases hact
      exact hfresh.invalidate keyId
    | write keyId value =>
      cases hact
      exact hfresh.of_act rfl rfl rfl (fun _ _ hentry => .inl hentry) fun _ hcall => .inl hcall
  exact hreach.invariant hstart hkeep

/-- A call that starts after an invalidation of its key never returns what was read from the
store before that invalidation. -/
theorem no_state_before_invalidation {state : State KeyState} (hreach : keyStates.Reachable state)
    {call : Call KeyState} (hcall : call ∈ state.calls) {value : StateRead KeyState}
    (hreturned : call.point = .returned (some value)) {moment : Nat}
    (hinvalidated : moment ∈ state.invalidations call.keyId) (hafter : moment < call.startedAt)
    {read : Read KeyState} (hread : read ∈ value) : moment < read.tick := by
  obtain ⟨-, hpoint⟩ := (fresh_of_reachable hreach).calls call hcall
  rw [hreturned] at hpoint
  exact hpoint value rfl moment hinvalidated hafter read hread

def freshProcess : State Nat where
  tick := 0
  store := fun _ => 1
  cache := Map.empty
  failureUntil := Map.empty
  generations := Map.empty
  calls := []
  invalidations := fun _ => []

/-- A look-up has read the old state when the key changes and is invalidated; it ends after
that, and a second call is made. -/
def overtakenLookup : List (Label Nat) :=
  [ .start "key" 0 30000, .query 0, .write "key" 2, .invalidate "key", .succeed 0,
    .start "key" 10 30000, .query 1, .succeed 1 ]

theorem overtaken_lookup_is_not_cached : ∃ state, keyStates.Reachable state /\
    ⟨"key", 5, .returned (some [{ state := 2, tick := 6 }])⟩ ∈ state.calls /\
    (3 ∈ state.invalidations "key") /\ 3 < 6 := by
  have hrun : (System.follow step freshProcess overtakenLookup).map
      (fun state => (state.calls, state.invalidations "key")) =
        some ([⟨"key", 0, .returned (some [{ state := 1, tick := 1 }])⟩,
          ⟨"key", 5, .returned (some [{ state := 2, tick := 6 }])⟩], [3]) := by decide +kernel
  obtain ⟨state, hfollow, hdata⟩ := Option.map_eq_some_iff.mp hrun
  obtain ⟨hcalls, hinvalidations⟩ := Prod.mk.inj hdata
  have hreach : keyStates.Reachable state :=
    ⟨freshProcess, overtakenLookup, ⟨rfl, rfl, rfl, rfl, fun _ => rfl⟩,
      .of_follow (fun _ _ _ hstep => hstep) hfollow⟩
  have hmoment : 3 ∈ state.invalidations "key" := by
    rw [hinvalidations]
    exact mem_cons_self
  have hcall : ⟨"key", 5, .returned (some [{ state := 2, tick := 6 }])⟩ ∈ state.calls := by
    rw [hcalls]
    exact mem_cons_of_mem _ mem_cons_self
  exact ⟨state, hreach, hcall, hmoment,
    no_state_before_invalidation hreach hcall rfl hmoment (by decide) mem_cons_self⟩

theorem length_delete_le {Value : Type*} (map : Map String Value) (key : String) :
    (map.delete key).entries.length ≤ map.entries.length :=
  length_filter_le _ _

theorem length_trimmed_set {Value : Type*} {map : Map String Value} (value : Value)
    (hmap : map.entries.length ≤ maxEntries) :
    (trimmed ((map.delete keyId).set keyId value)).entries.length ≤ maxEntries := by
  have hdelete := length_delete_le map keyId
  have hset := Map.countP_entries_set (fun _ => true) (map.delete keyId) keyId value
  simp only [countP_true] at hset
  generalize (map.delete keyId).set keyId value = written at hset ⊢
  obtain ⟨_ | ⟨oldest, rest⟩, hkeys⟩ := written
  · exact Nat.zero_le _
  · simp only [length_cons] at hset
    unfold trimmed
    split
    · have hlimit : rest.length ≤ maxEntries := by omega
      simpa [Map.delete] using Nat.le_trans (length_filter_le _ rest) hlimit
    · omega

def Bounded (state : State KeyState) : Prop :=
  state.cache.entries.length ≤ maxEntries /\ state.failureUntil.entries.length ≤ maxEntries

end AnchorMind.Session.KeyStateCache
