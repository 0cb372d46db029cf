import AnchorMind.Accounting.AtomicWrites

/-!
# Fragment limits under atomic writes

Whoever writes for a key holds the row of the key and the rows of all its groups with a
limit, so what it counted there can only have fallen since.  What the tightest quota
leaves fits below every one of these limits, whichever of them was the tightest.
-/

namespace AnchorMind.Accounting.FragmentLimits

open Kernel.Locks Kernel.Reservation Write.Fragments Write.DedupScope List
  Write.BatchInsert Write.BatchAnswers Write.BatchDedup Write.FragmentWriter Write.WriteGrowth
  Write.FragmentUpdate
open Accounting.QuotaQueries Accounting.AtomicWrites

variable {sha : Sha256} {Client : Type} [DecidableEq Client] {settings : Settings}
variable {state after : State Client sha} {client : Client}

def covers : Resource -> String -> Prop
  | .key wanted, key => wanted = key
  | .group group, key => key ∈ group.members

def counts : Resource -> Row -> Bool
  | .key key, row => decide (row.keyId = some key) && row.validTo.isNone
  | .group group, row => inGroup group row && row.validTo.isNone

variable {context : WriteContext} {table news : List Row} {resource : Resource} {key : String}

theorem liveCount_eq (table : List Row) (resource : Resource) :
    liveCount table resource = table.countP (counts resource) := by
  cases resource <;> rfl

theorem selects_counts (context : WriteContext) (resource : Resource) (news : List Row) :
    context.upsert.Selects (counts resource) news := by
  intro new _ old hmerged
  have hsame : counts resource (mergeRow old new) = counts resource old := by cases resource <;> rfl
  exact .inl (hsame.symm.trans hmerged)

theorem covers_of_counts {row : Row} (hkey : row.keyId = some key)
    (hcounts : counts resource row = true) : covers resource key := by
  cases resource with
  | key wanted =>
    simp only [counts, hkey, Bool.and_eq_true, decide_eq_true_iff, Option.some.injEq] at hcounts
    exact hcounts.1.symm
  | group group =>
    simp only [counts, inGroup, hkey, Bool.and_eq_true, decide_eq_true_iff] at hcounts
    exact hcounts.1

theorem countP_counts_le (hnews : ∀ row ∈ news, row.keyId = some key) :
    (covers resource key -> news.countP (counts resource) ≤ news.length) /\
      (Not (covers resource key) -> news.countP (counts resource) = 0) := by
  constructor
  · intro _
    exact countP_le_length
  · intro hnot
    rw [countP_eq_zero]
    intro row hrow hcounts
    exact hnot (covers_of_counts (hnews row hrow) hcounts)

theorem locked_of_covers {limits : Limits} {limit : Nat}
    (hlimit : limitOf limits resource = some limit) (hcovers : covers resource key) :
    resource = .key key \/ ∃ group ∈ limits.limitedGroups key,
      resource = .group group := by
  cases resource with
  | key wanted =>
    left
    rw [show wanted = key from hcovers]
  | group group =>
    right
    simp only [limitOf, Option.ite_none_right_eq_some] at hlimit
    have hmember : key ∈ group.members := hcovers
    refine ⟨group, mem_filter.mpr ⟨hlimit.1, ?_⟩, rfl⟩
    simp [hlimit.2, hmember]

def holds (limits : Limits) : Session sha -> Resource -> Prop
  | .keyLocked key _, resource => resource = .key key
  | .groupLocking key _ _ locked _, resource =>
    resource = .key key \/ ∃ group ∈ locked, resource = .group group
  | .groupCounting key _ _ _ _, resource => resource = .key key \/
      ∃ group ∈ limits.limitedGroups key, resource = .group group
  | .writing key _, resource => resource = .key key \/
      ∃ group ∈ limits.limitedGroups key, resource = .group group
  | _, _ => False

def Counted (limits : Limits) (table : List Row) : Session sha -> Prop
  | .groupLocking key _ current locked waiting =>
    locked ++ waiting = limits.limitedGroups key /\
      (limits.keyLimit key ≠ none -> countLiveFragments table key ≤ current)
  | .groupCounting key _ current usages waiting =>
    usages.map Usage.group ++ waiting = limits.limitedGroups key /\
      (limits.keyLimit key ≠ none -> countLiveFragments table key ≤ current) /\
      ∀ usage ∈ usages, countGroupLiveFragments table usage.group ≤ usage.current
  | _ => True

structure Sound (limits : Limits) (state : State Client sha) : Prop where
  satisfies : Satisfies state.indexes state.table
  faithful : Faithful state.locks fun client => holds limits (state.session client)
  counted : ∀ client, Counted limits state.table (state.session client)

def Outside : Session sha -> Prop
  | .idle => True
  | .pending _ _ => True
  | _ => False

section

variable {limits : Limits} {session : Session sha} {table : List Row} {resource : Resource}

theorem Outside.not_holds (houtside : Outside session) : Not (holds limits session resource) := by
  cases session <;> first | exact houtside.elim | exact fun hholds => hholds

theorem Outside.counted (houtside : Outside session) : Counted limits table session := by
  cases session <;> trivial

omit [DecidableEq Client] in
/-- What was counted stays an upper bound while nothing is added to the rows held. -/
theorem counted_mono (hcounted : Counted limits state.table session)
    (hfalls : ∀ resource, holds limits session resource ->
      liveCount table resource ≤ liveCount state.table resource) :
    Counted limits table session := by
  cases session with
  | groupLocking key job current locked waiting =>
    obtain ⟨hgroups, hkey⟩ := hcounted
    refine ⟨hgroups, fun hlimited => ?_⟩
    exact Nat.le_trans (hfalls (.key key) (.inl rfl)) (hkey hlimited)
  | groupCounting key job current usages waiting =>
    obtain ⟨hgroups, hkey, husages⟩ := hcounted
    refine ⟨hgroups, fun hlimited => ?_, fun usage husage => ?_⟩
    · exact Nat.le_trans (hfalls (.key key) (.inl rfl)) (hkey hlimited)
    · have hmem : usage.group ∈ limits.limitedGroups key := by
        rw [<- hgroups]
        exact mem_append_left _ (mem_map.mpr ⟨usage, husage, rfl⟩)
      exact Nat.le_trans (hfalls (.group usage.group) (Or.inr ⟨_, hmem, rfl⟩))
        (husages usage husage)
  | idle => trivial
  | pending key job => trivial
  | keyLocked key job => trivial
  | writing key job => trivial

theorem session_put_self : (state.put client session).session client = session := by
  simp [State.put]

theorem session_put_other {other : Client} (hne : other ≠ client) :
    (state.put client session).session other = state.session other := by
  simp [State.put, Function.update_of_ne hne]

theorem Sound.put (hsound : Sound limits state)
    (hholds : ∀ resource, holds limits session resource <->
      holds limits (state.session client) resource)
    (hcounted : Counted limits state.table session) : Sound limits (state.put client session) := by
  constructor
  · exact hsound.satisfies
  · apply hsound.faithful.congr
    intro other resource
    rcases Classical.em (other = client) with rfl | hne
    · rw [session_put_self, hholds]
    · rw [session_put_other hne]
  · intro other
    rcases Classical.em (other = client) with rfl | hne
    · rw [session_put_self]
      exact hcounted
    · rw [session_put_other hne]
      exact hsound.counted other

theorem Sound.lock (hsound : Sound limits state)
    (hholds : ∀ wanted, holds limits session wanted <->
      wanted = resource \/ holds limits (state.session client) wanted)
    (hcounted : Counted limits state.table session)
    (hstep : state.lock client resource session = some after) : Sound limits after := by
  unfold State.lock at hstep
  split at hstep
  · rename_i hfree
    cases hstep
    constructor
    · exact hsound.satisfies
    · apply hsound.faithful.acquire hfree
      · intro wanted
        change holds limits ((state.put client session).session client) wanted <-> _
        rw [session_put_self, hholds]
      · intro other hne
        change holds limits ((state.put client session).session other) = _
        rw [session_put_other hne]
    · intro other
      change Counted limits state.table ((state.put client session).session other)
      rcases Classical.em (other = client) with rfl | hne
      · rw [session_put_self]
        exact hcounted
      · rw [session_put_other hne]
        exact hsound.counted other
  · cases hstep

/-- A transaction that ends, with a table to which nothing was added that another session
counted. -/
theorem Sound.finish (hsound : Sound limits state) (houtside : Outside session)
    (hsatisfies : Satisfies state.indexes table)
    (hfalls : ∀ other, other ≠ client -> ∀ resource,
      holds limits (state.session other) resource ->
        liveCount table resource ≤ liveCount state.table resource) :
    Sound limits (state.finish client session table) := by
  constructor
  · exact hsatisfies
  · apply hsound.faithful.release
    · intro resource
      change Not (holds limits ((state.put client session).session client) resource)
      rw [session_put_self]
      exact houtside.not_holds
    · intro other hne
      change holds limits ((state.put client session).session other) = _
      rw [session_put_other hne]
  · intro other
    change Counted limits table ((state.put client session).session other)
    rcases Classical.em (other = client) with rfl | hne
    · rw [session_put_self]
      exact houtside.counted
    · rw [session_put_other hne]
      exact counted_mono (hsound.counted other) (hfalls other hne)

end

section

variable {key : String} {job : Job sha} {table : List Row}

theorem kept_length_le (context : WriteContext) (table : List Row)
    (items : List (Item sha.hashContent)) (results : Results) :
    (applyAnchorQuotaToBatch context table items results).kept.length ≤ items.length := by
  have hle := (acceptedItems_indexes context table items results).length_le
  simpa [acceptedItems] using hle

structure Gains (settings : Settings) (state : State Client sha) (key : String) (size : Nat)
    (table : List Row) : Prop where
  satisfies : Satisfies state.indexes table
  covered : ∀ resource, covers resource key ->
    liveCount table resource ≤ liveCount state.table resource + size
  other : ∀ resource, Not (covers resource key) ->
    liveCount table resource ≤ liveCount state.table resource

omit [DecidableEq Client] in
theorem gains_self (hsatisfies : Satisfies state.indexes state.table) (size : Nat) :
    Gains settings state key size state.table :=
  ⟨hsatisfies, fun _ _ => Nat.le_add_right _ _, fun _ _ => Nat.le_refl _⟩

omit [DecidableEq Client] in
theorem gains_of_grows {news : List Row} {size : Nat}
    (hgrows : ∀ resource, (settings.context state.indexes key).upsert.Grows (counts resource)
      state.table news table) (hnews : ∀ row ∈ news, row.keyId = some key)
    (hsize : news.length ≤ size) : Gains settings state key size table := by
  constructor
  · exact consistent_iff.mp (hgrows (.key key)).consistent
  · intro resource hcovers
    have hcount := (hgrows resource).count
    have hadded := (countP_counts_le hnews).1 hcovers
    rw [liveCount_eq, liveCount_eq]
    omega
  · intro resource hnot
    have hcount := (hgrows resource).count
    have hadded := (countP_counts_le hnews).2 hnot
    rw [liveCount_eq, liveCount_eq]
    omega

theorem writeJob_gains (hsatisfies : Satisfies state.indexes state.table)
    (hstep : writeJob settings state client key job = some after) :
    ∃ session table, after = state.finish client session table /\ Outside session /\
      Gains settings state key job.size table := by
  have hself (size : Nat) : Gains settings state key size state.table :=
    gains_self hsatisfies size
  cases job with
  | remember fragment =>
    simp only [writeJob] at hstep
    split at hstep
    · rename_i written hwrite
      cases hstep
      refine ⟨.idle, written.table, rfl, trivial, ?_⟩
      unfold insertDetailed at hwrite
      split at hwrite
      · cases hwrite
      · rename_i allowed hallowed
        split at hwrite
        · cases hwrite
        · rename_i result hrun
          cases hwrite
          have hgrows (resource : Resource) :=
            runInsert_grows hsatisfies (selects_counts _ resource _) hrun
          rcases Classical.em (written.table = state.table) with hsame | hchanged
          · rw [hsame]
            exact hself 1
          · apply gains_of_grows (fun resource => (hgrows resource).resolve_left hchanged)
            · intro row hrow
              rw [mem_singleton.mp hrow]
              rfl
            · exact Nat.le_refl 1
    · cases hstep
      exact ⟨.idle, state.table, rfl, trivial, hself 1⟩
  | phaseB items results attempts =>
    simp only [writeJob] at hstep
    split at hstep
    · rename_i outcome hwrite
      cases hstep
      refine ⟨.idle, outcome.table, rfl, trivial, ?_⟩
      have hgrows (resource : Resource) :=
        insertAccepted_grows hsatisfies (selects_counts _ resource _) hwrite
      apply gains_of_grows hgrows
      · intro row hrow
        obtain ⟨first, -, rfl⟩ := mem_sentRows.mp hrow
        rfl
      · exact Nat.le_trans sentRows_length_le (kept_length_le _ _ _ _)
    · cases hstep
      refine ⟨_, state.table, rfl, ?_, hself _⟩
      split <;> trivial
  | check => cases hstep
  | phaseA items results => cases hstep

end

section

variable {session : Session sha} {table : List Row} {resource : Resource}

def allowance : Session sha -> Nat
  | .writing _ job => job.size
  | _ => 0

/-- What the holder of a row may still add. -/
def held (state : State Client sha) (resource : Resource) : Nat :=
  match state.locks resource with
  | none => 0
  | some client => allowance (state.session client)

def account (resource : Resource) (state : State Client sha) : Account where
  count := liveCount state.table resource
  held := held state resource
  waived := 0

omit [DecidableEq Client] in
theorem held_of_holder (hholder : state.locks resource = some client) :
    held state resource = allowance (state.session client) := by
  simp only [held, hholder]

theorem held_put_of_other (hother : state.locks resource ≠ some client) :
    held (state.put client session) resource = held state resource := by
  unfold held
  change (match state.locks resource with
    | none => 0
    | some client' => allowance ((state.put client session).session client')) = _
  cases hholder : state.locks resource with
  | none => rfl
  | some other =>
    have hne : other ≠ client := fun hsame => hother (hsame ▸ hholder)
    simp only [session_put_other hne]

theorem held_put_le (hsession : allowance session = 0) :
    held (state.put client session) resource ≤ held state resource := by
  rcases Classical.em (state.locks resource = some client) with hholder | hother
  · have hself : held (state.put client session) resource =
        allowance ((state.put client session).session client) := held_of_holder hholder
    rw [hself, session_put_self, hsession]
    exact Nat.zero_le _
  · exact Nat.le_of_eq (held_put_of_other hother)

theorem held_lock_le {wanted : Resource} (hsession : allowance session = 0)
    (hstep : state.lock client wanted session = some after) :
    held after resource ≤ held state resource := by
  unfold State.lock at hstep
  split at hstep
  · cases hstep
    rcases Classical.em (resource = wanted) with rfl | hne
    · simp [held, acquire, session_put_self, hsession]
    · have hlocks : acquire state.locks client wanted resource = state.locks resource :=
        Function.update_of_ne hne _ _
      have hput : held (state.put client session) resource ≤ held state resource :=
        held_put_le hsession
      unfold held at hput ⊢
      dsimp only at hput ⊢
      rw [hlocks]
      exact hput
  · cases hstep

theorem held_finish_of_holder (hholder : state.locks resource = some client) :
    held (state.finish client session table) resource = 0 := by
  simp [held, State.finish, State.put, release, hholder]

theorem held_finish_of_other (hother : state.locks resource ≠ some client) :
    held (state.finish client session table) resource = held state resource := by
  have hput : held (state.put client session) resource = held state resource :=
    held_put_of_other hother
  unfold held at hput ⊢
  change (match release state.locks client resource with
    | none => 0
    | some other => allowance ((state.put client session).session other)) = _
  rw [release_of_other hother]
  exact hput

theorem held_finish_le :
    held (state.finish client session table) resource ≤ held state resource := by
  rcases Classical.em (state.locks resource = some client) with hholder | hother
  · rw [held_finish_of_holder hholder]
    exact Nat.zero_le _
  · exact Nat.le_of_eq (held_finish_of_other hother)

end

section

variable {limits : Limits} {session : Session sha} {table : List Row} {resource : Resource}
variable {key : String} {job : Job sha} {current : Nat} {usages : List Usage} {quota : Quota}

structure Keeps (limits : Limits) (before after : State Client sha) : Prop where
  sound : Sound limits after
  moves : ∀ resource limit, limitOf limits resource = some limit ->
    Moves limit (account resource before) (account resource after)

section

variable (hsound : Sound limits state)
include hsound

theorem keeps_put (hallowance : allowance session = 0)
    (hholds : ∀ resource, holds limits session resource <->
      holds limits (state.session client) resource)
    (hcounted : Counted limits state.table session) :
    Keeps limits state (state.put client session) := by
  constructor
  · exact hsound.put hholds hcounted
  · intro resource limit _
    exact .spend (Nat.add_le_add_left (held_put_le hallowance) _) (Nat.le_refl _)

theorem keeps_lock (hallowance : allowance session = 0)
    (hholds : ∀ wanted, holds limits session wanted <->
      wanted = resource \/ holds limits (state.session client) wanted)
    (hcounted : Counted limits state.table session)
    (hstep : state.lock client resource session = some after) : Keeps limits state after := by
  constructor
  · exact hsound.lock hholds hcounted hstep
  · intro wanted limit _
    have hheld : held after wanted ≤ held state wanted := held_lock_le hallowance hstep
    have htable : after.table = state.table := by
      unfold State.lock at hstep
      split at hstep
      · cases hstep
        rfl
      · cases hstep
    refine .spend ?_ (Nat.le_refl _)
    change liveCount after.table wanted + held after wanted ≤ _
    rw [htable]
    exact Nat.add_le_add_left hheld _

theorem keeps_finish (houtside : Outside session) :
    Keeps limits state (state.finish client session state.table) := by
  constructor
  · exact hsound.finish houtside hsound.satisfies fun _ _ _ _ => Nat.le_refl _
  · intro resource limit _
    exact .spend (Nat.add_le_add_left held_finish_le _) (Nat.le_refl _)

omit hsound in
omit [DecidableEq Client] in
theorem room_of_quota {limit : Nat}
    (hcounted : Counted limits table (.groupCounting key job current usages []))
    (hquota : tightestQuota (limits.keyLimit key) current usages = some quota)
    (hlimit : limitOf limits resource = some limit)
    (hholds : resource = .key key \/ ∃ group ∈ limits.limitedGroups key, resource = .group group) :
    quota.remaining = 0 \/ liveCount table resource + quota.remaining ≤ limit := by
  obtain ⟨hgroups, hkey, husages⟩ := hcounted
  obtain ⟨hkeyRoom, hgroupRoom⟩ := tightestQuota_le hquota
  rcases hholds with rfl | ⟨group, hgroup, rfl⟩
  · have hcurrent := hkey (by rw [show limits.keyLimit key = some limit from hlimit]; simp)
    have hroom := hkeyRoom limit hlimit
    change _ \/ countLiveFragments table key + quota.remaining ≤ limit
    omega
  · rw [append_nil] at hgroups
    rw [<- hgroups] at hgroup
    obtain ⟨usage, husage, rfl⟩ := mem_map.mp hgroup
    simp only [limitOf, Option.ite_none_right_eq_some] at hlimit
    have hcurrent := husages usage husage
    have hroom := hgroupRoom usage limit husage hlimit.2
    change _ \/ countGroupLiveFragments table usage.group + quota.remaining ≤ limit
    omega

omit hsound in
omit [DecidableEq Client] in
theorem unlimited_of_no_quota
    (hcounted : Counted limits table (.groupCounting key job current usages []))
    (hnone : tightestQuota (limits.keyLimit key) current usages = none)
    (hholds : resource = .key key \/ ∃ group ∈ limits.limitedGroups key, resource = .group group) :
    limitOf limits resource = none := by
  obtain ⟨hgroups, -, -⟩ := hcounted
  obtain ⟨hkey, husages⟩ := tightestQuota_eq_none hnone
  rcases hholds with rfl | ⟨group, hgroup, rfl⟩
  · exact hkey
  · rw [append_nil] at hgroups
    rw [<- hgroups] at hgroup
    obtain ⟨usage, husage, rfl⟩ := mem_map.mp hgroup
    simp only [limitOf, husages usage husage, ite_self]

theorem keeps_grant (hsession : state.session client = .groupCounting key job current usages [])
    {granted : Job sha}
    (hroom : ∀ resource limit, limitOf limits resource = some limit ->
      (resource = .key key \/ ∃ group ∈ limits.limitedGroups key,
        resource = .group group) ->
      granted.size = 0 \/ liveCount state.table resource + granted.size ≤ limit) :
    Keeps limits state (state.put client (.writing key granted)) := by
  have hsame (resource : Resource) : holds limits (.writing key granted : Session sha) resource <->
      holds limits (state.session client) resource := by
    rw [hsession]
    rfl
  constructor
  · exact hsound.put hsame trivial
  · intro resource limit hlimit
    rcases Classical.em (state.locks resource = some client) with hholder | hother
    · have hholds : holds limits (.writing key granted : Session sha) resource :=
        (hsame resource).mpr ((hsound.faithful resource client).mp hholder)
      have hheld : held (state.put client (.writing key granted)) resource = granted.size := by
        have hself : held (state.put client (.writing key granted)) resource =
            allowance ((state.put client (.writing key granted)).session client) :=
          held_of_holder hholder
        rwa [session_put_self] at hself
      refine .grant (Nat.le_refl _) ?_ (Nat.le_refl _)
      change held (state.put client (.writing key granted)) resource = 0 \/
        liveCount state.table resource + held (state.put client (.writing key granted)) resource ≤
          limit
      rw [hheld]
      exact hroom resource limit hlimit hholds
    · refine .spend (Nat.le_of_eq ?_) (Nat.le_refl _)
      change _ + held (state.put client (.writing key granted)) resource = _
      rw [held_put_of_other hother]
      rfl

omit hsound in
theorem take_length_room {count limit : Nat} {items : List (Item sha.hashContent)}
    (hroom : quota.remaining = 0 \/ count + quota.remaining ≤ limit) :
    (items.take quota.remaining).length = 0 \/
      count + (items.take quota.remaining).length ≤ limit := by
  have hle : (items.take quota.remaining).length ≤ quota.remaining := length_take_le _ _
  omega

theorem judge_keeps (hsession : state.session client = .groupCounting key job current usages []) :
    Keeps limits state
      (judge state client key job (tightestQuota (limits.keyLimit key) current usages)) := by
  have hcounted := hsound.counted client
  rw [hsession] at hcounted
  cases hquota : tightestQuota (limits.keyLimit key) current usages with
  | none =>
    have hgrant (granted : Job sha) : Keeps limits state (state.put client (.writing key granted))
      := by
      apply keeps_grant hsound hsession
      intro resource limit hlimit hholds
      rw [unlimited_of_no_quota hcounted hquota hholds] at hlimit
      cases hlimit
    cases job with
    | remember fragment => exact hgrant _
    | check => exact keeps_finish hsound trivial
    | phaseA items results => exact keeps_finish hsound trivial
    | phaseB items results attempts => exact hgrant _
  | some quota =>
    have hroom (resource : Resource) (limit : Nat) (hlimit : limitOf limits resource = some limit)
        (hholds : resource = .key key \/ ∃ group ∈ limits.limitedGroups key,
          resource = .group group) :=
      room_of_quota hcounted hquota hlimit hholds
    cases job with
    | remember fragment =>
      simp only [judge]
      split
      · exact keeps_finish hsound trivial
      · rename_i hsome
        apply keeps_grant hsound hsession
        intro resource limit hlimit hholds
        have hleft := hroom resource limit hlimit hholds
        right
        change liveCount state.table resource + 1 ≤ limit
        omega
    | check => exact keeps_finish hsound trivial
    | phaseA items results =>
      simp only [judge]
      split <;> exact keeps_finish hsound trivial
    | phaseB items results attempts =>
      simp only [judge]
      split
      · exact keeps_finish hsound trivial
      · apply keeps_grant hsound hsession
        intro resource limit hlimit hholds
        exact take_length_room (hroom resource limit hlimit hholds)

end

omit [DecidableEq Client] in
theorem limited_of_holds {group : Group} (hcounted : Counted limits table session)
    (hholds : holds limits session (.group group)) :
    group ∈ limits.groups /\ group.limit.isSome := by
  have hlocked : ∃ key, group ∈ limits.limitedGroups key := by
    cases session with
    | idle => exact hholds.elim
    | pending key job => exact hholds.elim
    | keyLocked key job => cases hholds
    | groupLocking key job current locked waiting =>
      obtain ⟨hgroups, -⟩ := hcounted
      rcases hholds with hkey | ⟨other, hother, hsame⟩
      · cases hkey
      · cases hsame
        refine ⟨key, ?_⟩
        rw [<- hgroups]
        exact mem_append_left _ hother
    | groupCounting key job current usages waiting =>
      rcases hholds with hkey | ⟨other, hother, hsame⟩
      · cases hkey
      · cases hsame
        exact ⟨key, hother⟩
    | writing key job =>
      rcases hholds with hkey | ⟨other, hother, hsame⟩
      · cases hkey
      · cases hsame
        exact ⟨key, hother⟩
  obtain ⟨key, hgroup⟩ := hlocked
  obtain ⟨hmem, hboth⟩ := mem_filter.mp hgroup
  simp only [Bool.and_eq_true] at hboth
  exact ⟨hmem, hboth.1⟩

omit [DecidableEq Client] in
theorem locked_of_holds (hcounted : Counted limits table session)
    (hholds : holds limits session resource) (hcovers : covers resource key) :
    resource = .key key \/ ∃ group ∈ limits.limitedGroups key,
      resource = .group group := by
  cases resource with
  | key wanted =>
    left
    rw [show wanted = key from hcovers]
  | group group =>
    obtain ⟨hmem, hlimited⟩ := limited_of_holds hcounted hholds
    obtain ⟨limit, hlimit⟩ := Option.isSome_iff_exists.mp hlimited
    have hlimitOf : limitOf limits (.group group) = some limit := by
      rw [limitOf, if_pos hmem, hlimit]
    exact locked_of_covers hlimitOf hcovers

section

variable (hsound : Sound settings.limits state)
include hsound

theorem writeJob_keeps (hsession : state.session client = .writing key job)
    (hstep : writeJob settings state client key job = some after) :
    Keeps settings.limits state after := by
  obtain ⟨session, table, rfl, houtside, hgains⟩ := writeJob_gains hsound.satisfies hstep
  have hholds (resource : Resource) : holds settings.limits (state.session client) resource <->
      resource = .key key \/ ∃ group ∈ settings.limits.limitedGroups key,
        resource = .group group := by
    rw [hsession]
    rfl
  constructor
  · apply hsound.finish houtside hgains.satisfies
    intro other hne resource hother
    apply hgains.other
    intro hcovers
    have hself := (hholds resource).mpr (locked_of_holds (hsound.counted other) hother hcovers)
    exact hne (hsound.faithful.unique hother hself)
  · intro resource limit hlimit
    rcases Classical.em (covers resource key) with hcovers | hnot
    · have hholder : state.locks resource = some client :=
        (hsound.faithful resource client).mpr
          ((hholds resource).mpr (locked_of_covers hlimit hcovers))
      have hbefore := held_of_holder hholder
      rw [hsession] at hbefore
      have hadded := hgains.covered resource hcovers
      refine .spend ?_ (Nat.le_refl _)
      change liveCount table resource + held (state.finish client session table) resource ≤
        liveCount state.table resource + held state resource
      rw [held_finish_of_holder hholder, hbefore]
      exact hadded
    · refine .spend ?_ (Nat.le_refl _)
      exact Nat.add_le_add (hgains.other resource hnot) held_finish_le

omit hsound in
theorem accept_keeps (hsound : Sound limits state)
    (hstep : state.accept client key job = some after) : Keeps limits state after := by
  unfold State.accept at hstep
  split at hstep
  · rename_i hsession
    cases hstep
    apply keeps_put hsound rfl
    · intro resource
      rw [hsession]
      rfl
    · trivial
  · cases hstep

theorem lockKey_keeps (hstep : step settings state (.lockKey client) = some after) :
    Keeps settings.limits state after := by
  simp only [step] at hstep
  split at hstep
  · rename_i key job hsession
    apply keeps_lock hsound rfl _ _ hstep
    · intro wanted
      rw [hsession]
      simp [holds]
    · trivial
  · cases hstep

theorem countKey_keeps (hstep : step settings state (.countKey client) = some after) :
    Keeps settings.limits state after := by
  simp only [step] at hstep
  split at hstep
  · rename_i key job hsession
    cases hstep
    apply keeps_put hsound rfl
    · intro resource
      rw [hsession]
      simp [holds]
    · refine ⟨nil_append _, fun hlimited => ?_⟩
      split
      · rename_i hnone
        exact absurd hnone hlimited
      · exact Nat.le_refl _
  · cases hstep

theorem lockGroup_keeps (hstep : step settings state (.lockGroup client) = some after) :
    Keeps settings.limits state after := by
  simp only [step] at hstep
  split at hstep
  · rename_i key job current locked group waiting hsession
    have hcounted := hsound.counted client
    rw [hsession] at hcounted
    obtain ⟨hgroups, hkey⟩ := hcounted
    apply keeps_lock hsound rfl _ _ hstep
    · intro wanted
      rw [hsession]
      simp only [holds, mem_append, mem_singleton]
      constructor
      · rintro (hsame | ⟨other, hother | rfl, hsame⟩)
        · exact .inr (.inl hsame)
        · exact .inr (Or.inr ⟨other, hother, hsame⟩)
        · exact .inl hsame
      · rintro (hsame | hsame | ⟨other, hother, hsame⟩)
        · exact Or.inr ⟨group, .inr rfl, hsame⟩
        · exact .inl hsame
        · exact Or.inr ⟨other, .inl hother, hsame⟩
    · refine ⟨?_, hkey⟩
      rw [append_assoc]
      exact hgroups
  · rename_i key job current locked hsession
    cases hstep
    have hcounted := hsound.counted client
    rw [hsession] at hcounted
    obtain ⟨hgroups, hkey⟩ := hcounted
    rw [append_nil] at hgroups
    apply keeps_put hsound rfl
    · intro resource
      rw [hsession]
      simp only [holds, hgroups]
    · exact ⟨hgroups, hkey, fun _ husage => absurd husage not_mem_nil⟩
  · cases hstep

theorem countGroup_keeps (hstep : step settings state (.countGroup client) = some after) :
    Keeps settings.limits state after := by
  simp only [step] at hstep
  split at hstep
  · rename_i key job current usages group waiting hsession
    cases hstep
    have hcounted := hsound.counted client
    rw [hsession] at hcounted
    obtain ⟨hgroups, hkey, husages⟩ := hcounted
    apply keeps_put hsound rfl
    · intro resource
      rw [hsession]
      rfl
    · refine ⟨by simpa using hgroups, hkey, fun usage husage => ?_⟩
      rcases mem_append.mp husage with hold | hnew
      · exact husages usage hold
      · rw [mem_singleton.mp hnew]
  · cases hstep

omit hsound in
omit [DecidableEq Client] in
theorem close_keeps {id : String} {time : Nat} (hsound : Sound limits state) :
    Keeps limits state { state with table := closeRow id time state.table } := by
  have hfalls (resource : Resource) :
      liveCount (closeRow id time state.table) resource ≤ liveCount state.table resource := by
    rw [liveCount_eq, liveCount_eq]
    unfold closeRow
    split
    · exact Nat.le_refl _
    · rename_i front row back hlock
      rw [(lockRow_eq hlock).1]
      have hclosed : (counts resource { row with validTo := some time }).toNat ≤
          (counts resource row).toNat + 0 := by
        cases resource <;> simp [counts]
      exact countP_replace hclosed
  constructor
  · constructor
    · exact satisfies_closeRow hsound.satisfies id time
    · exact hsound.faithful
    · exact fun other => counted_mono (hsound.counted other) fun resource _ => hfalls resource
  · intro resource limit _
    exact .spend (Nat.add_le_add_right (hfalls resource) _) (Nat.le_refl _)

theorem changeIndexes_keeps {indexes : DedupIndexState}
    (hstep : step settings state (.changeIndexes indexes) = some after) :
    Keeps settings.limits state after := by
  simp only [step] at hstep
  split at hstep
  · rename_i hsatisfied
    cases hstep
    constructor
    · exact ⟨satisfies_of_satisfied hsatisfied, hsound.faithful, hsound.counted⟩
    · intro resource limit _
      exact .spend (Nat.le_refl _) (Nat.le_refl _)
  · cases hstep

theorem step_keeps {label : Label Client sha} (hstep : step settings state label = some after) :
    Keeps settings.limits state after := by
  cases label with
  | remember client key fragment => exact accept_keeps hsound hstep
  | batchRemember client key items results => exact accept_keeps hsound hstep
  | check client key => exact accept_keeps hsound hstep
  | lockKey client => exact lockKey_keeps hsound hstep
  | countKey client => exact countKey_keeps hsound hstep
  | lockGroup client => exact lockGroup_keeps hsound hstep
  | countGroup client => exact countGroup_keeps hsound hstep
  | judge client =>
    simp only [step] at hstep
    split at hstep
    · rename_i key job current usages hsession
      cases hstep
      exact judge_keeps hsound hsession
    · cases hstep
  | write client =>
    simp only [step] at hstep
    split at hstep
    · rename_i key job hsession
      exact writeJob_keeps hsound hsession hstep
    · cases hstep
  | rollback client =>
    cases hstep
    exact keeps_finish hsound trivial
  | close id time =>
    cases hstep
    exact close_keeps hsound
  | changeIndexes indexes => exact changeIndexes_keeps hsound hstep

end

end

section

theorem sound_of_reachable (hreach : (system settings).Reachable state) :
    Sound settings.limits state := by
  apply hreach.invariant
  · rintro state ⟨-, hsatisfies, hfree, hidle⟩
    constructor
    · exact hsatisfies
    · intro resource client
      change state.locks resource = some client <->
        holds settings.limits (state.session client) resource
      rw [hfree, hidle]
      simp [holds]
    · intro client
      rw [hidle]
      trivial
  · intro before label after _ hsound hstep
    exact (step_keeps hsound hstep).sound

/-- No interleaving of atomic writes exceeds the limit of a key or of a group. -/
theorem withinLimits_of_reachable (hreach : (system settings).Reachable state) :
    WithinLimits settings.limits state.table := by
  intro resource limit hlimit
  have hbounded : (account resource state).Bounded limit limit := by
    apply bounded_of_reachable _ _ hreach
    · rintro start ⟨hwithin, -, hfree, -⟩
      refine ⟨hwithin resource limit hlimit, ?_⟩
      simp only [account, held, hfree]
    · intro before label after hbefore hstep
      exact (step_keeps (sound_of_reachable hbefore) hstep).moves resource limit hlimit
  simp only [Account.Bounded, account, max_self, Nat.add_zero] at hbounded
  omega

def sampleGroup : Group := ⟨"group-a", "team", some 1, ["key-a", "key-b"]⟩

def sampleSettings : Settings where
  limits := ⟨fun key => if key = "key-a" then some 5 else none, [sampleGroup]⟩
  configured := .workspace
  anchorLimit := 20
  enforceAnchors := false

def sampleStart : State Nat sampleDigest where
  table := []
  indexes := ⟨fun
    | .keyScoped => some true
    | .masterScoped => some true
    | .keyLegacy => none
    | .masterLegacy => none⟩
  locks _ := none
  session _ := .idle

/-- Two members of the group remember at once.  The second waits for the row of the
group and finds no room left. -/
def sampleRun : List (Label Nat sampleDigest) :=
  [.remember 0 "key-a" (sampleItem none).fragment, .remember 1 "key-b" (sampleItem none).fragment,
    .lockKey 0, .lockKey 1, .countKey 0, .countKey 1, .lockGroup 0, .lockGroup 0, .countGroup 0,
    .judge 0, .write 0, .lockGroup 1, .lockGroup 1, .countGroup 1, .judge 1]

theorem withinLimits_two_members :
    ∃ state : State Nat sampleDigest,
      (system sampleSettings).Run sampleStart sampleRun state /\
      state.table.map Row.keyId = [some "key-a"] /\
      WithinLimits sampleSettings.limits state.table := by
  have hstart : (system sampleSettings).start sampleStart := by
    refine ⟨fun resource limit _ => ?_, fun _ _ => Pairwise.nil, fun _ => rfl, fun _ => rfl⟩
    cases resource <;> exact Nat.zero_le limit
  have hrun : ∃ state : State Nat sampleDigest,
      (system sampleSettings).Run sampleStart sampleRun state /\
      state.table.map Row.keyId = [some "key-a"] :=
    ⟨_, .cons rfl (.cons rfl (.cons rfl (.cons rfl (.cons rfl (.cons rfl (.cons rfl
      (.cons rfl (.cons rfl (.cons rfl (.cons rfl (.cons rfl (.cons rfl (.cons rfl
        (.cons rfl (.nil _))))))))))))))), rfl⟩
  obtain ⟨state, hrun, hkeys⟩ := hrun
  exact ⟨state, hrun, hkeys, withinLimits_of_reachable (.run (.ofStart hstart) hrun)⟩

end

end AnchorMind.Accounting.FragmentLimits
