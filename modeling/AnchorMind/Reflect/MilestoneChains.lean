import AnchorMind.Reflect.EpisodeContinuity
import Mathlib.Order.Nat

/-!
# Chains of milestones

The edges of a scope form a simple chain as long as every call finds, as the milestone
before its own, an older one of its scope that no other call has found.  Two calls between
each other's steps may find each other, and a cache entry may name a milestone that another
process has long gone past.
-/

namespace AnchorMind.Reflect.EpisodeContinuity

open Kernel.Chains Kernel.InsertionMap Kernel.Transition List

/-- Every milestone has at most one predecessor and one successor, the edges have no cycle
and stay within a scope. -/
structure SimpleChains (state : State) : Prop where
  onePredecessor : ∀ a a' b, (a, b) ∈ state.edges -> (a', b) ∈ state.edges -> a = a'
  oneSuccessor : ∀ a b b', (a, b) ∈ state.edges -> (a, b') ∈ state.edges -> b = b'
  acyclic : ∀ event,
    Not (Relation.TransGen (fun a b => (a, b) ∈ state.edges) event event)
  sameScope : ∀ a b, (a, b) ∈ state.edges ->
    ∃ scope, state.scope a = some scope /\ state.scope b = some scope

/-- The milestone a call is about to draw an edge from. -/
def Point.previous : Point -> Option EventId
  | .linking _ _ previous => some previous
  | _ => none

/-- The milestone found is an older one of the scope, no edge leads from it, and no other
call is about to draw one. -/
def Untaken (state : State) (call : Nat) (event : EventId) (scope : Scope)
    (previous : EventId) : Prop :=
  previous < event /\ state.scope previous = some scope /\
    (∀ edge ∈ state.edges, edge.1 ≠ previous) /\
      ∀ other, other < state.calls.length -> other ≠ call ->
        (state.call other).bind (fun call => call.point.previous) ≠ some previous

instance (state : State) (call : Nat) (event : EventId) (scope : Scope) (previous : EventId) :
    Decidable (Untaken state call event scope previous) := by
  unfold Untaken
  infer_instance

def FindsUntaken (state : State) (label : Label) : Prop :=
  match label with
  | .look call now =>
    match state.call call with
    | some { process, point := .looking event scope } =>
      ∀ previous,
        (readCachedEvent (state.caches process) scope.key now).1 = some previous ->
          Untaken state call event scope previous
    | _ => True
  | .query call found =>
    match state.call call with
    | some { process := _, point := .querying event scope } =>
      ∀ previous, found = some previous -> Untaken state call event scope previous
    | _ => True
  | _ => True

instance (state : State) (label : Label) : Decidable (FindsUntaken state label) := by
  cases label <;> simp only [FindsUntaken] <;> first | infer_instance | (split <;> infer_instance)

namespace Point

def own : Point -> Option (EventId × Scope)
  | .looking event scope => some (event, scope)
  | .querying event scope => some (event, scope)
  | .linking event scope _ => some (event, scope)
  | .caching event scope => some (event, scope)
  | _ => none

/-- The milestone of a call that has not drawn its edge. -/
def unlinked : Point -> Option EventId
  | .looking event _ => some event
  | .querying event _ => some event
  | .linking event _ _ => some event
  | _ => none

theorem own_of_unlinked {point : Point} {event : EventId}
    (hunlinked : point.unlinked = some event) : ∃ scope, point.own = some (event, scope) := by
  cases point <;> simp only [unlinked, own] at hunlinked ⊢
  all_goals first
    | exact absurd hunlinked.symm (Option.some_ne_none _)
    | exact ⟨_, by rw [Option.some.inj hunlinked]⟩

end Point

structure Linked (state : State) : Prop where
  chained : Chained fun a b => (a, b) ∈ state.edges
  sameScope : ∀ a b, (a, b) ∈ state.edges ->
    ∃ scope, state.scope a = some scope /\ state.scope b = some scope
  row : ∀ i process arguments row,
    state.call i = some { process := process, point := .inserting arguments row } ->
      findFragment state arguments = some row
  own : ∀ i call event scope, state.call i = some call ->
    call.point.own = some (event, scope) -> state.scope event = some scope
  distinct : ∀ i j call other event scope scope', state.call i = some call ->
    state.call j = some other -> call.point.own = some (event, scope) ->
      other.point.own = some (event, scope') -> i = j
  unentered : ∀ i call event, state.call i = some call ->
    call.point.unlinked = some event -> ∀ a, (a, event) ∉ state.edges
  picked : ∀ i process event scope previous,
    state.call i =
        some { process := process, point := .linking event scope previous } ->
      previous < event /\ state.scope previous = some scope /\
        (∀ b, (previous, b) ∉ state.edges) /\
          ∀ j call, state.call j = some call -> call.point.previous = some previous -> j = i

variable {state : State} {i process : Nat}

theorem lt_of_call {call : Call} (hcall : state.call i = some call) : i < state.calls.length := by
  unfold State.call at hcall
  by_contra hlength
  rw [getElem?_eq_none (Nat.le_of_not_lt hlength)] at hcall
  cases hcall

theorem call_moveTo {call : Call} (hcall : state.call i = some call) (point : Point) (j : Nat) :
    (state.moveTo i process point).call j =
      if j = i then some { process := process, point := point } else state.call j := by
  unfold State.moveTo State.call
  simp only [getElem?_set]
  split
  · rename_i hij
    subst hij
    rw [if_pos rfl, if_pos (lt_of_call hcall)]
    rfl
  · rename_i hij
    rw [if_neg (Ne.symm hij)]

theorem call_finish (j : Nat) (call : Call) (hafter : (state.finish i).call j = some call) :
    state.call j = some call := by
  unfold State.finish State.call at hafter
  simp only [getElem?_set] at hafter
  split at hafter
  · split at hafter <;> cases hafter
  · exact hafter

variable {event : EventId} {scope : Scope}

theorem lt_of_scope (hscope : state.scope event = some scope) : event < state.events.length := by
  unfold State.scope at hscope
  by_contra hlength
  rw [getElem?_eq_none (Nat.le_of_not_lt hlength)] at hscope
  cases hscope

section

variable (hlinked : Linked state)
include hlinked

theorem Linked.fewer {calls : List (Option Call)}
    (hfewer : ∀ j call, State.call { state with calls := calls } j = some call ->
      state.call j = some call) : Linked { state with calls := calls } where
  chained := hlinked.chained
  sameScope := hlinked.sameScope
  row j process arguments row hcall := hlinked.row j process arguments row (hfewer j _ hcall)
  own j call event scope hcall := hlinked.own j call event scope (hfewer j call hcall)
  distinct j k call other event scope scope' hcall hother :=
    hlinked.distinct j k call other event scope scope' (hfewer j call hcall) (hfewer k other hother)
  unentered j call event hcall := hlinked.unentered j call event (hfewer j call hcall)
  picked j process event scope previous hcall := by
    obtain ⟨hlt, hscope, hfree, honly⟩ :=
      hlinked.picked j process event scope previous (hfewer j _ hcall)
    exact ⟨hlt, hscope, hfree, fun k call hcall' => honly k call (hfewer k call hcall')⟩

theorem Linked.finish : Linked (state.finish i) :=
  hlinked.fewer fun j call hcall => call_finish j call hcall

theorem Linked.moveTo {point next : Point}
    (hcall : state.call i = some { process := process, point := point })
    (hrow : ∀ arguments row, next = .inserting arguments row ->
      findFragment state arguments = some row)
    (hown : ∀ pair, next.own = some pair -> point.own = some pair)
    (hunlinked : ∀ event, next.unlinked = some event -> point.unlinked = some event)
    (hpicked : ∀ event scope previous, next = .linking event scope previous ->
      Untaken state i event scope previous) : Linked (state.moveTo i process next) := by
  have hmoved : ∀ j call, (state.moveTo i process next).call j = some call ->
      (j = i /\ call.point = next) \/ state.call j = some call := by
    intro j call hafter
    rw [call_moveTo hcall] at hafter
    split at hafter
    · rename_i hij
      exact Or.inl ⟨hij, by rw [<- Option.some.inj hafter]⟩
    · exact .inr hafter
  have howns : ∀ j call pair, (state.moveTo i process next).call j = some call ->
      call.point.own = some pair ->
        ∃ before, state.call j = some before /\ before.point.own = some pair := by
    intro j call pair hafter hpair
    rcases hmoved j call hafter with ⟨rfl, hpoint⟩ | hbefore
    · exact ⟨_, hcall, hown pair (hpoint ▸ hpair)⟩
    · exact ⟨call, hbefore, hpair⟩
  refine
    { chained := hlinked.chained
      sameScope := hlinked.sameScope
      row := ?_
      own := ?_
      distinct := ?_
      unentered := ?_
      picked := ?_ }
  · intro j process' arguments row hafter
    rcases hmoved j _ hafter with ⟨-, hpoint⟩ | hbefore
    · exact hrow arguments row hpoint.symm
    · exact hlinked.row j process' arguments row hbefore
  · intro j call event scope hafter hpair
    obtain ⟨before, hbefore, hpair'⟩ := howns j call _ hafter hpair
    exact hlinked.own j before event scope hbefore hpair'
  · intro j k call other event scope scope' hafter hafter' hpair hpair'
    obtain ⟨before, hbefore, hsame⟩ := howns j call _ hafter hpair
    obtain ⟨before', hbefore', hsame'⟩ := howns k other _ hafter' hpair'
    exact hlinked.distinct j k before before' event scope scope' hbefore hbefore' hsame hsame'
  · intro j call event hafter hevent
    rcases hmoved j call hafter with ⟨rfl, hpoint⟩ | hbefore
    · exact hlinked.unentered j _ event hcall (hunlinked event (hpoint ▸ hevent))
    · exact hlinked.unentered j call event hbefore hevent
  · intro j process' event scope previous hafter
    have hsole : ∀ event scope, Untaken state i event scope previous ->
        ∀ k call, (state.moveTo i process next).call k = some call ->
          call.point.previous = some previous -> k = i := by
      intro event scope huntaken k call hafter' hprevious
      rcases hmoved k call hafter' with ⟨hki, -⟩ | hbefore
      · exact hki
      · by_contra hki
        refine huntaken.2.2.2 k (lt_of_call hbefore) hki ?_
        rw [hbefore]
        exact hprevious
    rcases hmoved j _ hafter with ⟨rfl, hpoint⟩ | hbefore
    · have huntaken := hpicked event scope previous hpoint.symm
      exact ⟨huntaken.1, huntaken.2.1, fun b hedge => huntaken.2.2.1 _ hedge rfl,
        hsole event scope huntaken⟩
    · obtain ⟨hlt, hscope, hfree, honly⟩ := hlinked.picked j process' event scope previous hbefore
      refine ⟨hlt, hscope, hfree, fun k call hafter' hprevious => ?_⟩
      rcases hmoved k call hafter' with ⟨rfl, hpoint⟩ | hbefore'
      · rw [hpoint] at hprevious
        cases next with
        | linking event' scope' previous' =>
          obtain rfl : previous' = previous := Option.some.inj hprevious
          have huntaken := hpicked event' scope' previous' rfl
          by_contra hjk
          refine huntaken.2.2.2 j (lt_of_call hbefore) (fun heq => hjk heq.symm) ?_
          rw [hbefore]
          rfl
        | _ => cases hprevious
      · exact honly k call hbefore' hprevious

theorem Linked.start (arguments : Arguments) :
    Linked { state with
      calls := state.calls ++ [some { process := process, point := .reading arguments }] } := by
  have hcalls : ∀ j call,
      State.call { state with
        calls := state.calls ++ [some { process := process, point := .reading arguments }] } j =
          some call -> call.point = .reading arguments \/ state.call j = some call := by
    intro j call hafter
    unfold State.call at hafter ⊢
    rw [getElem?_append] at hafter
    split at hafter
    · exact .inr hafter
    · left
      cases hj : j - state.calls.length with
      | zero =>
        rw [hj] at hafter
        rw [<- Option.some.inj hafter]
      | succ k =>
        rw [hj] at hafter
        cases hafter
  refine
    { chained := hlinked.chained
      sameScope := hlinked.sameScope
      row := ?_
      own := ?_
      distinct := ?_
      unentered := ?_
      picked := ?_ }
  · intro j process' arguments' row hafter
    rcases hcalls j _ hafter with hpoint | hbefore
    · cases hpoint
    · exact hlinked.row j process' arguments' row hbefore
  · intro j call event scope hafter hown
    rcases hcalls j call hafter with hpoint | hbefore
    · rw [hpoint] at hown
      cases hown
    · exact hlinked.own j call event scope hbefore hown
  · intro j k call other event scope scope' hafter hafter' hown hown'
    rcases hcalls j call hafter with hpoint | hbefore
    · rw [hpoint] at hown
      cases hown
    · rcases hcalls k other hafter' with hpoint | hbefore'
      · rw [hpoint] at hown'
        cases hown'
      · exact hlinked.distinct j k call other event scope scope' hbefore hbefore' hown hown'
  · intro j call event hafter hunlinked
    rcases hcalls j call hafter with hpoint | hbefore
    · rw [hpoint] at hunlinked
      cases hunlinked
    · exact hlinked.unentered j call event hbefore hunlinked
  · intro j process' event scope previous hafter
    rcases hcalls j _ hafter with hpoint | hbefore
    · cases hpoint
    · obtain ⟨hlt, hscope, hfree, honly⟩ := hlinked.picked j process' event scope previous hbefore
      refine ⟨hlt, hscope, hfree, fun k call hafter' hprevious => ?_⟩
      rcases hcalls k call hafter' with hpoint | hbefore'
      · rw [hpoint] at hprevious
        cases hprevious
      · exact honly k call hbefore' hprevious

omit hlinked in
theorem scope_append (milestone : Milestone) (hscope : state.scope event = some scope) :
    State.scope { state with events := state.events ++ [milestone] } event = some scope := by
  have hlt := lt_of_scope hscope
  unfold State.scope at hscope ⊢
  simp only [getElem?_append_left hlt]
  exact hscope

theorem Linked.insert (milestone : Milestone) :
    Linked { state with events := state.events ++ [milestone] } where
  chained := hlinked.chained
  sameScope a b hedge := by
    obtain ⟨scope, ha, hb⟩ := hlinked.sameScope a b hedge
    exact ⟨scope, scope_append milestone ha, scope_append milestone hb⟩
  row := hlinked.row
  own j call event scope hcall hown :=
    scope_append milestone (hlinked.own j call event scope hcall hown)
  distinct := hlinked.distinct
  unentered := hlinked.unentered
  picked j process event scope previous hcall := by
    obtain ⟨hlt, hscope, hfree, honly⟩ := hlinked.picked j process event scope previous hcall
    exact ⟨hlt, scope_append milestone hscope, hfree, honly⟩

theorem Linked.looking {arguments : Arguments} {row : FragmentRow}
    (hcall : state.call i = some { process := process, point := .inserting arguments row })
    (hscope : state.scope event = some scope)
    (hnew : ∀ j call scope, state.call j = some call -> call.point.own ≠ some (event, scope))
    (hunentered : ∀ a, (a, event) ∉ state.edges) :
    Linked (state.moveTo i process (.looking event scope)) := by
  have hmoved : ∀ j call, (state.moveTo i process (.looking event scope)).call j = some call ->
      (j = i /\ call.point = .looking event scope) \/ state.call j = some call := by
    intro j call hafter
    rw [call_moveTo hcall] at hafter
    split at hafter
    · rename_i hij
      exact Or.inl ⟨hij, by rw [<- Option.some.inj hafter]⟩
    · exact .inr hafter
  refine
    { chained := hlinked.chained
      sameScope := hlinked.sameScope
      row := ?_
      own := ?_
      distinct := ?_
      unentered := ?_
      picked := ?_ }
  · intro j process' arguments' row' hafter
    rcases hmoved j _ hafter with ⟨-, hpoint⟩ | hbefore
    · cases hpoint
    · exact hlinked.row j process' arguments' row' hbefore
  · intro j call event' scope' hafter hown
    rcases hmoved j call hafter with ⟨-, hpoint⟩ | hbefore
    · rw [hpoint] at hown
      cases hown
      exact hscope
    · exact hlinked.own j call event' scope' hbefore hown
  · intro j k call other event' scope' scope'' hafter hafter' hown hown'
    rcases hmoved j call hafter with ⟨rfl, hpoint⟩ | hbefore
    · rcases hmoved k other hafter' with ⟨rfl, -⟩ | hbefore'
      · rfl
      · rw [hpoint] at hown
        cases hown
        exact absurd hown' (hnew k other scope'' hbefore')
    · rcases hmoved k other hafter' with ⟨rfl, hpoint⟩ | hbefore'
      · rw [hpoint] at hown'
        cases hown'
        exact absurd hown (hnew j call scope' hbefore)
      · exact hlinked.distinct j k call other event' scope' scope'' hbefore hbefore' hown hown'
  · intro j call event' hafter hunlinked
    rcases hmoved j call hafter with ⟨-, hpoint⟩ | hbefore
    · rw [hpoint] at hunlinked
      cases hunlinked
      exact hunentered
    · exact hlinked.unentered j call event' hbefore hunlinked
  · intro j process' event' scope' previous hafter
    rcases hmoved j _ hafter with ⟨-, hpoint⟩ | hbefore
    · cases hpoint
    · obtain ⟨hlt, hscope', hfree, honly⟩ :=
        hlinked.picked j process' event' scope' previous hbefore
      refine ⟨hlt, hscope', hfree, fun k call hafter' hprevious => ?_⟩
      rcases hmoved k call hafter' with ⟨-, hpoint⟩ | hbefore'
      · rw [hpoint] at hprevious
        cases hprevious
      · exact honly k call hbefore' hprevious

omit hlinked in
theorem scope_newMilestone {arguments : Arguments} {row : FragmentRow} (createdAt : Nat)
    (hrow : findFragment state arguments = some row) :
    State.scope { state with
      events := state.events ++ [newMilestone arguments row createdAt] } state.events.length =
        scopeOf arguments.agentId arguments.keyId row.workspace row.topic := by
  unfold findFragment at hrow
  obtain ⟨hfragment, hfilter⟩ := Option.filter_eq_some_iff.mp hrow
  simp only [Bool.and_eq_true, decide_eq_true_eq] at hfilter
  simp [State.scope, Milestone.scope, newMilestone, hfragment, hfilter.1]

theorem Linked.link {previous : EventId}
    (hcall : state.call i = some { process := process, point := .linking event scope previous }) :
    Linked ((insertEdge state previous event).moveTo i process (.caching event scope)) := by
  obtain ⟨hlt, hprevious, hfree, honly⟩ := hlinked.picked i process event scope previous hcall
  have hunentered := hlinked.unentered i _ event hcall rfl
  have howned := hlinked.own i _ event scope hcall rfl
  have hedges : insertEdge state previous event =
      { state with edges := state.edges ++ [(previous, event)] } := by
    rw [insertEdge, if_neg (hunentered previous)]
  have hmem : ∀ a b, (a, b) ∈ state.edges ++ [(previous, event)] <->
      (a, b) ∈ state.edges \/ a = previous /\ b = event := by
    intro a b
    rw [mem_append, mem_singleton, Prod.mk.injEq]
  have hmoved : ∀ j call,
      (State.moveTo { state with edges := state.edges ++ [(previous, event)] } i process
        (.caching event scope)).call j = some call ->
          (j = i /\ call.point = .caching event scope) \/ (j ≠ i /\ state.call j = some call) := by
    intro j call hafter
    have hlater : State.call { state with edges := state.edges ++ [(previous, event)] } i =
        some { process := process, point := .linking event scope previous } := hcall
    rw [call_moveTo hlater] at hafter
    split at hafter
    · rename_i hij
      exact Or.inl ⟨hij, by rw [<- Option.some.inj hafter]⟩
    · rename_i hij
      exact Or.inr ⟨hij, hafter⟩
  rw [hedges]
  refine
    { chained := ?_
      sameScope := ?_
      row := ?_
      own := ?_
      distinct := ?_
      unentered := ?_
      picked := ?_ }
  · have hlink := hlinked.chained.link hlt hfree hunentered
    have hsame : (fun a b => (a, b) ∈ state.edges ++ [(previous, event)]) =
        fun a b => (a, b) ∈ state.edges \/ a = previous /\ b = event := by
      funext a b
      exact propext (hmem a b)
    change Chained fun a b => (a, b) ∈ state.edges ++ [(previous, event)]
    rw [hsame]
    exact hlink
  · intro a b hedge
    rcases (hmem a b).mp hedge with hold | ⟨rfl, rfl⟩
    · exact hlinked.sameScope a b hold
    · exact ⟨scope, hprevious, howned⟩
  · intro j process' arguments row hafter
    rcases hmoved j _ hafter with ⟨-, hpoint⟩ | ⟨-, hbefore⟩
    · cases hpoint
    · exact hlinked.row j process' arguments row hbefore
  · intro j call event' scope' hafter hown
    rcases hmoved j call hafter with ⟨-, hpoint⟩ | ⟨-, hbefore⟩
    · rw [hpoint] at hown
      cases hown
      exact howned
    · exact hlinked.own j call event' scope' hbefore hown
  · intro j k call other event' scope' scope'' hafter hafter' hown hown'
    rcases hmoved j call hafter with ⟨rfl, hpoint⟩ | ⟨hji, hbefore⟩
    · rcases hmoved k other hafter' with ⟨rfl, -⟩ | ⟨-, hbefore'⟩
      · rfl
      · rw [hpoint] at hown
        cases hown
        exact hlinked.distinct _ k _ other event scope scope'' hcall hbefore' rfl hown'
    · rcases hmoved k other hafter' with ⟨rfl, hpoint⟩ | ⟨-, hbefore'⟩
      · rw [hpoint] at hown'
        cases hown'
        exact hlinked.distinct j _ call _ event scope' scope hbefore hcall hown rfl
      · exact hlinked.distinct j k call other event' scope' scope'' hbefore hbefore' hown hown'
  · intro j call event' hafter hunlinked a hedge
    rcases hmoved j call hafter with ⟨-, hpoint⟩ | ⟨hji, hbefore⟩
    · rw [hpoint] at hunlinked
      cases hunlinked
    · rcases (hmem a event').mp hedge with hold | ⟨-, rfl⟩
      · exact hlinked.unentered j call event' hbefore hunlinked a hold
      · obtain ⟨scope', hown⟩ := Point.own_of_unlinked hunlinked
        exact hji (hlinked.distinct j i call _ event' scope' scope hbefore hcall hown rfl)
  · intro j process' event' scope' previous' hafter
    rcases hmoved j _ hafter with ⟨-, hpoint⟩ | ⟨hji, hbefore⟩
    · cases hpoint
    · obtain ⟨hlt', hscope', hfree', honly'⟩ :=
        hlinked.picked j process' event' scope' previous' hbefore
      refine ⟨hlt', hscope', fun b hedge => ?_, fun k call hafter' hprevious' => ?_⟩
      · rcases (hmem previous' b).mp hedge with hold | ⟨rfl, -⟩
        · exact hfree' b hold
        · exact hji (honly j _ hbefore rfl)
      · rcases hmoved k call hafter' with ⟨-, hpoint⟩ | ⟨-, hbefore'⟩
        · rw [hpoint] at hprevious'
          cases hprevious'
        · exact honly' k call hbefore' hprevious'

variable {cacheTtlMs : Nat} {after : State} {label : Label}

theorem Linked.goOnWith {call process : Nat} {point : Point} {event : EventId} {scope : Scope}
    (found : Option EventId) (hcall : state.call call = some { process := process, point := point })
    (hown : point.own = some (event, scope)) (hunlinked : point.unlinked = some event)
    (huntaken : ∀ previous, found = some previous -> Untaken state call event scope previous) :
    Linked (goOnWith state call process event scope found) := by
  have hcaching : Linked (state.moveTo call process (.caching event scope)) := by
    refine hlinked.moveTo hcall ?_ ?_ ?_ ?_
    · exact fun _ _ heq => (by cases heq)
    · rintro pair hpair
      exact hown.trans hpair
    · exact fun _ hnone => (by cases hnone)
    · exact fun _ _ _ heq => (by cases heq)
  unfold EpisodeContinuity.goOnWith
  cases found with
  | none => exact hcaching
  | some previous =>
    dsimp only
    split
    · refine hlinked.moveTo hcall ?_ ?_ ?_ ?_
      · exact fun _ _ heq => (by cases heq)
      · rintro pair hpair
        exact hown.trans hpair
      · rintro other hother
        exact hunlinked.trans hother
      · intro event' scope' previous' heq
        cases heq
        exact huntaken previous rfl
    · exact hcaching

theorem Linked.insertMilestone {call process createdAt : Nat} {arguments : Arguments}
    {row : FragmentRow}
    (hcall : state.call call = some { process := process, point := .inserting arguments row }) :
    Linked (insertMilestone state call process arguments row createdAt) := by
  have hrow := hlinked.row call process arguments row hcall
  have hscope := scope_newMilestone createdAt hrow
  have hinserted := hlinked.insert (newMilestone arguments row createdAt)
  simp only [EpisodeContinuity.insertMilestone]
  split
  · exact hlinked.finish
  · split
    · exact hinserted.finish
    · rename_i scope hsome
      rw [hsome] at hscope
      refine hinserted.looking hcall hscope ?_ ?_
      · intro j other scope' hother hown
        have howned := hlinked.own j other state.events.length scope' hother hown
        exact Nat.lt_irrefl _ (lt_of_scope howned)
      · intro a hedge
        obtain ⟨scope', -, howned⟩ := hlinked.sameScope a state.events.length hedge
        exact Nat.lt_irrefl _ (lt_of_scope howned)

theorem Linked.step (hstep : step cacheTtlMs state label = some after)
    (hfinds : FindsUntaken state label) : Linked after := by
  cases label with
  | start process arguments =>
    simp only [EpisodeContinuity.step] at hstep
    split at hstep <;> cases hstep
    · exact hlinked
    · exact hlinked.start arguments
  | read call =>
    simp only [EpisodeContinuity.step] at hstep
    split at hstep
    · rename_i process arguments hcall
      split at hstep <;> cases hstep
      · exact hlinked.finish
      · rename_i row hrow
        refine hlinked.moveTo hcall ?_ ?_ ?_ ?_
        · intro arguments' row' heq
          cases heq
          exact hrow
        · exact fun _ hnone => (by cases hnone)
        · exact fun _ hnone => (by cases hnone)
        · exact fun _ _ _ heq => (by cases heq)
    · cases hstep
  | insert call createdAt =>
    simp only [EpisodeContinuity.step] at hstep
    split at hstep
    · rename_i process arguments row hcall
      cases hstep
      exact hlinked.insertMilestone hcall
    · cases hstep
  | look call now =>
    simp only [EpisodeContinuity.step] at hstep
    split at hstep
    · rename_i process event scope hcall
      cases hstep
      simp only [FindsUntaken, hcall] at hfinds
      have hread : Linked { state with
          caches := Function.update state.caches process
            (readCachedEvent (state.caches process) scope.key now).2 } := { hlinked with }
      simp only [lookUp]
      cases hfound : (readCachedEvent (state.caches process) scope.key now).1 with
      | none =>
        refine hread.moveTo hcall ?_ ?_ ?_ ?_
        · exact fun _ _ heq => (by cases heq)
        · exact fun _ hpair => hpair
        · exact fun _ hunlinked => hunlinked
        · exact fun _ _ _ heq => (by cases heq)
      | some previous =>
        refine hread.goOnWith (some previous) hcall rfl rfl fun other hother => ?_
        cases hother
        exact hfinds previous hfound
    · cases hstep
  | query call found =>
    simp only [EpisodeContinuity.step] at hstep
    split at hstep
    · rename_i process event scope hcall
      split at hstep
      · cases hstep
        simp only [FindsUntaken, hcall] at hfinds
        exact hlinked.goOnWith found hcall rfl rfl hfinds
      · cases hstep
    · cases hstep
  | link call =>
    simp only [EpisodeContinuity.step] at hstep
    split at hstep
    · rename_i process event scope previous hcall
      cases hstep
      exact hlinked.link hcall
    · cases hstep
  | cache call now =>
    simp only [EpisodeContinuity.step] at hstep
    split at hstep
    · rename_i process event scope hcall
      cases hstep
      have hcached : Linked { state with
          caches := Function.update state.caches process
            (cacheLastEvent cacheTtlMs (state.caches process) scope.key event now) } :=
        { hlinked with }
      exact hcached.finish
    · cases hstep
  | fail call =>
    simp only [EpisodeContinuity.step] at hstep
    split at hstep
    · cases hstep
      exact hlinked.finish
    · cases hstep
  | restart process =>
    cases hstep
    have hcleared : Linked { state with
        caches := Function.update state.caches process Map.empty } := { hlinked with }
    refine hcleared.fewer fun j call hafter => ?_
    unfold State.call at hafter ⊢
    rw [getElem?_map] at hafter
    cases hold : state.calls[j]? with
    | none =>
      rw [hold] at hafter
      cases hafter
    | some old =>
      rw [hold] at hafter
      exact (Option.filter_eq_some_iff.mp hafter).1

omit hlinked in
theorem Linked.ofStarted (hstarted : Started state) : Linked state := by
  have hedges : ∀ a b, (a, b) ∉ state.edges := by
    intro a b
    rw [hstarted.edges]
    exact not_mem_nil
  have hcalls : ∀ j call, state.call j ≠ some call := by
    intro j call hcall
    have hlt := lt_of_call hcall
    rw [hstarted.calls] at hlt
    exact Nat.not_lt_zero _ hlt
  exact
    { chained :=
        ⟨fun a b hedge => absurd hedge (hedges a b), fun a _ b hedge => absurd hedge (hedges a b),
          fun a b _ hedge => absurd hedge (hedges a b)⟩
      sameScope := fun a b hedge => absurd hedge (hedges a b)
      row := fun j _ _ _ hcall => absurd hcall (hcalls j _)
      own := fun j call _ _ hcall => absurd hcall (hcalls j call)
      distinct := fun j _ call _ _ _ _ hcall => absurd hcall (hcalls j call)
      unentered := fun j call _ hcall => absurd hcall (hcalls j call)
      picked := fun j _ _ _ _ hcall => absurd hcall (hcalls j _) }

theorem Linked.simpleChains : SimpleChains state where
  onePredecessor := hlinked.chained.onePredecessor
  oneSuccessor := hlinked.chained.oneSuccessor
  acyclic := hlinked.chained.acyclic
  sameScope := hlinked.sameScope

end

/-- In every run in which calls find untaken milestones the edges form simple chains. -/
theorem milestones_chained
    (hreach : ((milestones cacheTtlMs).restrict FindsUntaken).Reachable state) :
    SimpleChains state := by
  have hstart : ∀ origin, Started origin -> Linked origin :=
    fun origin hstarted => Linked.ofStarted hstarted
  have hkeep : ∀ before label after,
      ((milestones cacheTtlMs).restrict FindsUntaken).Reachable before -> Linked before ->
        ((milestones cacheTtlMs).restrict FindsUntaken).step before label after -> Linked after :=
    fun before label after _ hlinked hstep => hlinked.step hstep.1 hstep.2
  exact (hreach.invariant hstart hkeep).simpleChains

def sampleState : State where
  fragments id :=
    if id = "frag-1" || id = "frag-2" then
      some
        { content := "s", agentId := "a", keyId := none, workspace := some "w",
          topic := some "session_reflect" }
    else none
  events := []
  edges := []
  caches _ := Map.empty
  calls := []

theorem sampleState_started : Started sampleState := ⟨rfl, rfl, fun _ => rfl, rfl⟩

def sampleArguments (id : String) : Arguments where
  episodeFragmentId := id
  agentId := "a"
  keyId := none
  sessionId := some "s"

def oneAfterAnother : List Label :=
  [ .start 0 (sampleArguments "frag-1"), .read 0, .insert 0 1, .look 0 2, .query 0 none,
    .cache 0 3, .start 0 (sampleArguments "frag-2"), .read 1, .insert 1 10, .look 1 11, .link 1,
    .cache 1 12 ]

theorem milestones_chained_two_calls : ∃ state,
    ((milestones 5000).restrict FindsUntaken).Reachable state /\ state.edges = [(0, 1)] /\
      SimpleChains state := by
  have hrun : (System.follow (fun before label =>
      if FindsUntaken before label then step 5000 before label else none) sampleState
        oneAfterAnother).map State.edges = some [(0, 1)] := by
    decide +kernel
  obtain ⟨state, hfollow, hedges⟩ := Option.map_eq_some_iff.mp hrun
  have hreach : ((milestones 5000).restrict FindsUntaken).Reachable state :=
    ⟨sampleState, oneAfterAnother, sampleState_started,
      .of_follow_restrict (fun _ _ _ hstep => hstep) hfollow⟩
  exact ⟨state, hreach, hedges, milestones_chained hreach⟩

def sideBySide : List Label :=
  [ .start 0 (sampleArguments "frag-1"), .start 0 (sampleArguments "frag-2"), .read 0, .read 1,
    .insert 0 1, .insert 1 2, .look 0 3, .look 1 3, .query 0 (some 1), .query 1 (some 0),
    .link 0, .link 1 ]

/-- The two calls of one reflect find each other: the edges are a cycle. -/
theorem milestones_in_a_circle : ∃ state,
    (milestones 5000).Reachable state /\ state.edges = [(1, 0), (0, 1)] /\
      Not (SimpleChains state) := by
  have hrun : (System.follow (step 5000) sampleState sideBySide).map State.edges =
      some [(1, 0), (0, 1)] := by
    decide +kernel
  obtain ⟨state, hfollow, hedges⟩ := Option.map_eq_some_iff.mp hrun
  refine ⟨state, ?_, hedges, fun hchains => ?_⟩
  · exact ⟨sampleState, sideBySide, sampleState_started,
      .of_follow (fun _ _ _ hstep => hstep) hfollow⟩
  · have hacyclic := hchains.acyclic 0
    rw [hedges] at hacyclic
    exact hacyclic (.tail (.single (b := 1) (by decide)) (by decide))

end AnchorMind.Reflect.EpisodeContinuity
