import AnchorMind.Kernel.Chains
import AnchorMind.Kernel.InsertionMap
import AnchorMind.Kernel.Transition

/-!
# Episode milestones

`linkEpisodeMilestone` inserts a milestone event for an episode fragment, looks for the
milestone before it in the cache of the process or in the database, and draws an edge from
that one to the new one.  Every query, and every stretch of code between queries, is one step;
calls and processes take their steps in any order.
-/

namespace AnchorMind.Reflect.EpisodeContinuity

open Kernel.Transition Kernel.InsertionMap

structure FragmentRow where
  content : String
  agentId : String
  keyId : Option String
  workspace : Option String
  topic : Option String

/-- A row of `case_events` with the type `milestone_reached`. -/
structure Milestone where
  summary : String
  sourceFragmentId : String
  caseId : String
  sessionId : Option String
  idempotencyKey : String
  keyId : Option String
  agentId : String
  workspace : Option String
  createdAt : Nat

/-- The `event_id` of a milestone; they are numbered as they are inserted. -/
abbrev EventId := Nat

inductive ScopeType where
  | workspace
  | topic
  deriving DecidableEq

structure Scope where
  agentId : String
  keyId : Option String
  scopeType : ScopeType
  scopeValue : String
  deriving DecidableEq

structure Arguments where
  episodeFragmentId : String
  agentId : String
  keyId : Option String
  sessionId : Option String

structure CacheEntry where
  eventId : EventId
  expiresAt : Nat

/-- Where a call has come to. -/
inductive Point where
  | reading (arguments : Arguments)
  | inserting (arguments : Arguments) (row : FragmentRow)
  | looking (event : EventId) (scope : Scope)
  | querying (event : EventId) (scope : Scope)
  | linking (event : EventId) (scope : Scope) (previous : EventId)
  | caching (event : EventId) (scope : Scope)

structure Call where
  process : Nat
  point : Point

structure State where
  fragments : String -> Option FragmentRow
  /-- `case_events`, in the order of their insertion. -/
  events : List Milestone
  /-- The `preceded_by` rows of `case_event_edges`. -/
  edges : List (EventId × EventId)
  /-- The `lastEventCache` of each process. -/
  caches : Nat -> Map String CacheEntry
  /-- The calls that were started. -/
  calls : List (Option Call)

def scopeOf (agentId : String) (keyId workspace topic : Option String) : Option Scope :=
  match workspace, topic with
  | some workspace, _ =>
    some { agentId := agentId, keyId := keyId, scopeType := .workspace, scopeValue := workspace }
  | none, some topic =>
    some { agentId := agentId, keyId := keyId, scopeType := .topic, scopeValue := topic }
  | none, none => none

def ScopeType.name : ScopeType -> String
  | .workspace => "workspace"
  | .topic => "topic"

def Scope.key (scope : Scope) : String :=
  scope.agentId ++ ":" ++ scope.keyId.getD "master" ++ ":" ++ scope.scopeType.name ++ ":" ++
    scope.scopeValue

def Milestone.scope (fragments : String -> Option FragmentRow) (milestone : Milestone) :
    Option Scope :=
  scopeOf milestone.agentId milestone.keyId milestone.workspace
    ((fragments milestone.sourceFragmentId).bind FragmentRow.topic)

def State.scope (state : State) (event : EventId) : Option Scope :=
  state.events[event]?.bind (Milestone.scope state.fragments)

/-- `CACHE_TTL_MS` is read from the environment. -/
def cacheLastEvent (cacheTtlMs : Nat) (cache : Map String CacheEntry) (scopeKey : String)
    (eventId : EventId) (now : Nat) : Map String CacheEntry :=
  let placed :=
    (cache.delete scopeKey).set scopeKey { eventId := eventId, expiresAt := now + cacheTtlMs }
  if 1000 < placed.entries.length then
    match placed.entries with
    | [] => placed
    | oldest :: _ => placed.delete oldest.1
  else placed

def readCachedEvent (cache : Map String CacheEntry) (scopeKey : String) (now : Nat) :
    Option EventId × Map String CacheEntry :=
  match cache.get scopeKey with
  | none => (none, cache)
  | some entry =>
    if now > entry.expiresAt then (none, cache.delete scopeKey) else (some entry.eventId, cache)

def findFragment (state : State) (arguments : Arguments) : Option FragmentRow :=
  (state.fragments arguments.episodeFragmentId).filter fun row =>
    decide (row.agentId = arguments.agentId) && decide (row.keyId = arguments.keyId)

def idempotencyKeyOf (arguments : Arguments) : String :=
  "milestone:" ++ arguments.agentId ++ ":" ++ arguments.sessionId.getD "unknown" ++ ":" ++
    arguments.episodeFragmentId

def newMilestone (arguments : Arguments) (row : FragmentRow) (createdAt : Nat) : Milestone where
  summary := String.ofList (row.content.toList.take 200)
  sourceFragmentId := arguments.episodeFragmentId
  caseId := arguments.sessionId.getD "unknown"
  sessionId := arguments.sessionId
  idempotencyKey := idempotencyKeyOf arguments
  keyId := arguments.keyId
  agentId := row.agentId
  workspace := row.workspace
  createdAt := createdAt

/-- The rows `findLastMilestoneEventId` orders: those of the scope without the new one. -/
def isOther (state : State) (scope : Scope) (event other : EventId) : Bool :=
  decide (other ≠ event) && decide (state.scope other = some scope)

/-- `ORDER BY ce.created_at DESC LIMIT 1`, where equal times leave a choice. -/
def IsLast (state : State) (scope : Scope) (event : EventId) : Option EventId -> Prop
  | none => ∀ other, other < state.events.length -> isOther state scope event other = false
  | some found =>
    found < state.events.length /\ isOther state scope event found = true /\
      ∀ other, other < state.events.length -> isOther state scope event other = true ->
        (state.events[other]?.map Milestone.createdAt).getD 0 ≤
          (state.events[found]?.map Milestone.createdAt).getD 0

instance (state : State) (scope : Scope) (event : EventId) (found : Option EventId) :
    Decidable (IsLast state scope event found) := by
  cases found <;> unfold IsLast <;> infer_instance

inductive Label where
  | start (process : Nat) (arguments : Arguments)
  | read (call : Nat)
  | insert (call : Nat) (createdAt : Nat)
  | look (call : Nat) (now : Nat)
  | query (call : Nat) (found : Option EventId)
  | link (call : Nat)
  | cache (call : Nat) (now : Nat)
  | fail (call : Nat)
  | restart (process : Nat)

def State.call (state : State) (call : Nat) : Option Call := state.calls[call]?.join

def State.moveTo (state : State) (call : Nat) (process : Nat) (point : Point) : State :=
  { state with calls := state.calls.set call (some { process := process, point := point }) }

def State.finish (state : State) (call : Nat) : State :=
  { state with calls := state.calls.set call none }

/-- `INSERT ... ON CONFLICT (idempotency_key) DO NOTHING`, and on to the look-up. -/
def insertMilestone (state : State) (call process : Nat) (arguments : Arguments)
    (row : FragmentRow) (createdAt : Nat) : State :=
  if state.events.any fun old => decide (old.idempotencyKey = idempotencyKeyOf arguments) then
    state.finish call
  else
    let event := state.events.length
    let inserted :=
      { state with events := state.events ++ [newMilestone arguments row createdAt] }
    match scopeOf arguments.agentId arguments.keyId row.workspace row.topic with
    | none => inserted.finish call
    | some scope => inserted.moveTo call process (.looking event scope)

/-- The edge, if a milestone before the new one was found. -/
def goOnWith (state : State) (call process : Nat) (event : EventId) (scope : Scope)
    (previous : Option EventId) : State :=
  match previous with
  | none => state.moveTo call process (.caching event scope)
  | some previous =>
    if previous ≠ event then state.moveTo call process (.linking event scope previous)
    else state.moveTo call process (.caching event scope)

def lookUp (state : State) (call process : Nat) (event : EventId) (scope : Scope) (now : Nat) :
    State :=
  let found := readCachedEvent (state.caches process) scope.key now
  let read := { state with caches := Function.update state.caches process found.2 }
  match found.1 with
  | none => read.moveTo call process (.querying event scope)
  | some previous => goOnWith read call process event scope (some previous)

/-- `ON CONFLICT (from_event_id, to_event_id, edge_type) DO NOTHING` -/
def insertEdge (state : State) (previous event : EventId) : State :=
  if (previous, event) ∈ state.edges then state
  else { state with edges := state.edges ++ [(previous, event)] }

def step (cacheTtlMs : Nat) (state : State) : Label -> Option State
  | .start process arguments =>
    if arguments.episodeFragmentId = "" then some state
    else
      some { state with
        calls := state.calls ++ [some { process := process, point := .reading arguments }] }
  | .read call =>
    match state.call call with
    | some { process, point := .reading arguments } =>
      match findFragment state arguments with
      | none => some (state.finish call)
      | some row => some (state.moveTo call process (.inserting arguments row))
    | _ => none
  | .insert call createdAt =>
    match state.call call with
    | some { process, point := .inserting arguments row } =>
      some (insertMilestone state call process arguments row createdAt)
    | _ => none
  | .look call now =>
    match state.call call with
    | some { process, point := .looking event scope } =>
      some (lookUp state call process event scope now)
    | _ => none
  | .query call found =>
    match state.call call with
    | some { process, point := .querying event scope } =>
      if IsLast state scope event found then
        some (goOnWith state call process event scope found)
      else none
    | _ => none
  | .link call =>
    match state.call call with
    | some { process, point := .linking event scope previous } =>
      some ((insertEdge state previous event).moveTo call process (.caching event scope))
    | _ => none
  | .cache call now =>
    match state.call call with
    | some { process, point := .caching event scope } =>
      let cache := cacheLastEvent cacheTtlMs (state.caches process) scope.key event now
      some ({ state with caches := Function.update state.caches process cache }.finish call)
    | _ => none
  | .fail call =>
    match state.call call with
    | some _ => some (state.finish call)
    | none => none
  | .restart process =>
    some { state with
      caches := Function.update state.caches process Map.empty
      calls := state.calls.map fun call => call.filter fun call => call.process ≠ process }

/-- Any fragments, and no milestone yet. -/
structure Started (state : State) : Prop where
  events : state.events = []
  edges : state.edges = []
  caches : ∀ process, state.caches process = Map.empty
  calls : state.calls = []

def milestones (cacheTtlMs : Nat) : System State Label where
  start := Started
  step before label after := step cacheTtlMs before label = some after

end AnchorMind.Reflect.EpisodeContinuity
