import AnchorMind.Admin.ReviewDecisions
import AnchorMind.Text.Characters

/-!
# The filters of a search

`SearchScope` evaluates the filters of a query on a fragment at hand.  The database evaluates
the agent, the workspace, the validity and the review state on the row.
-/

namespace AnchorMind.Recall.Scopes

open Admin.ReviewDecisions (ReviewState)
open Text Text.Utf16

structure Fragment where
  content : String
  contentHash : Option String
  keyId : Option String
  agentId : Option String
  workspace : Option String
  source : Option String
  type : String
  topic : String
  caseId : Option String
  resolutionStatus : Option String
  phase : Option String
  affect : Option String
  isAnchor : Bool
  reviewState : Option ReviewState
  validTo : Option Int
  createdAt : Option Int
  mentionTime : Option Int
  eventTime : Option Int
  deriving DecidableEq

inductive TimeBasis where
  | created
  | event
  deriving DecidableEq

structure TimeRange where
  start : Option Int
  stop : Option Int
  basis : TimeBasis

/-- Who sees a held fragment: `REVIEW_VIEWER_NONE`, or a key, where the master has none. -/
inductive Viewer where
  | nobody
  | key (keyId : Option String)
  deriving DecidableEq

structure Query where
  agentId : String
  isMaster : Bool
  includePeerAgents : Bool
  keyId : Option (List String)
  viewerKeyId : Option Viewer
  workspace : Option String
  allWorkspaces : Bool
  readRange : Option (List String)
  includeSuperseded : Bool
  type : Option String
  topic : Option String
  caseId : Option String
  resolutionStatus : Option String
  phase : Option String
  affect : Option (List String)
  isAnchor : Option Bool
  timeRange : Option TimeRange

structure ScopeError where
  code : String
  message : String
  deriving DecidableEq

def agentIdTooLong : ScopeError where
  code := "INVALID_PARAMS"
  message := "agentId must contain at most 128 characters"

def peerReadsForbidden : ScopeError where
  code := "FORBIDDEN"
  message := "peer-agent reads are master-key only"

structure AgentScope where
  agentId : String
  includePeerAgents : Bool
  agentIds : Option (List String)

def effectiveAgentId (agentId : String) : String :=
  if Whitespace.trim agentId = "" then "default" else Whitespace.trim agentId

def agentScopeOf (agentId : String) (includePeerAgents : Bool) : AgentScope where
  agentId := effectiveAgentId agentId
  includePeerAgents := includePeerAgents
  agentIds :=
    if includePeerAgents then none else some [effectiveAgentId agentId, "default"].dedup

def resolveAgentScope (agentId : String) (includePeerAgents isMaster : Bool) :
    Except ScopeError AgentScope :=
  if 128 < utf16Length agentId then .error agentIdTooLong
  else if includePeerAgents = true /\ isMaster = false then .error peerReadsForbidden
  else .ok (agentScopeOf agentId includePeerAgents)

def isFragmentInAgentScope (fragment : Fragment) (scope : AgentScope) : Bool :=
  match fragment.agentId with
  | none => false
  | some agent =>
    agent ≠ "" &&
      match scope.agentIds with
      | none => true
      | some agents => agent ∈ agents

structure SearchScope where
  agents : Option AgentScope
  workspace : Option String
  allWorkspaces : Bool
  readRange : Option (List String)
  type : Option String
  topic : Option String
  caseId : Option String
  resolutionStatus : Option String
  phase : Option String
  affect : Option (List String)
  isAnchor : Option Bool
  timeRange : Option TimeRange

def boundedRange (range : TimeRange) : Bool := range.start.isSome || range.stop.isSome

def SearchScope.ofAgents (query : Query) (agents : AgentScope) : SearchScope where
  agents := some agents
  workspace := query.workspace
  allWorkspaces := query.allWorkspaces
  readRange := query.readRange
  type := query.type
  topic := query.topic
  caseId := query.caseId
  resolutionStatus := query.resolutionStatus
  phase := query.phase
  affect := query.affect
  isAnchor := query.isAnchor
  timeRange := query.timeRange.filter boundedRange

def SearchScope.fromQuery (query : Query) : Except ScopeError SearchScope :=
  (resolveAgentScope query.agentId query.includePeerAgents query.isMaster).map
    (SearchScope.ofAgents query)

def admits {Filter : Type*} (filter : Option Filter) (test : Filter -> Bool) : Bool :=
  match filter with
  | none => true
  | some value => test value

@[simp]
theorem admits_iff {Filter : Type*} {filter : Option Filter} {test : Filter -> Bool} :
    admits filter test = true <-> ∀ value ∈ filter, test value = true := by
  cases filter <;> simp [admits]

def isWorkspaceReadable (range : Option (List String)) (workspace : Option String) : Bool :=
  admits range fun readable => admits workspace fun name => name ∈ readable

def SearchScope.admitsWorkspace (scope : SearchScope) (fragment : Fragment) : Bool :=
  isWorkspaceReadable scope.readRange fragment.workspace &&
    (scope.allWorkspaces || fragment.workspace = scope.workspace || fragment.workspace = none)

def timeRangeValueMs (fragment : Fragment) : TimeBasis -> Option Int
  | .created => fragment.createdAt
  | .event => fragment.eventTime.or (fragment.mentionTime.or fragment.createdAt)

def inTimeRange (fragment : Fragment) (range : TimeRange) : Bool :=
  match timeRangeValueMs fragment range.basis with
  | none => false
  | some ms =>
    admits range.start (fun start => start ≤ ms) && admits range.stop (fun stop => ms < stop)

def SearchScope.applyTo (scope : SearchScope) (fragment : Fragment) : Bool :=
  admits scope.agents (isFragmentInAgentScope fragment) &&
  scope.admitsWorkspace fragment &&
  admits scope.caseId (fun caseId => fragment.caseId = some caseId) &&
  admits scope.resolutionStatus (fun status => fragment.resolutionStatus = some status) &&
  admits scope.phase (fun phase => fragment.phase = some phase) &&
  admits scope.affect (fun affects => fragment.affect.any fun affect => affect ∈ affects) &&
  admits scope.type (fun type => fragment.type = type) &&
  admits scope.topic (fun topic => fragment.topic = topic) &&
  admits scope.isAnchor (fun isAnchor => fragment.isAnchor = isAnchor) &&
  admits scope.timeRange (inTimeRange fragment)

def SearchScope.isNoop (scope : SearchScope) : Bool :=
  scope.agents.isNone && scope.allWorkspaces && scope.caseId.isNone &&
    scope.resolutionStatus.isNone && scope.phase.isNone && scope.affect.isNone &&
    scope.type.isNone && scope.topic.isNone && scope.isAnchor.isNone &&
    scope.readRange.isNone && scope.timeRange.isNone

def TimeRange.Covers (range : TimeRange) (fragment : Fragment) : Prop :=
  ∃ ms, timeRangeValueMs fragment range.basis = some ms /\
    (∀ start ∈ range.start, start ≤ ms) /\
    (∀ stop ∈ range.stop, ms < stop)

structure Filters (query : Query) (fragment : Fragment) : Prop where
  agent : ∃ agent, fragment.agentId = some agent /\ agent ≠ "" /\
    (query.includePeerAgents = true \/ agent = effectiveAgentId query.agentId \/
      agent = "default")
  workspace : query.allWorkspaces = true \/ fragment.workspace = query.workspace \/
    fragment.workspace = none
  readable : ∀ range ∈ query.readRange,
    ∀ name ∈ fragment.workspace, name ∈ range
  type : ∀ type ∈ query.type, fragment.type = type
  topic : ∀ topic ∈ query.topic, fragment.topic = topic
  caseId : ∀ caseId ∈ query.caseId, fragment.caseId = some caseId
  resolutionStatus : ∀ status ∈ query.resolutionStatus,
    fragment.resolutionStatus = some status
  phase : ∀ phase ∈ query.phase, fragment.phase = some phase
  affect : ∀ affects ∈ query.affect,
    ∃ affect, fragment.affect = some affect /\ affect ∈ affects
  isAnchor : ∀ isAnchor ∈ query.isAnchor, fragment.isAnchor = isAnchor
  timeRange : ∀ range ∈ query.timeRange, boundedRange range = true ->
    range.Covers fragment

variable {fragment : Fragment}

theorem inTimeRange_iff {range : TimeRange} :
    inTimeRange fragment range = true <-> range.Covers fragment := by
  unfold inTimeRange TimeRange.Covers
  cases timeRangeValueMs fragment range.basis <;> simp

theorem isWorkspaceReadable_iff {range : Option (List String)} {workspace : Option String} :
    isWorkspaceReadable range workspace = true <->
      ∀ readable ∈ range, ∀ name ∈ workspace, name ∈ readable := by
  simp [isWorkspaceReadable]

variable {scope : SearchScope}

theorem SearchScope.admitsWorkspace_iff :
    scope.admitsWorkspace fragment = true <->
      isWorkspaceReadable scope.readRange fragment.workspace = true /\
        (scope.allWorkspaces = true \/ fragment.workspace = scope.workspace \/
          fragment.workspace = none) := by
  simp [SearchScope.admitsWorkspace, or_assoc]

theorem isFragmentInAgentScope_iff {agentId : String} {includePeerAgents : Bool} :
    isFragmentInAgentScope fragment (agentScopeOf agentId includePeerAgents) = true <->
      ∃ agent, fragment.agentId = some agent /\ agent ≠ "" /\
        (includePeerAgents = true \/ agent = effectiveAgentId agentId \/ agent = "default") := by
  unfold isFragmentInAgentScope agentScopeOf
  cases fragment.agentId with
  | none => simp
  | some agent => cases includePeerAgents <;> simp

variable {query : Query}

theorem SearchScope.applyTo_ofAgents_iff :
    (SearchScope.ofAgents query (agentScopeOf query.agentId query.includePeerAgents)).applyTo
      fragment = true <-> Filters query fragment := by
  simp only [SearchScope.applyTo, SearchScope.admitsWorkspace_iff, SearchScope.ofAgents,
    Bool.and_eq_true, admits_iff, Option.mem_some_iff, forall_eq', Option.mem_filter_iff,
    isFragmentInAgentScope_iff, isWorkspaceReadable_iff, inTimeRange_iff,
    decide_eq_true_iff, Option.any_eq_true]
  constructor
  · rintro ⟨⟨⟨⟨⟨⟨⟨⟨⟨hagent, hreadable, hworkspace⟩, hcase⟩, hstatus⟩, hphase⟩, haffect⟩, htype⟩,
      htopic⟩, hanchor⟩, htime⟩
    exact {
      agent := hagent
      workspace := hworkspace
      readable := hreadable
      type := htype
      topic := htopic
      caseId := hcase
      resolutionStatus := hstatus
      phase := hphase
      affect := haffect
      isAnchor := hanchor
      timeRange := fun range hrange hbounded => htime range ⟨hrange, hbounded⟩ }
  · intro hfilters
    refine ⟨⟨⟨⟨⟨⟨⟨⟨⟨hfilters.agent, hfilters.readable, hfilters.workspace⟩,
      hfilters.caseId⟩, hfilters.resolutionStatus⟩, hfilters.phase⟩, hfilters.affect⟩,
      hfilters.type⟩, hfilters.topic⟩, hfilters.isAnchor⟩, ?_⟩
    intro range hrange
    exact hfilters.timeRange range hrange.1 hrange.2

instance (query : Query) (fragment : Fragment) : Decidable (Filters query fragment) :=
  decidable_of_iff _ SearchScope.applyTo_ofAgents_iff

theorem resolved_eq {agentId : String} {includePeerAgents isMaster : Bool} {scope : AgentScope}
    (hresolve : resolveAgentScope agentId includePeerAgents isMaster = .ok scope) :
    scope = agentScopeOf agentId includePeerAgents := by
  unfold resolveAgentScope at hresolve
  split at hresolve
  · cases hresolve
  · split at hresolve
    · cases hresolve
    · cases hresolve
      rfl

theorem SearchScope.applyTo_iff_filters (hscope : SearchScope.fromQuery query = .ok scope) :
    scope.applyTo fragment = true <-> Filters query fragment := by
  unfold SearchScope.fromQuery at hscope
  cases hresolve : resolveAgentScope query.agentId query.includePeerAgents query.isMaster with
  | error failure => rw [hresolve] at hscope; cases hscope
  | ok agents =>
    rw [hresolve] at hscope
    cases hscope
    rw [resolved_eq hresolve]
    exact SearchScope.applyTo_ofAgents_iff

theorem SearchScope.applyTo_of_isNoop (hnoop : scope.isNoop = true) (fragment : Fragment) :
    scope.applyTo fragment = true := by
  simp only [SearchScope.isNoop, Bool.and_eq_true, Option.isNone_iff_eq_none] at hnoop
  simp [SearchScope.applyTo, SearchScope.admitsWorkspace, isWorkspaceReadable, admits, hnoop]

def heldReviewStates : List ReviewState := [.pending, .rejected]

def isReviewHeld (fragment : Fragment) : Bool :=
  fragment.reviewState.any fun state => state ∈ heldReviewStates

def reviewViewer (query : Query) : Viewer :=
  match query.viewerKeyId with
  | some viewer => viewer
  | none =>
    match query.keyId with
    | some [keyId] => .key (some keyId)
    | _ => .key none

def reviewVisibility (query : Query) (fragment : Fragment) : Bool :=
  !isReviewHeld fragment || reviewViewer query = .key fragment.keyId

def wmFallbackSource : String := "wm-fallback"

def liveOrClosedCondition (closed : Bool) (fragment : Fragment) : Bool :=
  if closed then fragment.source ≠ some wmFallbackSource else fragment.validTo = none

def agentScopeCondition (query : Query) (fragment : Fragment) : Bool :=
  if query.includePeerAgents then fragment.agentId.isSome
  else fragment.agentId = some query.agentId || fragment.agentId = some "default"

def keyScopeClause (query : Query) (fragment : Fragment) : Bool :=
  admits query.keyId fun keys => fragment.keyId.any fun keyId => keyId ∈ keys

def workspaceCondition (query : Query) (fragment : Fragment) : Bool :=
  query.allWorkspaces || fragment.workspace = query.workspace || fragment.workspace = none

structure Meets (query : Query) (row : Fragment) : Prop where
  filters : Filters query row
  review : isReviewHeld row = true -> reviewViewer query = .key row.keyId
  live : query.includeSuperseded = false -> row.validTo = none
  memory : query.includeSuperseded = true -> row.source ≠ some wmFallbackSource

theorem reviewVisibility_iff :
    reviewVisibility query fragment = true <->
      (isReviewHeld fragment = true -> reviewViewer query = .key fragment.keyId) := by
  unfold reviewVisibility
  cases isReviewHeld fragment <;> simp

theorem meets_of {row : Fragment} (hfilters : Filters query row)
    (hreview : reviewVisibility query row = true)
    (hlive : liveOrClosedCondition query.includeSuperseded row = true) : Meets query row := by
  refine ⟨hfilters, reviewVisibility_iff.mp hreview, ?_, ?_⟩
  · intro hclosed
    simpa [liveOrClosedCondition, hclosed] using hlive
  · intro hclosed
    simpa [liveOrClosedCondition, hclosed] using hlive

end AnchorMind.Recall.Scopes
