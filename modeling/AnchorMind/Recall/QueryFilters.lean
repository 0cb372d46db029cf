import AnchorMind.Recall.Scopes

/-!
# The filters of a query in SQL and in its scope

Every reader turns the filters of a query into SQL conditions, and the scope of the query
evaluates them again on the rows that came back.  The conditions leave out a filter that is
empty; the scope leaves out one that is undefined.
-/

namespace AnchorMind.Recall.QueryFilters

open Text List
open Recall.Scopes (AgentScope ScopeError TimeBasis TimeRange agentScopeOf
  boundedRange effectiveAgentId resolveAgentScope)

inductive Given where
  | undefined
  | null
  | text (value : String)
  | texts (values : List String)
  deriving DecidableEq

inductive GivenAnchor where
  | absent
  | flag (value : Bool)
  | text (value : String)
  | other

structure Request where
  agentId : Option String
  isMaster : Bool
  includePeerAgents : Bool
  workspace : Option String
  allWorkspaces : Bool
  type : Given
  topic : Given
  caseId : Given
  resolutionStatus : Given
  phase : Given
  affect : Given
  isAnchor : GivenAnchor
  timeRange : Option TimeRange

structure Query where
  agentId : String
  isMaster : Bool
  includePeerAgents : Bool
  workspace : Option String
  allWorkspaces : Bool
  type : Given
  topic : Given
  caseId : Given
  resolutionStatus : Given
  phase : Given
  affect : Given
  isAnchor : Option Bool
  timeRange : Option TimeRange

/-- A stored row.  Its writer puts the default in for an agent that is empty, and its times
are microseconds. -/
structure Row where
  agentId : String
  agentId_ne : agentId ≠ ""
  workspace : Option String
  type : String
  topic : String
  caseId : Option String
  resolutionStatus : Option String
  phase : Option String
  affect : Option String
  isAnchor : Option Bool
  createdAt : Option Int
  mentionTime : Option Int
  eventTime : Option Int

def Given.truthy : Given -> Bool
  | .undefined => false
  | .null => false
  | .text value => value ≠ ""
  | .texts _ => true

def Given.orUndefined (given : Given) : Given := if given.truthy then given else .undefined

def invalidAnchor : ScopeError where
  code := "-32602"
  message := "isAnchor must be null, a boolean, or the string 'true'/'false'"

def normalizeIsAnchor : GivenAnchor -> Except ScopeError (Option Bool)
  | .absent => .ok none
  | .flag value => .ok (some value)
  | .text value =>
    let normalized := (Whitespace.trim value).toLower
    if normalized = "true" then .ok (some true)
    else if normalized = "false" then .ok (some false)
    else .error invalidAnchor
  | .other => .error invalidAnchor

def normalizeTopic : Given -> Given
  | .text value => (Given.text (Whitespace.trim value)).orUndefined
  | given => given

def queryAgentId (agentId : Option String) : String := (agentId.filter (· ≠ "")).getD "default"

def buildSearchQuery (request : Request) : Except ScopeError Query :=
  match normalizeIsAnchor request.isAnchor with
  | .error error => .error error
  | .ok isAnchor => .ok
      { agentId := queryAgentId request.agentId
        isMaster := request.isMaster
        includePeerAgents := request.includePeerAgents
        workspace := request.workspace
        allWorkspaces := request.allWorkspaces
        type := request.type
        topic := normalizeTopic request.topic
        caseId := request.caseId.orUndefined
        resolutionStatus := request.resolutionStatus.orUndefined
        phase := request.phase.orUndefined
        affect := request.affect.orUndefined
        isAnchor := isAnchor
        timeRange := request.timeRange }

/-- The text of an element in an array literal. -/
def quoted (value : String) : List Char :=
  '"' :: value.toList.flatMap (fun char =>
    if char = '\\' ∨ char = '"' then ['\\', char] else [char]) ++ ['"']

def arrayLiteral (values : List String) : String :=
  String.ofList ('\x7b' :: [','].intercalate (values.map quoted) ++ ['\x7d'])

def Given.bound : Given -> Option String
  | .text value => some value
  | .texts values => some (arrayLiteral values)
  | _ => none

/-- `column = $n`, which no null fulfils. -/
def equality (column : Row -> Option String) (given : Given) (row : Row) : Bool :=
  match given.bound with
  | none => false
  | some value => column row = some value

/-- The condition of the readers that test whether a value is truthy. -/
def whenTruthy (column : Row -> Option String) (given : Given) : List (Row -> Bool) :=
  if given.truthy then [equality column given] else []

/-- The condition of `fragmentFieldConditions`. -/
def equal (column : Row -> Option String) (given : Given) : List (Row -> Bool) :=
  if given = .undefined ∨ given = .null ∨ given = .text "" then [] else [equality column given]

def anyAffect (values : List String) (row : Row) : Bool := row.affect.any (· ∈ values)

def appendAffectCondition (affect : Given) : List (Row -> Bool) :=
  if affect.truthy then
    match affect with
    | .texts values => if values = [] then [] else [anyAffect values]
    | .text _ => [equality Row.affect affect]
    | _ => []
  else []

def affectFieldConditions (affect : Given) : List (Row -> Bool) :=
  match affect with
  | .texts values => if values = [] then [] else [anyAffect values]
  | .text _ => equal Row.affect affect
  | _ => []

/-- `a ?? undefined` -/
def Given.orElseUndefined : Given -> Given
  | .null => .undefined
  | given => given

def Row.timeColumn (row : Row) : TimeBasis -> Option Int
  | .created => row.createdAt
  | .event => row.eventTime.or (row.mentionTime.or row.createdAt)

def timeRangeConditions (timeRange : Option TimeRange) : List (Row -> Bool) :=
  match timeRange with
  | none => []
  | some range =>
    (range.start.toList.map fun start row =>
      (row.timeColumn range.basis).any fun time => start * 1000 ≤ time) ++
    range.stop.toList.map fun stop row =>
      (row.timeColumn range.basis).any fun time => time < stop * 1000

def workspaceCondition (query : Query) : List (Row -> Bool) :=
  if query.allWorkspaces then []
  else [fun row => row.workspace = query.workspace || row.workspace = none]

def anchorCondition (query : Query) : List (Row -> Bool) :=
  query.isAnchor.toList.map fun isAnchor row => row.isAnchor = some isAnchor

def agentScopeCondition (includePeerAgents : Bool) (agentId : String) (row : Row) : Bool :=
  includePeerAgents || row.agentId = agentId || row.agentId = "default"

/-- The readers that build conditions: over the columns alone, by vector, for the neighbours
of a graph, and by synthetic queries. -/
inductive Reader where
  | metadata
  | semantic
  | neighbours
  | synthetic
  deriving DecidableEq

def Reader.boundAgentId (query : Query) : Reader -> String
  | .synthetic => effectiveAgentId query.agentId
  | _ => query.agentId

/-- `type` and `topic` of the readers that test whether they are truthy. -/
def kindConditions (query : Query) : List (Row -> Bool) :=
  whenTruthy (fun row => some row.type) query.type ++
    whenTruthy (fun row => some row.topic) query.topic

def caseConditions (condition : (Row -> Option String) -> Given -> List (Row -> Bool))
    (query : Query) : List (Row -> Bool) :=
  condition Row.caseId query.caseId.orElseUndefined ++
    condition Row.resolutionStatus query.resolutionStatus.orElseUndefined ++
      condition Row.phase query.phase.orElseUndefined

def fragmentFieldConditions (query : Query) : List (Row -> Bool) :=
  equal (fun row => some row.type) query.type.orElseUndefined ++
    equal (fun row => some row.topic) query.topic.orElseUndefined ++
      caseConditions equal query ++ affectFieldConditions query.affect.orElseUndefined

def Reader.fieldConditions (query : Query) : Reader -> List (Row -> Bool)
  | .metadata =>
    kindConditions query ++ caseConditions whenTruthy query ++
      appendAffectCondition query.affect
  | .semantic =>
    kindConditions query ++ caseConditions equal query ++
      appendAffectCondition query.affect.orElseUndefined
  | .neighbours => fragmentFieldConditions query
  | .synthetic => fragmentFieldConditions query

def Reader.conditions (query : Query) (reader : Reader) : List (Row -> Bool) :=
  [agentScopeCondition query.includePeerAgents (reader.boundAgentId query)] ++
    (workspaceCondition query ++ anchorCondition query ++
      (reader.fieldConditions query ++ timeRangeConditions query.timeRange))

def Reader.returns (query : Query) (reader : Reader) (row : Row) : Bool :=
  (reader.conditions query).all fun condition => condition row

structure Scope where
  agents : AgentScope
  workspace : Option String
  allWorkspaces : Bool
  type : Given
  topic : Given
  caseId : Given
  resolutionStatus : Given
  phase : Given
  affectSet : Option (List String)
  isAnchor : Option Bool
  timeRange : Option TimeRange

def affectSetOf (affect : Given) : Option (List String) :=
  if affect.truthy then
    match affect with
    | .texts values => some values
    | .text value => some [value]
    | _ => none
  else none

def Scope.ofAgents (query : Query) (agents : AgentScope) : Scope where
  agents := agents
  workspace := query.workspace
  allWorkspaces := query.allWorkspaces
  type := query.type
  topic := query.topic
  caseId := query.caseId
  resolutionStatus := query.resolutionStatus
  phase := query.phase
  affectSet := affectSetOf query.affect
  isAnchor := query.isAnchor
  timeRange := query.timeRange.filter boundedRange

def Scope.fromQuery (query : Query) : Except ScopeError Scope :=
  (resolveAgentScope query.agentId query.includePeerAgents query.isMaster).map
    (Scope.ofAgents query)

def admitsField (given : Given) (column : Option String) : Bool :=
  match given with
  | .undefined => true
  | .null => column = none
  | .text value => column = some value
  | .texts _ => false

def admitsAgent (agents : AgentScope) (agentId : String) : Bool :=
  match agents.agentIds with
  | none => true
  | some agentIds => agentId ∈ agentIds

def milliseconds (time : Int) : Int := time / 1000

def admitsTime (timeRange : Option TimeRange) (row : Row) : Bool :=
  Scopes.admits timeRange fun range =>
    match (row.timeColumn range.basis).map milliseconds with
    | none => false
    | some ms =>
      Scopes.admits range.start (fun start => start ≤ ms) &&
        Scopes.admits range.stop (fun stop => ms < stop)

def admitsWorkspace (workspace : Option String) (allWorkspaces : Bool) (row : Row) : Bool :=
  allWorkspaces || row.workspace = workspace || row.workspace = none

def admitsAffect (affectSet : Option (List String)) (row : Row) : Bool :=
  Scopes.admits affectSet fun values => row.affect.any (· ∈ values)

def admitsAnchor (isAnchor : Option Bool) (row : Row) : Bool :=
  Scopes.admits isAnchor fun isAnchor => row.isAnchor = some isAnchor

def Scope.applyTo (scope : Scope) (row : Row) : Bool :=
  admitsAgent scope.agents row.agentId &&
  admitsWorkspace scope.workspace scope.allWorkspaces row &&
  admitsField scope.caseId row.caseId &&
  admitsField scope.resolutionStatus row.resolutionStatus &&
  admitsField scope.phase row.phase &&
  admitsAffect scope.affectSet row &&
  admitsField scope.type (some row.type) &&
  admitsField scope.topic (some row.topic) &&
  admitsAnchor scope.isAnchor row &&
  admitsTime scope.timeRange row

def wantsField (given : Given) (column : Option String) : Bool :=
  !given.truthy || decide (column = given.bound)

def wantsAffect (affect : Given) (column : Option String) : Bool :=
  match affect with
  | .texts values => values = [] || column.any (· ∈ values)
  | .text value => value = "" || column = some value
  | _ => true

def wantsFields (query : Query) (row : Row) : Bool :=
  wantsField query.type (some row.type) && wantsField query.topic (some row.topic) &&
    (wantsField query.caseId row.caseId && wantsField query.resolutionStatus row.resolutionStatus &&
      wantsField query.phase row.phase) && wantsAffect query.affect row.affect

theorem all_whenTruthy (column : Row -> Option String) (given : Given) (row : Row) :
    (whenTruthy column given).all (fun condition => condition row) =
      wantsField given (column row) := by
  rw [whenTruthy, wantsField]
  cases htruthy : given.truthy with
  | false => rfl
  | true =>
    rw [if_pos rfl, all_cons, all_nil, Bool.and_true, Bool.not_true, Bool.false_or]
    cases given with
    | undefined => cases htruthy
    | null => cases htruthy
    | text value => exact decide_eq_decide.mpr Iff.rfl
    | texts values => exact decide_eq_decide.mpr Iff.rfl

theorem equal_eq_whenTruthy : equal = whenTruthy := by
  funext column given
  cases given with
  | undefined => rfl
  | null => rfl
  | text value => by_cases hvalue : value = "" <;> simp [equal, whenTruthy, Given.truthy, hvalue]
  | texts values => rfl

@[simp]
theorem wantsField_orElseUndefined (given : Given) (column : Option String) :
    wantsField given.orElseUndefined column = wantsField given column := by
  cases given <;> rfl

@[simp]
theorem wantsAffect_orElseUndefined (affect : Given) (column : Option String) :
    wantsAffect affect.orElseUndefined column = wantsAffect affect column := by
  cases affect <;> rfl

theorem all_appendAffectCondition (affect : Given) (row : Row) :
    (appendAffectCondition affect).all (fun condition => condition row) =
      wantsAffect affect row.affect := by
  cases affect with
  | undefined => rfl
  | null => rfl
  | text value =>
    by_cases hvalue : value = "" <;>
      simp [appendAffectCondition, wantsAffect, Given.truthy, equality, Given.bound, hvalue]
  | texts values =>
    by_cases hvalues : values = [] <;>
      simp [appendAffectCondition, wantsAffect, Given.truthy, anyAffect, hvalues]

theorem affectFieldConditions_eq : affectFieldConditions = appendAffectCondition := by
  funext affect
  cases affect with
  | undefined => rfl
  | null => rfl
  | text value =>
    by_cases hvalue : value = "" <;>
      simp [affectFieldConditions, appendAffectCondition, equal, Given.truthy, hvalue]
  | texts values => rfl

theorem all_fieldConditions (query : Query) (reader : Reader) (row : Row) :
    (reader.fieldConditions query).all (fun condition => condition row) =
      wantsFields query row := by
  cases reader <;>
    simp only [Reader.fieldConditions, fragmentFieldConditions, kindConditions, caseConditions,
      equal_eq_whenTruthy, affectFieldConditions_eq, all_append, all_whenTruthy,
      all_appendAffectCondition, wantsField_orElseUndefined, wantsAffect_orElseUndefined,
      wantsFields]

theorem all_timeRangeConditions (timeRange : Option TimeRange) (row : Row) :
    (timeRangeConditions timeRange).all (fun condition => condition row) =
      admitsTime (timeRange.filter boundedRange) row := by
  cases timeRange with
  | none => rfl
  | some range =>
    obtain ⟨start, stop, basis⟩ := range
    have hstart : ∀ start time : Int, (start * 1000 ≤ time) = (start ≤ milliseconds time) :=
      fun start time => by rw [milliseconds, eq_iff_iff]; omega
    have hstop : ∀ stop time : Int, (time < stop * 1000) = (milliseconds time < stop) :=
      fun stop time => by rw [milliseconds, eq_iff_iff]; omega
    cases hcolumn : row.timeColumn basis <;> cases start <;> cases stop <;>
      simp [timeRangeConditions, admitsTime, boundedRange, Option.filter, Scopes.admits, hcolumn,
        hstart, hstop]

theorem returns_eq (query : Query) (reader : Reader) (row : Row) :
    reader.returns query row =
      (agentScopeCondition query.includePeerAgents (reader.boundAgentId query) row &&
        (admitsWorkspace query.workspace query.allWorkspaces row &&
          admitsAnchor query.isAnchor row &&
          (wantsFields query row && admitsTime (query.timeRange.filter boundedRange) row))) := by
  have hworkspace : (workspaceCondition query).all (fun condition => condition row) =
      admitsWorkspace query.workspace query.allWorkspaces row := by
    cases hall : query.allWorkspaces <;> simp [workspaceCondition, admitsWorkspace, hall]
  have hanchor : (anchorCondition query).all (fun condition => condition row) =
      admitsAnchor query.isAnchor row := by
    unfold anchorCondition
    cases query.isAnchor with
    | none => rfl
    | some isAnchor => exact Bool.and_true _
  simp only [Reader.returns, Reader.conditions, all_append, hworkspace, hanchor,
    all_fieldConditions, all_timeRangeConditions, all_cons, all_nil, Bool.and_true]

def Plain (given : Given) : Prop :=
  given = .undefined \/ ∃ value, value ≠ "" /\ given = .text value

structure Alike (query : Query) : Prop where
  agent : query.includePeerAgents = true \/ effectiveAgentId query.agentId = query.agentId
  type : Plain query.type
  topic : Plain query.topic
  caseId : Plain query.caseId
  resolutionStatus : Plain query.resolutionStatus
  phase : Plain query.phase
  affect : query.affect ≠ .texts []

def EmptyRange (timeRange : Option TimeRange) : Prop :=
  ∃ start stop basis, timeRange = some ⟨some start, some stop, basis⟩ /\ stop ≤ start

theorem wantsField_of_plain {given : Given} (hplain : Plain given) (column : Option String) :
    wantsField given column = admitsField given column := by
  rcases hplain with rfl | ⟨value, hvalue, rfl⟩
  · rfl
  · simp only [wantsField, Given.truthy, hvalue, ne_eq, not_false_eq_true, decide_true,
      Bool.not_true, Bool.false_or, Given.bound, admitsField]
    exact decide_eq_decide.mpr Iff.rfl

theorem wantsAffect_eq {affect : Given} (haffect : affect ≠ .texts []) (row : Row) :
    wantsAffect affect row.affect = admitsAffect (affectSetOf affect) row := by
  cases affect with
  | undefined => rfl
  | null => rfl
  | text value =>
    by_cases hvalue : value = ""
    · simp [wantsAffect, admitsAffect, affectSetOf, Given.truthy, Scopes.admits, hvalue]
    · cases hcolumn : row.affect <;>
        simp [wantsAffect, admitsAffect, affectSetOf, Given.truthy, Scopes.admits, hvalue,
          hcolumn]
  | texts values =>
    have hvalues : values ≠ [] := fun hnil => haffect (congrArg Given.texts hnil)
    simp [wantsAffect, admitsAffect, affectSetOf, Given.truthy, Scopes.admits, hvalues]

variable {query : Query}

theorem agentScopeCondition_eq (reader : Reader) (row : Row)
    (hagent : query.includePeerAgents = true \/ effectiveAgentId query.agentId = query.agentId) :
    agentScopeCondition query.includePeerAgents (reader.boundAgentId query) row =
      admitsAgent (agentScopeOf query.agentId query.includePeerAgents) row.agentId := by
  cases hpeers : query.includePeerAgents with
  | true => rfl
  | false =>
    have heffective : effectiveAgentId query.agentId = query.agentId := by
      rcases hagent with htrue | heffective
      · rw [hpeers] at htrue
        cases htrue
      · exact heffective
    have hbound : reader.boundAgentId query = query.agentId := by
      cases reader
      case synthetic => exact heffective
      all_goals rfl
    simp [agentScopeCondition, admitsAgent, agentScopeOf, hbound, heffective]

theorem returns_of_alike (halike : Alike query) (reader : Reader) (row : Row) :
    reader.returns query row =
      (Scope.ofAgents query
        (agentScopeOf query.agentId query.includePeerAgents)).applyTo row := by
  rw [returns_eq, agentScopeCondition_eq reader row halike.agent, wantsFields,
    wantsField_of_plain halike.type, wantsField_of_plain halike.topic,
    wantsField_of_plain halike.caseId, wantsField_of_plain halike.resolutionStatus,
    wantsField_of_plain halike.phase, wantsAffect_eq halike.affect]
  simp only [Scope.applyTo, Scope.ofAgents, Bool.and_assoc, Bool.and_comm, Bool.and_left_comm]

variable {timeRange : Option TimeRange}

theorem admitsTime_of_empty (hempty : EmptyRange timeRange) (row : Row) :
    admitsTime (timeRange.filter boundedRange) row = false := by
  obtain ⟨start, stop, basis, rfl, hle⟩ := hempty
  cases hcolumn : row.timeColumn basis with
  | none => simp [admitsTime, boundedRange, Option.filter, Scopes.admits, hcolumn]
  | some time =>
    simp only [admitsTime, boundedRange, Option.filter, Scopes.admits, hcolumn, Option.isSome_some,
      Bool.or_true, if_true, Option.map_some, Bool.and_eq_false_iff, decide_eq_false_iff_not]
    omega

theorem exists_time (hrange : ¬ EmptyRange timeRange) :
    ∃ time : Int, ∀ range ∈ timeRange,
      (∀ start ∈ range.start, start ≤ time) /\
        (∀ stop ∈ range.stop, time < stop) := by
  cases timeRange with
  | none => exact ⟨0, fun _ hmem => by cases hmem⟩
  | some range =>
    obtain ⟨start, stop, basis⟩ := range
    cases start with
    | none =>
      refine ⟨stop.elim 0 fun stop => stop - 1, fun range hmem => ?_⟩
      cases hmem
      refine ⟨fun _ hnone => (by cases hnone), fun last hlast => ?_⟩
      have hlast : stop = some last := hlast
      rw [hlast]
      exact Int.sub_one_lt_of_le (Int.le_refl last)
    | some start =>
      refine ⟨start, fun range hmem => ?_⟩
      cases hmem
      refine ⟨fun first hfirst => Int.le_of_eq (Option.some.inj hfirst).symm,
        fun last hlast => ?_⟩
      have hlast : stop = some last := hlast
      refine Int.not_le.mp fun hle => hrange ⟨start, last, basis, ?_, hle⟩
      rw [hlast]

/-- The value a filter asks for, or any. -/
def wanted (given : Given) : String := (if given.truthy then given.bound else none).getD "fact"

def wantedAffect : Given -> Option String
  | .text value => some value
  | .texts values => values.head?
  | _ => none

theorem wantsField_wanted (given : Given) : wantsField given (some (wanted given)) = true := by
  cases given with
  | undefined => rfl
  | null => rfl
  | text value =>
    by_cases hvalue : value = "" <;>
      simp [wantsField, wanted, Given.truthy, Given.bound, hvalue]
  | texts values => simp [wantsField, wanted, Given.truthy, Given.bound]

theorem wantsAffect_wanted (affect : Given) : wantsAffect affect (wantedAffect affect) = true := by
  cases affect with
  | undefined => rfl
  | null => rfl
  | text value => simp [wantsAffect, wantedAffect]
  | texts values =>
    cases values with
    | nil => rfl
    | cons first rest => simp [wantsAffect, wantedAffect]

theorem plain_of_admitsField {given : Given}
    (hadmits : admitsField given (some (wanted given)) = true) : Plain given := by
  cases given with
  | undefined => exact .inl rfl
  | null => exact absurd hadmits Bool.false_ne_true
  | text value =>
    refine .inr ⟨value, fun hempty => ?_, rfl⟩
    rw [hempty] at hadmits
    exact absurd hadmits (by decide)
  | texts values => exact absurd hadmits Bool.false_ne_true

def askedFor (query : Query) (hagent : query.agentId ≠ "") (time : Int) : Row where
  agentId := query.agentId
  agentId_ne := hagent
  workspace := none
  type := wanted query.type
  topic := wanted query.topic
  caseId := some (wanted query.caseId)
  resolutionStatus := some (wanted query.resolutionStatus)
  phase := some (wanted query.phase)
  affect := wantedAffect query.affect
  isAnchor := query.isAnchor
  createdAt := some (time * 1000)
  mentionTime := none
  eventTime := none

variable {time : Int} {hagent : query.agentId ≠ ""}

theorem admitsTime_askedFor
    (htime : ∀ range ∈ query.timeRange,
      (∀ start ∈ range.start, start ≤ time) /\
        (∀ stop ∈ range.stop, time < stop)) :
    admitsTime (query.timeRange.filter boundedRange) (askedFor query hagent time) = true := by
  rw [admitsTime, Scopes.admits_iff]
  intro range hrange
  obtain ⟨hstart, hstop⟩ := htime range (Option.mem_filter_iff.mp hrange).1
  have hcolumn : (askedFor query hagent time).timeColumn range.basis = some (time * 1000) := by
    cases range.basis <;> rfl
  have hms : milliseconds (time * 1000) = time := Int.mul_ediv_cancel time (by decide)
  simp only [hcolumn, Option.map_some, hms, Bool.and_eq_true, Scopes.admits_iff,
    decide_eq_true_iff]
  exact ⟨hstart, hstop⟩

theorem returns_askedFor (hagent : query.agentId ≠ "")
    (htime : ∀ range ∈ query.timeRange,
      (∀ start ∈ range.start, start ≤ time) /\
        (∀ stop ∈ range.stop, time < stop)) :
    Reader.metadata.returns query (askedFor query hagent time) = true := by
  have hworkspace : admitsWorkspace query.workspace query.allWorkspaces
      (askedFor query hagent time) = true := by
    simp [admitsWorkspace, askedFor]
  have hanchor : admitsAnchor query.isAnchor (askedFor query hagent time) = true := by
    cases hgiven : query.isAnchor <;> simp [admitsAnchor, Scopes.admits, askedFor, hgiven]
  have hfields : wantsFields query (askedFor query hagent time) = true := by
    simp only [wantsFields, askedFor, wantsField_wanted, wantsAffect_wanted, Bool.and_true]
  rw [returns_eq, hworkspace, hanchor, hfields, admitsTime_askedFor htime]
  simp [agentScopeCondition, Reader.boundAgentId, askedFor]

theorem alike_of_applyTo
    (happly : (Scope.ofAgents query (agentScopeOf query.agentId query.includePeerAgents)).applyTo
      (askedFor query hagent time) = true) : Alike query := by
  simp only [Scope.applyTo, Scope.ofAgents, Bool.and_eq_true] at happly
  obtain ⟨⟨⟨⟨⟨⟨⟨⟨⟨hadmits, -⟩, hcase⟩, hstatus⟩, hphase⟩, haffect⟩, htype⟩, htopic⟩, -⟩, -⟩ :=
    happly
  refine ⟨?_, plain_of_admitsField htype, plain_of_admitsField htopic,
    plain_of_admitsField hcase, plain_of_admitsField hstatus, plain_of_admitsField hphase, ?_⟩
  · cases hpeers : query.includePeerAgents with
    | true => exact .inl rfl
    | false =>
      have hmem : query.agentId = effectiveAgentId query.agentId \/ query.agentId = "default" := by
        simpa [admitsAgent, agentScopeOf, askedFor, hpeers] using hadmits
      refine .inr (hmem.elim Eq.symm fun hdefault => ?_)
      rw [hdefault]
      decide
  · intro hempty
    simp [admitsAffect, affectSetOf, hempty, Given.truthy, Scopes.admits, askedFor,
      wantedAffect] at haffect

/-- A caller gives no null and no empty text for a type, no null for a topic, a list for no
field but the affect, none that is empty there, and no agent with blanks around it. -/
structure Usual (request : Request) : Prop where
  agent : request.includePeerAgents = true \/
    effectiveAgentId (queryAgentId request.agentId) = queryAgentId request.agentId
  type : Plain request.type
  topic : request.topic ≠ .null /\ ∀ values, request.topic ≠ .texts values
  caseId : ∀ values, request.caseId ≠ .texts values
  resolutionStatus : ∀ values, request.resolutionStatus ≠ .texts values
  phase : ∀ values, request.phase ≠ .texts values
  affect : request.affect ≠ .texts []

theorem plain_orUndefined_iff (given : Given) :
    Plain given.orUndefined <-> ∀ values, given ≠ .texts values := by
  cases given with
  | undefined => exact iff_of_true (.inl rfl) (by simp)
  | null => exact iff_of_true (.inl rfl) (by simp)
  | text value =>
    refine iff_of_true ?_ (by simp)
    by_cases hvalue : value = ""
    · rw [hvalue]
      exact .inl rfl
    · exact .inr ⟨value, hvalue, if_pos (decide_eq_true hvalue)⟩
  | texts values =>
    refine iff_of_false ?_ fun hlist => hlist values rfl
    rintro (hundefined | ⟨value, -, htext⟩)
    · cases hundefined
    · cases htext

theorem plain_normalizeTopic_iff (given : Given) :
    Plain (normalizeTopic given) <-> given ≠ .null /\ ∀ values, given ≠ .texts values := by
  cases given with
  | undefined => exact iff_of_true (.inl rfl) (by simp)
  | null =>
    refine iff_of_false ?_ fun hgiven => hgiven.1 rfl
    rintro (hundefined | ⟨value, -, htext⟩)
    · cases hundefined
    · cases htext
  | text value =>
    rw [normalizeTopic, plain_orUndefined_iff]
    simp
  | texts values =>
    refine iff_of_false ?_ fun hgiven => hgiven.2 values rfl
    rintro (hundefined | ⟨value, -, htext⟩)
    · cases hundefined
    · cases htext

theorem orUndefined_ne_texts_nil_iff (given : Given) :
    given.orUndefined ≠ .texts [] <-> given ≠ .texts [] := by
  cases given with
  | undefined => exact Iff.rfl
  | null => exact iff_of_true (by decide) (by decide)
  | text value =>
    refine iff_of_true ?_ (by simp)
    unfold Given.orUndefined
    split <;> simp
  | texts values => exact Iff.rfl

theorem queryAgentId_ne (agentId : Option String) : queryAgentId agentId ≠ "" := by
  cases agentId with
  | none => decide
  | some agentId => by_cases hempty : agentId = "" <;> simp [queryAgentId, Option.filter, hempty]

variable {request : Request} {scope : Scope}

theorem query_of_build (hbuild : buildSearchQuery request = .ok query) :
    (Alike query <-> Usual request) /\ query.agentId ≠ "" /\
      query.timeRange = request.timeRange := by
  unfold buildSearchQuery at hbuild
  split at hbuild
  · cases hbuild
  · obtain rfl := Except.ok.inj hbuild
    refine ⟨⟨fun halike => ?_, fun husual => ?_⟩, queryAgentId_ne _, rfl⟩
    · exact ⟨halike.agent, halike.type, (plain_normalizeTopic_iff _).mp halike.topic,
        (plain_orUndefined_iff _).mp halike.caseId,
        (plain_orUndefined_iff _).mp halike.resolutionStatus,
        (plain_orUndefined_iff _).mp halike.phase,
        (orUndefined_ne_texts_nil_iff _).mp halike.affect⟩
    · exact ⟨husual.agent, husual.type, (plain_normalizeTopic_iff _).mpr husual.topic,
        (plain_orUndefined_iff _).mpr husual.caseId,
        (plain_orUndefined_iff _).mpr husual.resolutionStatus,
        (plain_orUndefined_iff _).mpr husual.phase,
        (orUndefined_ne_texts_nil_iff _).mpr husual.affect⟩

theorem scope_of_fromQuery (hscope : Scope.fromQuery query = .ok scope) :
    scope = Scope.ofAgents query (agentScopeOf query.agentId query.includePeerAgents) := by
  unfold Scope.fromQuery at hscope
  cases hresolve : resolveAgentScope query.agentId query.includePeerAgents query.isMaster with
  | error error =>
    rw [hresolve] at hscope
    cases hscope
  | ok agents =>
    rw [hresolve] at hscope
    rw [← Except.ok.inj hscope, Scopes.resolved_eq hresolve]

def nullType : Request where
  agentId := none
  isMaster := false
  includePeerAgents := false
  workspace := none
  allWorkspaces := false
  type := .null
  topic := .undefined
  caseId := .undefined
  resolutionStatus := .undefined
  phase := .undefined
  affect := .undefined
  isAnchor := .absent
  timeRange := none

def nullTypeQuery : Query where
  agentId := "default"
  isMaster := false
  includePeerAgents := false
  workspace := none
  allWorkspaces := false
  type := .null
  topic := .undefined
  caseId := .undefined
  resolutionStatus := .undefined
  phase := .undefined
  affect := .undefined
  isAnchor := none
  timeRange := none

def nullTypeScope : Scope := Scope.ofAgents nullTypeQuery (agentScopeOf "default" false)

def storedFact : Row where
  agentId := "default"
  agentId_ne := by decide
  workspace := none
  type := "fact"
  topic := "build"
  caseId := none
  resolutionStatus := none
  phase := none
  affect := none
  isAnchor := some false
  createdAt := some 1785542400000000
  mentionTime := none
  eventTime := none

end AnchorMind.Recall.QueryFilters
