import AnchorMind.Link.SessionGroups

/-!
# What a reflection writes and what it evicts

`ReflectProcessor.process` merges the caller's fields into the groups of the session, makes
fragments of them, hands these to the write step, and evicts the working-memory items of
every group that the write step did not mark for a retry.
-/

namespace AnchorMind.Reflect.ReflectGroups

open Link.SessionGroups Text.Utf16 Text.Whitespace

inductive Summary where
  | text (text : String)
  | list (texts : List String)

/-- An entry of the caller's `lessons`. -/
inductive LessonInput where
  | text (text : String)
  | record (cue lesson evidence confidence : Option String)

structure Params where
  sessionId : Option String
  agentId : Option String
  keyId : Option String
  workspace : Option String
  defaultWorkspace : Option String
  caseId : Option String
  summary : Option Summary
  decisions : List String
  errorsResolved : List String
  newProcedures : List String
  openQuestions : List String
  lessons : List LessonInput
  narrativeSummary : Option String

def Params.list (params : Params) : ListField -> List String
  | .decisions => params.decisions
  | .errorsResolved => params.errorsResolved
  | .errorsOpen => []
  | .newProcedures => params.newProcedures
  | .openQuestions => params.openQuestions

def Params.givenSummary (params : Params) : Option Summary :=
  match params.summary with
  | some (.text text) => if text = "" then none else some (.text text)
  | summary => summary

def Params.effectiveAgentId (params : Params) : String := (truthy params.agentId).getD "default"

structure ReflectGroup where
  workspace : Option String
  topic : Option String
  caseId : Option String
  summary : Option Summary
  lists : ListField -> List String
  lessons : List LessonInput

def manualHasContent (params : Params) : Bool :=
  params.givenSummary.isSome || (truthy params.narrativeSummary).isSome ||
    !params.decisions.isEmpty || !params.errorsResolved.isEmpty ||
    !params.newProcedures.isEmpty || !params.openQuestions.isEmpty || !params.lessons.isEmpty

def manualGroup (params : Params) : ReflectGroup where
  workspace := params.workspace
  topic := some "session_reflect"
  caseId := params.caseId
  summary := params.summary
  lists := params.list
  lessons := params.lessons

def primaryIdx (params : Params) (sessionGroups : List SessionGroup) : Option Nat :=
  sessionGroups.findIdx? fun group => group.workspace == params.workspace

def resolveGroup (params : Params) (isPrimary : Bool) (group : SessionGroup) : ReflectGroup where
  workspace := group.workspace
  topic := group.topic
  caseId := if isPrimary then group.caseId.or params.caseId else group.caseId
  summary := if isPrimary then params.givenSummary.or (group.summary.map .text)
    else group.summary.map .text
  lists := fun field =>
    if isPrimary && !(params.list field).isEmpty then params.list field else group.lists field
  lessons := if isPrimary then params.lessons else []

def resolveGroups (params : Params) (sessionGroups : Option (List SessionGroup)) :
    List ReflectGroup :=
  match sessionGroups with
  | none => [manualGroup params]
  | some [] => [manualGroup params]
  | some groups =>
    let primary := primaryIdx params groups
    let resolved := groups.mapIdx fun i group => resolveGroup params (primary == some i) group
    if primary.isNone && manualHasContent params then resolved ++ [manualGroup params]
    else resolved

def maxFragmentLength : Nat := 300

def maxEpisodeFragmentLength : Nat := 1000

def limitContentLength (content type : String) : String :=
  let maxLen := if type = "episode" then maxEpisodeFragmentLength else maxFragmentLength
  if utf16Length content ≤ maxLen then content
  else String.ofList (sliceUtf16 maxLen content.toList) ++ "..."

def urlOnly (content : String) : Bool :=
  ["http://", "https://"].any fun scheme =>
    scheme.toList.isPrefixOf content.toList &&
      !(content.toList.drop scheme.length).isEmpty &&
      (content.toList.drop scheme.length).all fun c => !isTrimmed c

def wordCount (content : String) : Nat :=
  ((content.toList.splitOnP isTrimmed).filter fun word => !word.isEmpty).length

/-- `validateContent` on a trimmed text with a type. -/
def validContent (content : String) : Bool :=
  !(decide (utf16Length content < 10) && decide (wordCount content < 3)) && !urlOnly content

/-- The arguments of `factory.create`, with the columns stamped on its result. -/
structure Request where
  content : String
  topic : String
  type : String
  importance : Rat
  resolutionStatus : Option String := none
  assertionStatus : String := "observed"
  contextSummary : Option String := none
  source : String
  agentId : String
  sessionId : Option String
  caseId : Option String
  keyId : Option String
  workspace : Option String
  category : String
  groupIndex : Nat

structure Fragment where
  content : String
  topic : String
  type : String
  importance : Rat
  resolutionStatus : Option String
  assertionStatus : String
  contextSummary : Option String
  source : String
  agentId : String
  sessionId : Option String
  caseId : Option String
  keyId : Option String
  workspace : Option String

structure WriteItem where
  fragment : Fragment
  category : String
  groupIndex : Nat

/-- `create` throws on other requests. -/
def Request.accepted (request : Request) : Bool :=
  trim request.content != "" && validContent (trim request.content)

section

variable (mask : String -> String)

/-- The content `create` gives a fragment. -/
def madeContent (content type : String) : String := limitContentLength (mask (trim content)) type

def Request.item (request : Request) : WriteItem where
  fragment :=
    { content := madeContent mask request.content request.type
      topic := if trim request.topic = "" then "general" else trim request.topic
      type := request.type
      importance := request.importance
      resolutionStatus := request.resolutionStatus
      assertionStatus := request.assertionStatus
      contextSummary := truthy request.contextSummary
      source := request.source
      agentId := request.agentId
      sessionId := truthy request.sessionId
      caseId := truthy request.caseId
      keyId := request.keyId
      workspace := request.workspace }
  category := request.category
  groupIndex := request.groupIndex

def reflectItemMinLen : Nat := 20

def reflectItemMinLenKor : Nat := 10

def metaPrefixes : List String := ["이것", "그것", "위", "이번", "해당", "재작성을 통해"]

/-- The characters of `[가-힣ㄱ-ㅎㅏ-ㅣ]`. -/
def isKorean (c : Char) : Bool :=
  (0xAC00 ≤ c.toNat && c.toNat ≤ 0xD7A3) || (0x3131 ≤ c.toNat && c.toNat ≤ 0x314E) ||
    (0x314F ≤ c.toNat && c.toNat ≤ 0x3163)

def isSelfContainedReflectItem (item : String) : Bool :=
  let text := trim item
  let minLen := if text.toList.any isKorean then reflectItemMinLenKor else reflectItemMinLen
  decide (minLen ≤ utf16Length text) &&
    !metaPrefixes.any fun mark => mark.toList.isPrefixOf text.toList

/-- A row of `REFLECT_CATEGORIES`. -/
structure CategorySpec where
  bucket : String
  type : String
  importance : Rat
  mark : Option String := none
  resolutionStatus : Option String := none

def spec : ListField -> CategorySpec
  | .decisions => { bucket := "decisions", type := "decision", importance := 7 / 10 }
  | .errorsResolved =>
    { bucket := "errors", type := "error", importance := 5 / 10, mark := some "[해결됨]",
      resolutionStatus := some "resolved" }
  | .errorsOpen =>
    { bucket := "errors", type := "error", importance := 7 / 10,
      resolutionStatus := some "open" }
  | .newProcedures => { bucket := "procedures", type := "procedure", importance := 7 / 10 }
  | .openQuestions =>
    { bucket := "questions", type := "fact", importance := 4 / 10, mark := some "[미해결]",
      resolutionStatus := some "open" }

def reflectCategories : List ListField :=
  [.decisions, .errorsResolved, .errorsOpen, .newProcedures, .openQuestions]

def baseRequest (params : Params) (group : ReflectGroup) (groupIndex : Nat)
    (category type content : String) (importance : Rat) : Request where
  content := content
  topic := (truthy group.topic).getD "session_reflect"
  type := type
  importance := importance
  source := "session:" ++ (truthy params.sessionId).getD "unknown"
  agentId := params.effectiveAgentId
  sessionId := params.sessionId
  caseId := group.caseId
  keyId := params.keyId
  workspace := (group.workspace.or params.workspace).or params.defaultWorkspace
  category := category
  groupIndex := groupIndex

def sentenceEnds : List Char := ['.', '!', '?', '。', '\n']

/-- `split(/(?<=[.!?。\n])\s+/)`: white space after a sentence end is a separator, and is
skipped to its end. -/
def splitAfterEnds : Bool -> List Char -> List Char -> List (List Char)
  | _, current, [] => [current.reverse]
  | skipping, current, c :: rest =>
    if skipping && isTrimmed c then splitAfterEnds true current rest
    else
      match current with
      | last :: _ =>
        if sentenceEnds.contains last && isTrimmed c then
          current.reverse :: splitAfterEnds true [] rest
        else splitAfterEnds false (c :: current) rest
      | [] => splitAfterEnds false [c] rest

def splitSentences (text : String) : List String :=
  ((splitAfterEnds false [] text.toList).map fun piece => trim (String.ofList piece)).filter
    fun piece => piece ≠ ""

/-- The loop of `splitAndCreate`: sentences are joined while they fit. -/
def packSentences : String -> List String -> List String
  | buffer, [] => if trim buffer = "" then [] else [trim buffer]
  | buffer, sentence :: rest =>
    if maxFragmentLength < utf16Length (trim (buffer ++ " " ++ sentence)) ∧ buffer ≠ "" then
      trim buffer :: packSentences sentence rest
    else packSentences (if buffer = "" then sentence else buffer ++ " " ++ sentence) rest

def summaryPieces (text : String) : List String := packSentences "" (splitSentences text)

def summaryContents : Summary -> List String
  | .text text => (summaryPieces text).map fun piece => madeContent mask piece "fact"
  | .list texts => texts.filter fun text => trim text ≠ ""

/-- `splitAndCreate` throws unless every piece is accepted. -/
def splitAccepted : Option Summary -> Bool
  | some (.text text) =>
    (summaryPieces text).all fun piece => trim piece != "" && validContent (trim piece)
  | _ => true

def ReflectGroup.givenSummary (group : ReflectGroup) : Option Summary :=
  match group.summary with
  | some (.text text) => if text = "" then none else some (.text text)
  | summary => summary

def summaryRequest (params : Params) (group : ReflectGroup) (groupIndex : Nat)
    (content : String) : Request :=
  baseRequest params group groupIndex "summary" "fact" content (5 / 10)

def buildSummaryItems (params : Params) (group : ReflectGroup) (groupIndex : Nat) :
    List Request :=
  match group.givenSummary with
  | none => []
  | some summary => (summaryContents mask summary).map (summaryRequest params group groupIndex)

def categoryContent (field : ListField) (text : String) : String :=
  match (spec field).mark with
  | some mark => mark ++ " " ++ trim text
  | none => trim text

def categoryRequest (params : Params) (group : ReflectGroup) (groupIndex : Nat)
    (field : ListField) (text : String) : Request :=
  { baseRequest params group groupIndex (spec field).bucket (spec field).type
      (categoryContent field text) (spec field).importance with
    resolutionStatus := (spec field).resolutionStatus }

def buildCategoryItems (params : Params) (group : ReflectGroup) (groupIndex : Nat)
    (field : ListField) : List Request :=
  ((group.lists field).filter isSelfContainedReflectItem).map
    (categoryRequest params group groupIndex field)

structure Lesson where
  cue : String
  lesson : String
  evidence : String
  confidence : String

def cueMaxChars : Nat := 300

def normalizeLesson : LessonInput -> Option Lesson
  | .text _ => none
  | .record cue lesson evidence confidence =>
    let cue := String.ofList (sliceUtf16 cueMaxChars (trim (cue.getD "")).toList)
    let lesson := trim (lesson.getD "")
    let evidence := trim (evidence.getD "")
    if cue = "" ∨ lesson = "" ∨ evidence = "" then none
    else some
      { cue := cue
        lesson := lesson
        evidence := evidence
        confidence :=
          match confidence with
          | some level => if level ∈ ["high", "medium", "low"] then level else "medium"
          | none => "medium" }

/-- `LESSON_CONFIDENCE` -/
def lessonImportance (confidence : String) : Rat :=
  if confidence = "high" then 8 / 10 else if confidence = "medium" then 7 / 10 else 6 / 10

def lessonAssertionStatus (confidence : String) : String :=
  if confidence = "low" then "inferred" else "observed"

def lessonContextSummary (lesson : Lesson) : String :=
  "상황: " ++ lesson.cue ++ "\n근거: " ++ lesson.evidence ++ "\n확신도: " ++ lesson.confidence

def lessonRequest (params : Params) (group : ReflectGroup) (groupIndex : Nat) (lesson : Lesson) :
    Request :=
  { baseRequest params group groupIndex "lessons" "procedure" lesson.lesson
      (lessonImportance lesson.confidence) with
    assertionStatus := lessonAssertionStatus lesson.confidence
    contextSummary := some (lessonContextSummary lesson) }

def buildLessonItems (params : Params) (group : ReflectGroup) (groupIndex : Nat) : List Request :=
  ((group.lessons.filterMap normalizeLesson).filter
    fun lesson => isSelfContainedReflectItem lesson.lesson).map
      (lessonRequest params group groupIndex)

def groupRequests (params : Params) (groupIndex : Nat) (group : ReflectGroup) : List Request :=
  buildSummaryItems mask params group groupIndex ++
    reflectCategories.flatMap (buildCategoryItems params group groupIndex) ++
    buildLessonItems params group groupIndex

def allRequests (params : Params) (groups : List ReflectGroup) : List Request :=
  (groups.mapIdx (groupRequests mask params)).flatten

/-- `_collectFragmentItems`; `none` when a fragment cannot be made. -/
def collectFragmentItems (params : Params) (groups : List ReflectGroup) :
    Option (List WriteItem) :=
  if (groups.all fun group => splitAccepted group.givenSummary) &&
      (allRequests mask params groups).all Request.accepted then
    some ((allRequests mask params groups).map (Request.item mask))
  else none

end

inductive Cause where
  /-- The input or the policy refuses the content. -/
  | refused
  /-- The gate could not look up what it decides by, and refused. -/
  | lookupFailed
  | overQuota
  /-- The insert or the indexing threw. -/
  | storeFailed
  deriving DecidableEq

inductive Outcome where
  | stored (id : String)
  | failed (cause : Cause) (message : String)

/-- Whether a retry can end otherwise. -/
def Cause.retryable : Cause -> Bool
  | .refused => false
  | _ => true

def Outcome.retryable : Outcome -> Bool
  | .stored _ => false
  | .failed cause _ => cause.retryable

/-- The `error` of a batch result. -/
def batchError : Cause -> String -> String
  | .overQuota, _ => "fragment_limit_exceeded"
  | _, message => message

/-- The gate refuses with `WriteInputError` or `SymbolicPolicyViolationError`, also when a
lookup failed. -/
def permanent : Cause -> Bool
  | .refused => true
  | .lookupFailed => true
  | _ => false

/-- Whether `markRetry` is called for a write. -/
def marks (batch : Bool) : Outcome -> Bool
  | .stored _ => false
  | .failed cause message =>
    if batch then batchError cause message == "fragment_limit_exceeded" else !permanent cause

def maxBatch : Nat := 200

/-- `_assertBatchAcceptable` -/
def batchAcceptable (maxTotalChars : Nat) (items : List WriteItem) : Bool :=
  decide (items.length ≤ maxBatch) &&
    decide ((items.map fun item => utf16Length item.fragment.content).sum ≤ maxTotalChars)

structure Call where
  /-- `maskSensitiveText` -/
  mask : String -> String
  params : Params
  /-- The stored fragments of the session. -/
  rows : List StoredRow
  /-- The working memory as it was read. -/
  workingMemory : List WmItem
  /-- Whether a `batchRememberProcessor` is injected. -/
  batch : Bool
  maxTotalChars : Nat
  /-- What becomes of each write, by its position. -/
  outcomes : Nat -> Outcome
  /-- Whether the write step as a whole returns. -/
  persistReturns : Bool
  /-- Whether the steps between the write and the eviction return. -/
  laterReturns : Bool

namespace Call

variable (call : Call)

def scopedItems : List WmItem :=
  scopeWorkingMemoryItems call.workingMemory call.params.effectiveAgentId call.params.keyId

def sessionGroups : Option (List SessionGroup) :=
  (truthy call.params.sessionId).bind fun sessionId =>
    consolidateSessionFragments sessionId call.rows call.scopedItems

def groups : List ReflectGroup := resolveGroups call.params call.sessionGroups

/-- `_persistFragmentItems` returns: nothing to write, or the write step returns. -/
def persists (items : List WriteItem) : Bool :=
  items.isEmpty ||
    (call.persistReturns && (!call.batch || batchAcceptable call.maxTotalChars items))

/-- The groups `markRetry` was called for. -/
def retryGroups (items : List WriteItem) : List Nat :=
  (items.zipIdx.filter fun entry => marks call.batch (call.outcomes entry.2)).map
    fun entry => entry.1.groupIndex

/-- `_evictConsumedWorkingMemory`: the ids that are evicted. -/
def consumed (retryGroups : List Nat) : List String :=
  match call.sessionGroups with
  | none => []
  | some groups =>
    ((groups.zipIdx.filter fun entry => !retryGroups.contains entry.2).flatMap
      fun entry => entry.1.wmItemIds).eraseDups

/-- `resolveAgentScope` throws on a longer agent. -/
def scopeResolves : Bool :=
  (truthy call.params.sessionId).isNone ||
    decide (utf16Length call.params.effectiveAgentId ≤ 128)

/-- `process`, as far as the eviction; `none` when a step throws. -/
def process : Option (List String) :=
  if call.scopeResolves then
    (collectFragmentItems call.mask call.params call.groups).bind fun items =>
      if call.persists items && call.laterReturns then
        some (call.consumed (call.retryGroups items))
      else none
  else none

def evictedIds : List String := call.process.getD []

end Call

end AnchorMind.Reflect.ReflectGroups
