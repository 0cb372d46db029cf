import AnchorMind.Text.Objects

/-!
# States of the write gate

What the steps of the gate hand on: the values of a write, the row they are laid over, the
fragment that would be written, the caller, and the violations found so far.  The rules and
lookups the gate is given are functions that may fail.
-/

namespace AnchorMind.Write.GateState

open Text.Objects

/-- An object of the source.  A property it does not have is `none`, an undefined one
`some none`. -/
structure Row where
  get : String -> Option (Option Value)

namespace Row

def empty : Row where
  get _ := none

/-- `Object.hasOwn(row, name)` -/
def has (row : Row) (name : String) : Bool := (row.get name).isSome

/-- `row[name]` -/
def read (row : Row) (name : String) : Option Value := (row.get name).join

def set (row : Row) (name : String) (value : Value) : Row where
  get := Function.update row.get name (some (some value))

/-- `const { [name]: _dropped, ...rest } = row` -/
def drop (row : Row) (name : String) : Row where
  get := Function.update row.get name none

/-- `{ ...base, ...values }` -/
def laidOver (values base : Row) : Row where
  get name := (values.get name).or (base.get name)

@[simp]
theorem read_set_self (row : Row) (name : String) (value : Value) :
    (row.set name value).read name = some value := by
  simp [read, set]

theorem read_set_of_ne (row : Row) {name other : String} (hne : other ≠ name) (value : Value) :
    (row.set name value).read other = row.read other := by
  simp [read, set, hne]

@[simp]
theorem read_drop_self (row : Row) (name : String) : (row.drop name).read name = none := by
  simp [read, drop]

end Row

/-- `first ?? second` -/
def nullish (first second : Option Value) : Option Value :=
  if isNullish first then second else first

/-- `row.is_anchor === true` -/
def marksAnchor (row : Row) : Bool := isTrue (row.read "is_anchor")

structure Violation where
  rule : String
  severity : String
  detail : Value

/-- `String(violation)` where the rule has no name. -/
def ruleName (violation : Violation) : String :=
  if violation.rule = "" then "[object Object]" else violation.rule

def Violation.toValue (violation : Violation) : Value :=
  .object [("rule", .string violation.rule), ("severity", .string violation.severity),
    ("detail", violation.detail), ("ruleVersion", .string "v1")]

inductive Op where
  | create
  | update
  deriving DecidableEq

inductive Mode where
  | production
  | dryRun
  deriving DecidableEq

structure Context where
  keyId : Option String
  isMaster : Bool
  clientName : Option Value
  trustCap : Option Value
  reviewMode : Option Value

inductive AnchorChange where
  | set
  | clear
  deriving DecidableEq

structure AnchorVerdict where
  change : AnchorChange
  granted : Bool
  reason : String

/-- `draft` stays empty until it is built. -/
structure State where
  entry : String
  op : Op
  mode : Mode
  base : Option Row
  fields : Row
  rawKeywords : Option (List Value)
  draft : Row
  ctx : Context
  violations : List Violation
  anchor : Option AnchorVerdict
  review : Option (List String)

def withViolations (state : State) (violations : List Violation) : State :=
  { state with violations := state.violations ++ violations }

/-- A write that the gate does not let through. -/
inductive Refusal where
  | input (message : String) (code : Option Int)
  | thrown (message : String)
  | policy (violations : List Violation)

inductive ScanMode where
  | off
  | mask
  | reject
  deriving DecidableEq

inductive PermissionMode where
  | off
  | warn
  | enforce
  deriving DecidableEq

inductive BudgetMode where
  | off
  | warn
  | reject
  deriving DecidableEq

/-- What a key may do with anchors, as far as the lookup told. -/
structure AnchorState where
  permissions : Option (List String)
  anchorCount : Option Nat

structure Injected where
  id : String
  importance : Rat
  tokens : Nat

structure Hit where
  id : String
  severity : String

structure Cut where
  value : String
  truncated : Bool
  originalLength : Nat
  storedLength : Nat

/-- The functions of other modules on texts and numbers.  Nothing is assumed of them. -/
structure Texts where
  validateContentInput : Option Value -> Except Refusal Unit
  trim : String -> String
  validateContent : String -> Option Value -> Option Value -> Except String Unit
  keywordText : Value -> Value
  normalizeKeywords : List Value -> Except Refusal (List Value)
  scanText : (foldCase legacyOnly : Bool) -> String -> String × List Hit
  truncateContent : String -> Option Value -> Cut
  matchInstructionOverride : String -> List String
  sanitizeClientName : Option Value -> Option String
  numberOf : Option Value -> Option Rat
  tokensOf : Row -> Nat

structure Gate where
  texts : Texts
  enabled : Bool
  /-- Whether the steps of `RESTORE_STEPS` replace their defaults. -/
  restore : Bool
  policyRules : Row -> Except String (List Violation)
  policyGating : Bool
  getHardGate : String -> Except String Bool
  checkWorkspaceAllowed : Option String -> Value -> Except String (Option Violation)
  workspaceGateEnforced : Bool
  getAnchorState : String -> Except String (Option AnchorState)
  permissionMode : PermissionMode
  anchorLimit : Nat
  loadInjectedAnchors :
    Option ((keyId workspace : Value) -> (limit : Nat) -> Except String (List Injected))
  contextAnchorTokenBudget : Int
  anchorTokenBudgetMode : BudgetMode
  maxAnchorFragments : Nat
  scanMode : ScanMode
  provenance : Bool
  reviewQueue : Bool

/-- `sensitiveScanMode` of the dependencies: without the gate the scan is off. -/
def Gate.sensitiveScanMode (gate : Gate) : ScanMode := if gate.enabled then gate.scanMode else .off

end AnchorMind.Write.GateState

/-!
# Steps of the write gate

The content steps change the values of a write; the verdict steps read the fragment that
would be written and collect violations.  Each step is a function of the state alone, and
none of them reads the mode.
-/

namespace AnchorMind.Write.GateSteps

open Text.Objects Write.GateState

def normalizedContent (texts : Texts) (fields : Row) (checkQuality : Bool) :
    Except Refusal Row := do
  let given := fields.read "content"
  if isNullish given = false /\ asString given = none then
    throw (.input "content must be a string" (some (-32602)))
  let content := texts.trim ((asString given).getD "")
  if content = "" then
    throw (.input "Fragment content is required" none)
  if checkQuality then
    match texts.validateContent content (fields.read "type") (fields.read "topic") with
    | .error reason => throw (.input reason none)
    | .ok _ => pure ()
  pure (fields.set "content" (.string content))

def normalizedKeywords (texts : Texts) (fields : Row) :
    Except Refusal (Row × Option (List Value)) :=
  match fields.read "keywords" with
  | some (.array keywords) =>
    (texts.normalizeKeywords keywords).map fun normalized =>
      (fields.set "keywords" (.array normalized), some keywords)
  | _ => .ok (fields, none)

def normalizedFields (texts : Texts) (op : Op) (fields : Row) (checkQuality : Bool) :
    Except Refusal (Row × Option (List Value)) := do
  texts.validateContentInput (fields.read "content")
  match op with
  | .create => normalizedKeywords texts (<- normalizedContent texts fields checkQuality)
  | .update => normalizedKeywords texts fields

def normalizeFields (gate : Gate) (state : State) (checkQuality : Bool) : Except Refusal State :=
  (normalizedFields gate.texts state.op state.fields checkQuality).map fun normalized =>
    { state with fields := normalized.1, rawKeywords := normalized.2 }

/-- `normalizeStep`, or `restoreNormalizeStep` for a gate that restores. -/
def normalizeStep (gate : Gate) (state : State) : Except Refusal State :=
  normalizeFields gate state (!gate.restore)

def textFields : Op -> List String
  | .create => ["content", "topic", "contextSummary", "goal", "outcome"]
  | .update => ["content", "topic", "context_summary", "goal", "outcome"]

structure Finding where
  rule : String
  severity : String
  fields : List String

def note (name : String) (found : List Finding) (hit : Hit) : List Finding :=
  if found.any (·.rule = hit.id) then
    found.map fun finding =>
      if finding.rule = hit.id /\ name ∉ finding.fields then
        { finding with fields := finding.fields ++ [name] }
      else finding
  else found ++ [{ rule := hit.id, severity := hit.severity, fields := [name] }]

structure Scan where
  fields : Row
  findings : List Finding

def scanTextField (texts : Texts) (given : Row) (scan : Scan) (name : String) : Scan :=
  match asString (given.read name) with
  | none => scan
  | some text =>
    let (masked, hits) := texts.scanText false false text
    if hits = [] then scan
    else
      { fields := scan.fields.set name (.string masked)
        findings := hits.foldl (note name) scan.findings }

def scanItem (texts : Texts) (foldCase : Bool) (item : Value) : Value × List Hit :=
  match item with
  | .string text =>
    let (masked, hits) := texts.scanText foldCase false text
    (.string masked, hits)
  | other => (other, [])

def scanKeywords (texts : Texts) (foldCase : Bool) (given : Row) (scan : Scan) : Scan :=
  match given.read "keywords" with
  | some (.array items) =>
    let scanned := items.map (scanItem texts foldCase)
    { fields := scan.fields.set "keywords" (.array (scanned.map Prod.fst))
      findings := (scanned.flatMap Prod.snd).foldl (note "keywords") scan.findings }
  | _ => scan

def scanFields (texts : Texts) (op : Op) (given : Row) (foldCase : Bool) : Scan :=
  scanKeywords texts foldCase given
    ((textFields op).foldl (scanTextField texts given) { fields := given, findings := [] })

def sensitiveRulePrefix : String := "sensitive."

def sensitiveViolation (finding : Finding) : Violation where
  rule := sensitiveRulePrefix ++ finding.rule
  severity := finding.severity
  detail := .string ("fields: " ++ ", ".intercalate finding.fields)

def legacyScanned (texts : Texts) (fields : Row) : Row :=
  match asString (fields.read "content") with
  | none => fields
  | some content => fields.set "content" (.string (texts.scanText false true content).1)

def scanned (gate : Gate) (op : Op) (fields : Row) (rawKeywords : Option (List Value)) :
    Except Refusal (Row × List Violation) :=
  let given :=
    match rawKeywords with
    | none => fields
    | some raw => fields.set "keywords" (.array (raw.map gate.texts.keywordText))
  let scan := scanFields gate.texts op given rawKeywords.isNone
  if scan.findings = [] then .ok (fields, [])
  else
    let warned := (scan.findings.filter (·.severity ≠ "low")).map sensitiveViolation
    match rawKeywords, scan.fields.read "keywords" with
    | some _, some (.array masked) =>
      (gate.texts.normalizeKeywords masked).map fun keywords =>
        (scan.fields.set "keywords" (.array keywords), warned)
    | _, _ => .ok (scan.fields, warned)

def sensitiveStep (gate : Gate) (state : State) : Except Refusal State :=
  if gate.sensitiveScanMode = .off then
    .ok { state with fields := legacyScanned gate.texts state.fields }
  else
    (scanned gate state.op state.fields state.rawKeywords).map fun result =>
      withViolations { state with fields := result.1 } result.2

def contentTruncatedRule : String := "contentTruncated"

def truncatedViolation (cut : Cut) : Violation where
  rule := contentTruncatedRule
  severity := "low"
  detail := .object [("original_length", .number (.finite cut.originalLength)),
    ("stored_length", .number (.finite cut.storedLength))]

def cutContent (texts : Texts) (base : Option Row) (fields : Row) : Row × List Violation :=
  match asString (fields.read "content") with
  | none => (fields, [])
  | some content =>
    let type := nullish (fields.read "type") (base.bind (·.read "type"))
    let cut := texts.truncateContent content type
    (fields.set "content" (.string cut.value),
      if cut.truncated then [truncatedViolation cut] else [])

/-- `lengthStep`, which a gate that restores passes by. -/
def lengthStep (gate : Gate) (state : State) : Except Refusal State :=
  if gate.restore then .ok state
  else
    let cut := cutContent gate.texts state.base state.fields
    .ok (withViolations { state with fields := cut.1 } cut.2)

def policyCheckFailed : Violation where
  rule := "policyCheckFailed"
  severity := "high"
  detail := .string "policy rules evaluation failed"

def evaluatePolicy (gate : Gate) (fragment : Row) : List Violation :=
  match gate.policyRules fragment with
  | .ok violations => violations
  | .error _ => [policyCheckFailed]

def policyViolations (gate : Gate) (op : Op) (base : Option Row) (draft : Row) : List Violation :=
  let violations := evaluatePolicy gate draft
  match op, base with
  | .create, _ => violations
  | .update, none => violations
  | .update, some row =>
    let before := (evaluatePolicy gate row).map ruleName
    violations.filter fun violation => ruleName violation ∉ before

def policyStep (gate : Gate) (state : State) : Except Refusal State :=
  if gate.policyGating then
    .ok (withViolations state (policyViolations gate state.op state.base state.draft))
  else .ok state

def workspaceLookupFailed : Violation where
  rule := "workspaceLookupFailed"
  severity := "high"
  detail := .string "workspace 허가 판정에 실패했다"

def workspaceViolations (gate : Gate) (keyId : Option String) (draft : Row) : List Violation :=
  let workspace := orElse (draft.read "workspace") .null
  match gate.checkWorkspaceAllowed keyId workspace with
  | .ok violation => violation.toList
  | .error _ => if truthy (some workspace) then [workspaceLookupFailed] else []

def workspaceStep (gate : Gate) (state : State) : Except Refusal State :=
  if state.op = .update /\ state.fields.has "workspace" = false then .ok state
  else .ok (withViolations state (workspaceViolations gate state.ctx.keyId state.draft))

def anchorRequestEntries : List String := ["remember", "amend", "batch_remember"]

def anchorChange (state : State) : Option AnchorChange :=
  match state.op with
  | .create => if marksAnchor state.draft then some .set else none
  | .update =>
    if state.fields.has "is_anchor" then
      match marksAnchor state.fields, state.base.any marksAnchor with
      | true, false => some .set
      | false, true => some .clear
      | _, _ => none
    else none

structure AnchorDecision where
  granted : Bool
  reason : String

def hasAnchorPermission (permissions : List String) : Bool :=
  permissions.contains "anchor" || permissions.contains "admin"

def decideAnchor (permissions : List String) (anchorCount limit : Nat) : AnchorDecision :=
  if hasAnchorPermission permissions = false then { granted := false, reason := "permission" }
  else if limit ≤ anchorCount then { granted := false, reason := "limit" }
  else { granted := true, reason := "permitted" }

def judgeAnchorRequest (gate : Gate) (ctx : Context) : AnchorDecision :=
  match ctx.isMaster, ctx.keyId with
  | true, _ => { granted := true, reason := "master" }
  | false, none => { granted := true, reason := "master" }
  | false, some keyId =>
    match gate.getAnchorState keyId with
    | .error _ => { granted := false, reason := "lookup_failed" }
    | .ok found =>
      decideAnchor ((found.bind AnchorState.permissions).getD [])
        ((found.bind AnchorState.anchorCount).getD 0) gate.anchorLimit

def anchorRules : List (String × String × String) :=
  [("permission", "anchorPermissionRequired",
      "key has no anchor permission; the anchor mark was not applied"),
    ("limit", "anchorLimitExceeded",
      "key reached the per-key anchor limit; the anchor mark was not applied"),
    ("lookup_failed", "anchorLookupFailed",
      "anchor permission lookup failed; the anchor mark was not applied")]

def anchorViolation (reason : String) : Violation where
  rule := ((anchorRules.lookup reason).map Prod.fst).getD "undefined"
  severity := "medium"
  detail := .string (((anchorRules.lookup reason).map Prod.snd).getD "undefined")

def baseAnchor (base : Option Row) : Value := .bool (base.any marksAnchor)

def withoutAnchor (state : State) : State :=
  match state.op with
  | .create => { state with draft := state.draft.set "is_anchor" (.bool false) }
  | .update =>
    { state with
      fields := state.fields.drop "is_anchor"
      draft := state.draft.set "is_anchor" (baseAnchor state.base) }

structure Ranked where
  id : Option String
  importance : Rat
  tokens : Nat
  isCandidate : Bool

structure BudgetVerdict where
  exceeded : Bool
  used : Nat
  demoteCandidates : List String

def maxDemote : Nat := 5

def demoteFromTail (rest limit : Int) : List Ranked -> Nat -> List String
  | [], _ => []
  | ranked :: more, room =>
    if rest ≤ limit \/ room = 0 then []
    else if ranked.isCandidate then demoteFromTail rest limit more room
    else ranked.id.getD "null" :: demoteFromTail (rest - ranked.tokens) limit more (room - 1)

/-- The new anchor stands behind those of its own importance. -/
def placeCandidate (candidate : Ranked) (others : List Ranked) : List Ranked :=
  let front := others.takeWhile fun other => ¬ other.importance < candidate.importance
  front ++ candidate :: others.drop front.length

def anchorBudgetForCandidate (injected : List Injected) (candidate : Ranked) (maxAnchors : Nat)
    (limit : Int) : BudgetVerdict :=
  let others := (injected.filter fun anchor => some anchor.id ≠ candidate.id).map fun anchor =>
    { id := some anchor.id, importance := anchor.importance, tokens := anchor.tokens,
      isCandidate := false : Ranked }
  let top := (placeCandidate candidate others).take maxAnchors
  let used := (top.map Ranked.tokens).sum
  if limit ≤ 0 \/ top.any Ranked.isCandidate = false then
    { exceeded := false, used := 0, demoteCandidates := [] }
  else if used ≤ limit then { exceeded := false, used := used, demoteCandidates := [] }
  else
    { exceeded := true
      used := used
      demoteCandidates := demoteFromTail used limit top.reverse maxDemote }

def anchorBudgetRule : String := "anchorContextBudgetExceeded"

def anchorBudgetViolation (verdict : BudgetVerdict) (limit : Int) (mode : BudgetMode) :
    Violation where
  rule := anchorBudgetRule
  severity := "low"
  detail := .string <|
    "context anchors would use " ++ toString verdict.used ++ " tokens > budget " ++
      toString limit ++ "; demote candidates: " ++
      (if verdict.demoteCandidates = [] then "none" else
        ", ".intercalate verdict.demoteCandidates) ++
      (if mode = .reject then "; the anchor mark was not applied" else "")

def budgetViolation (gate : Gate) (ctx : Context) (base : Option Row) (draft : Row) :
    Option Violation :=
  match gate.loadInjectedAnchors with
  | none => none
  | some load =>
    if gate.anchorTokenBudgetMode = .off \/ gate.contextAnchorTokenBudget ≤ 0 then none
    else
      let keyId := orElse (draft.read "key_id") ((ctx.keyId.map Value.string).getD .null)
      match load keyId (orElse (draft.read "workspace") .null) gate.maxAnchorFragments with
      | .error _ => none
      | .ok injected =>
        let id := (asString (draft.read "id")).or (base.bind fun row => asString (row.read "id"))
        let candidate : Ranked :=
          { id := id
            importance := (gate.texts.numberOf (draft.read "importance")).getD 0
            tokens := gate.texts.tokensOf draft
            isCandidate := true }
        let verdict := anchorBudgetForCandidate injected candidate gate.maxAnchorFragments
          gate.contextAnchorTokenBudget
        if verdict.exceeded then
          some (anchorBudgetViolation verdict gate.contextAnchorTokenBudget
            gate.anchorTokenBudgetMode)
        else none

def applyAnchorBudget (gate : Gate) (state : State) : State :=
  match budgetViolation gate state.ctx state.base state.draft with
  | none => state
  | some violation =>
    withViolations (if gate.anchorTokenBudgetMode = .reject then withoutAnchor state else state)
      [violation]

def anchorStep (gate : Gate) (state : State) : Except Refusal State :=
  if gate.permissionMode = .off \/ state.entry ∉ anchorRequestEntries then .ok state
  else
    match anchorChange state with
    | none => .ok state
    | some .clear =>
      .ok { state with anchor := some { change := .clear, granted := true, reason := "clear" } }
    | some .set =>
      let decision := judgeAnchorRequest gate state.ctx
      let next := { state with
        anchor := some
          { change := .set, granted := decision.granted, reason := decision.reason } }
      if decision.granted then .ok (applyAnchorBudget gate next)
      else .ok (withViolations (withoutAnchor next) [anchorViolation decision.reason])

end AnchorMind.Write.GateSteps
