import AnchorMind.Write.GateSteps

/-!
# Provenance and review at the write gate

After the verdict steps a new fragment gets its provenance, and a write that a review rule
catches is put off: it is stored as pending, and an anchor mark it asks for waits for the
approval.
-/

namespace AnchorMind.Write.GateReview

open Text.Objects Write.GateState Write.GateSteps

def origins : List String :=
  ["user_stated", "agent_inferred", "tool_output", "external_content", "consolidation", "import"]

def claimEntries : List String := ["remember", "batch_remember"]

def entryOrigins : List (String × String) :=
  [("admin_import", "import"), ("cli_import", "import"), ("consolidate_split", "consolidation"),
    ("auto_reflect", "consolidation")]

def internalEntries : List String := entryOrigins.map Prod.fst ++ ["cli_remember"]

def defaultTrustTier : Nat := 2

def knownOrigin (value : Option Value) : Option String :=
  (asString value).filter fun text => origins.contains text

def claimedOrigin (entry : String) (claim : Option Value) : Option String :=
  match entryOrigins.lookup entry with
  | some origin => some origin
  | none => if entry ∈ claimEntries then knownOrigin claim else none

def originTier : Option String -> Nat
  | some "user_stated" => 3
  | some "external_content" => 1
  | _ => defaultTrustTier

def tierOrNull (texts : Texts) (value : Option Value) : Option Nat :=
  if isNullish value || asString value = some "" then none
  else (texts.numberOf value).bind fun number => [0, 1, 2, 3].find? fun tier => (tier : Rat) =
    number

def resolveTrustTier (texts : Texts) (origin : Option String) (cap : Option Value) : Nat :=
  let limit := if (asNumber cap).isSome then tierOrNull texts cap else none
  min (originTier origin) (limit.getD defaultTrustTier)

def observedClient (texts : Texts) (entry : String) (clientName : Option Value) : String :=
  let name := (texts.sanitizeClientName clientName).getD
    (if entry ∈ internalEntries then "internal" else "unknown")
  name ++ "/" ++ entry

def provenanceStamp (texts : Texts) (entry : String) (claim : Option Value) (ctx : Context)
    (draft : Row) : Row :=
  let origin := claimedOrigin entry claim
  ((draft.set "origin" ((origin.map Value.string).getD .null)).set "observed_client"
    (.string (observedClient texts entry ctx.clientName))).set "trust_tier"
      (.number (.finite (resolveTrustTier texts origin ctx.trustCap)))

def provenanceStep (gate : Gate) (state : State) : Except Refusal State :=
  if state.op ≠ .create \/ gate.provenance = false then .ok state
  else
    let claim := state.fields.read "origin"
    if isNullish claim = false /\ state.entry ∈ claimEntries /\ knownOrigin claim = none then
      .error (.input ("origin must be one of: " ++ ", ".intercalate origins) (some (-32602)))
    else
      .ok { state with draft := provenanceStamp gate.texts state.entry claim state.ctx state.draft }

def reviewEntries : List String := ["remember", "batch_remember", "reflect", "amend"]

def reasonOrder : List String :=
  ["instruction_override", "low_trust_directive", "anchor_unauthorized", "mode_all"]

def anchorRequestMark : String := "anchor_requested"

def storedOrder : List String := reasonOrder ++ [anchorRequestMark]

def anchorPermissionRule : String := "anchorPermissionRequired"

def directiveTypes : List String := ["preference", "procedure"]

def reviewTextColumns : List String := ["content", "context_summary", "goal", "outcome", "topic"]

def textsToScan (op : Op) (draft fields : Row) : List String :=
  let columns :=
    match op with
    | .update => reviewTextColumns.filter fields.has
    | .create => reviewTextColumns
  columns.filterMap fun column => nonEmptyString (draft.read column)

def overrideRuleIds (texts : Texts) (found : List String) : List String :=
  (found.flatMap texts.matchInstructionOverride).foldl
    (fun ids id => if id ∈ ids then ids else ids ++ [id]) []

def isLowTrustDirective (texts : Texts) (draft : Row) : Bool :=
  let tier := (tierOrNull texts (draft.read "trust_tier")).getD defaultTrustTier
  tier ≤ 1 && (marksAnchor draft || (asString (draft.read "type")).any (directiveTypes.contains ·))

def reviewReasons (texts : Texts) (state : State) : List String :=
  reasonOrder.filter fun reason =>
    match reason with
    | "instruction_override" =>
      !(overrideRuleIds texts (textsToScan state.op state.draft state.fields)).isEmpty
    | "low_trust_directive" => decide (state.op = .create) && isLowTrustDirective texts state.draft
    | "anchor_unauthorized" => state.violations.any (·.rule = anchorPermissionRule)
    | _ => false

/-- `off` marks nothing, `all` every write; any other mode is read as `flagged`. -/
def decideReview (mode : Option Value) (reasons : List String) : List String :=
  match asString mode with
  | some "off" => []
  | some "all" => if reasons = [] then ["mode_all"] else reasons
  | _ => reasons

def pendingReasons (gate : Gate) (state : State) : List String :=
  if gate.reviewQueue then decideReview state.ctx.reviewMode (reviewReasons gate.texts state)
  else []

def reviewRulePrefix : String := "review."

def reviewNotices (reasons ruleIds : List String) : List Violation :=
  reasons.map fun reason =>
    { rule := reviewRulePrefix ++ reason
      severity := "low"
      detail := .string <|
        if reason = "instruction_override" then "rules: " ++ ", ".intercalate ruleIds
        else "review pending" }

def isPending (row : Row) : Bool := asString (row.read "review_state") = some "pending"

def parseReviewReason (stored : Option Value) : List String :=
  ((asString stored).map fun text => (text.splitOn ",").filter (· ∈ storedOrder)).getD []

def mergedReason (base : Option Row) (entries : List String) : String :=
  let prior :=
    match base.filter isPending with
    | none => []
    | some row => parseReviewReason (row.read "review_reason")
  ",".intercalate (storedOrder.filter fun entry => entry ∈ prior || entry ∈ entries)

def requestsAnchor (state : State) : Bool :=
  match state.op with
  | .create => marksAnchor state.draft
  | .update => marksAnchor state.fields

def withColumns (reason : String) (row : Row) : Row :=
  (row.set "review_state" (.string "pending")).set "review_reason" (.string reason)

def withHeldAnchor (state : State) (reason : String) : State :=
  match state.op, requestsAnchor state with
  | .create, true =>
    { state with draft := (withColumns reason state.draft).set "is_anchor" (.bool false) }
  | .create, false => { state with draft := withColumns reason state.draft }
  | .update, false =>
    { state with
      fields := withColumns reason state.fields
      draft := withColumns reason state.draft }
  | .update, true =>
    { state with
      fields := withColumns reason (state.fields.drop "is_anchor")
      draft := (withColumns reason state.draft).set "is_anchor" (baseAnchor state.base) }

def holdAnchorWhilePending (state : State) : State :=
  if state.op = .update /\ state.base.any isPending = true /\ requestsAnchor state = true then
    withHeldAnchor state (mergedReason state.base [anchorRequestMark])
  else state

def reviewStep (gate : Gate) (state : State) : State :=
  if state.entry ∉ reviewEntries then state
  else
    let reasons := pendingReasons gate state
    if reasons = [] then holdAnchorWhilePending state
    else
      let entries := if requestsAnchor state then reasons ++ [anchorRequestMark] else reasons
      let ruleIds := overrideRuleIds gate.texts (textsToScan state.op state.draft state.fields)
      withHeldAnchor
        { state with
          review := some reasons
          violations := state.violations ++ reviewNotices reasons ruleIds }
        (mergedReason state.base entries)

end AnchorMind.Write.GateReview

/-!
# The write gate

A write goes through the content steps, is laid out as the fragment that would be stored,
goes through the verdict steps, and is then decided on.  Only the decision reads the mode:
a dry run returns the names of the violations, a production run may refuse the write.
-/

namespace AnchorMind.Write.WriteGate

open Text.Objects Write.GateState Write.GateSteps Write.GateReview

structure Request where
  entry : String
  op : Op
  mode : Mode
  fields : Row
  base : Option Row
  /-- Makes the fragment of a create out of its values. -/
  build : Row -> Except String Row
  ctx : Context

structure Approved where
  value : Row
  fields : Row
  draft : Row
  warnings : List String
  truncation : Option Value

def initialState (request : Request) : State where
  entry := request.entry
  op := request.op
  mode := request.mode
  base := request.base
  fields := request.fields
  rawKeywords := none
  draft := .empty
  ctx := request.ctx
  violations := []
  anchor := none
  review := none

def legacySteps : List (String × List String) :=
  [("remember", ["normalize", "sensitive", "length", "policy", "workspace"]),
    ("amend", ["normalize"]),
    ("batch_remember", ["normalize", "sensitive", "length"]),
    ("reflect", ["normalize", "sensitive", "length"]),
    ("auto_reflect", ["normalize", "sensitive", "length"]),
    ("cli_remember", ["normalize", "sensitive", "length"])]

def activeStep (gate : Gate) (entry name : String) : Bool :=
  gate.enabled || ((legacySteps.lookup entry).getD []).contains name

def runStep (gate : Gate) (name : String) (step : Gate -> State -> Except Refusal State)
    (state : State) : Except Refusal State :=
  if activeStep gate state.entry name then step gate state else .ok state

def contentSteps (gate : Gate) (state : State) : Except Refusal State :=
  (runStep gate "normalize" normalizeStep state).bind fun normalized =>
    (runStep gate "sensitive" sensitiveStep normalized).bind fun masked =>
      runStep gate "length" lengthStep masked

def materialize (build : Row -> Except String Row) (state : State) : Except Refusal State :=
  match state.op with
  | .create =>
    match build state.fields with
    | .error message => .error (.thrown message)
    | .ok draft => .ok { state with draft := draft }
  | .update => .ok { state with draft := state.fields.laidOver (state.base.getD .empty) }

def verdictSteps (gate : Gate) (state : State) : Except Refusal State :=
  (runStep gate "policy" policyStep state).bind fun checked =>
    (runStep gate "workspace" workspaceStep checked).bind fun placed =>
      runStep gate "anchor" anchorStep placed

def judged (gate : Gate) (request : Request) : Except Refusal State :=
  (contentSteps gate (initialState request)).bind fun content =>
    (materialize request.build content).bind fun drafted =>
      (verdictSteps gate drafted).bind fun verdict =>
        provenanceStep gate verdict

def reviewed (gate : Gate) (request : Request) : Except Refusal State :=
  (judged gate request).map (reviewStep gate)

def startsWith (start text : String) : Bool := start.toList.isPrefixOf text.toList

def isReviewNotice (violation : Violation) : Bool := startsWith reviewRulePrefix violation.rule

def isAnchorViolation (violation : Violation) : Bool :=
  (anchorRules.map fun rule => rule.2.1).contains violation.rule ||
    violation.rule = anchorBudgetRule

def isSensitiveViolation (violation : Violation) : Bool :=
  startsWith sensitiveRulePrefix violation.rule

def isGateEligible (gate : Gate) (violation : Violation) : Bool :=
  if isReviewNotice violation then false
  else if violation.rule = contentTruncatedRule then false
  else if isAnchorViolation violation then false
  else if isSensitiveViolation violation then violation.severity = "high"
  else if violation.rule = "workspaceNotAllowed" \/ violation.rule = "fragmentHasWorkspace" then
    gate.workspaceGateEnforced
  else true

def hardGateLookupFailed : Violation where
  rule := "hardGateLookupFailed"
  severity := "high"
  detail := .string "hard gate lookup failed"

/-- The violations a write is refused with, `none` if it is let through. -/
def enforceHardGate (gate : Gate) (state : State) : Option (List Violation) :=
  let eligible := state.violations.filter (isGateEligible gate)
  let sensitive := eligible.filter isSensitiveViolation
  let anchor := state.violations.filter isAnchorViolation
  if sensitive ≠ [] /\ gate.sensitiveScanMode = .reject then some sensitive
  else if anchor ≠ [] /\ gate.permissionMode = .enforce then some anchor
  else
    match state.ctx.keyId with
    | none => none
    | some keyId =>
      if eligible = [] then none
      else
        match gate.getHardGate keyId with
        | .error _ => some (hardGateLookupFailed :: eligible)
        | .ok true => some eligible
        | .ok false => none

def withValidationWarnings (draft : Row) (violations : List Violation) : Row :=
  let prior :=
    match draft.read "validation_warnings" with
    | some (.array items) => items
    | _ => []
  draft.set "validation_warnings" (.array (prior ++ violations.map Violation.toValue))

/-- `_decide`: the state as it leaves the gate, and the names of the warnings. -/
def decideWrite (gate : Gate) (state : State) : Except Refusal (State × List String) :=
  let names := state.violations.map ruleName
  match state.mode with
  | .dryRun => .ok (state, names)
  | .production =>
    if state.violations = [] then .ok (state, [])
    else
      let warned :=
        match state.op with
        | .create => { state with draft := withValidationWarnings state.draft state.violations }
        | .update => state
      match enforceHardGate gate state with
      | some refused => .error (.policy refused)
      | none => .ok (warned, names)

/-- How much of the content was cut, as the first such warning tells. -/
def truncationInfo (violations : List Violation) : Option Value :=
  (violations.find? fun violation => violation.rule = contentTruncatedRule).map Violation.detail

def valueOf (state : State) : Row :=
  match state.op with
  | .create => state.draft
  | .update => state.fields

def answer (decided : State × List String) : Approved :=
  let (state, warnings) := decided
  { value := valueOf state
    fields := state.fields
    draft := state.draft
    warnings := warnings
    truncation := truncationInfo state.violations }

def check (gate : Gate) (request : Request) : Except Refusal Approved :=
  (reviewed gate request).bind fun state => (decideWrite gate state).map answer

end AnchorMind.Write.WriteGate
