import AnchorMind.Text.Objects

/-!
# The report of an import

The runner calls the report once for each row it is done with: imported, duplicate,
rejected with a reason, or failed.  Further calls note changed values, ignored fields, and
warnings, and count no row.
-/

namespace AnchorMind.Transfer

open Text.Objects

inductive Entity where
  | fragments
  | links
  | versions
  deriving DecidableEq

/-- `REJECT_REASONS` -/
inductive RejectReason where
  | invalidJson
  | invalidRecord
  | invalidRow
  | inputInvalid
  | policyViolation
  | idConflict
  | idempotencyConflict
  | databaseRejected
  | linkInvalid
  | linkEndpointMissing
  | versionFragmentMissing
  deriving DecidableEq

/-- `TRANSFORM_REASONS` -/
inductive TransformReason where
  | content
  | importance
  deriving DecidableEq

/-- The fields that `ignoredFields` names. -/
inductive IgnoredField where
  | keyId
  | isAnchor
  deriving DecidableEq

inductive Warning where
  | trailerMismatch (entity : Entity) (expected : Number) (seen : Nat)
  | trailerMissing
  | headerNotFirst (line : Nat)
  | recordIgnored (line : Nat) (kind : String)
  deriving DecidableEq

inductive ReportCall where
  | imported (entity : Entity)
  | duplicate (entity : Entity)
  | reject (entity : Entity) (reason : RejectReason) (line : Nat) (detail : String)
  | error (entity : Entity) (line : Nat) (detail : String)
  | transform (reasons : List TransformReason)
  | ignoredField (field : IgnoredField)
  | warn (warning : Warning)
  deriving DecidableEq

structure Counts where
  imported : Nat
  duplicates : Nat
  rejected : Nat
  errors : Nat
  deriving DecidableEq

/-- The four classes of a row. -/
inductive Outcome where
  | imported
  | duplicate
  | rejected
  | failed
  deriving DecidableEq

def Counts.of (counts : Counts) : Outcome -> Nat
  | .imported => counts.imported
  | .duplicate => counts.duplicates
  | .rejected => counts.rejected
  | .failed => counts.errors

def Counts.add (counts : Counts) : Outcome -> Counts
  | .imported => { counts with imported := counts.imported + 1 }
  | .duplicate => { counts with duplicates := counts.duplicates + 1 }
  | .rejected => { counts with rejected := counts.rejected + 1 }
  | .failed => { counts with errors := counts.errors + 1 }

def Counts.none : Counts := ⟨0, 0, 0, 0⟩

structure RejectSample where
  entity : Entity
  reason : RejectReason
  line : Nat
  detail : Option String
  deriving DecidableEq

structure ErrorSample where
  entity : Entity
  line : Nat
  detail : Option String
  deriving DecidableEq

def MAX_REJECT_SAMPLES : Nat := 20

structure Report where
  lines : Nat
  formatVersion : Option Nat
  entities : Entity -> Counts
  rejectedByReason : RejectReason -> Nat
  rejectSamples : List RejectSample
  errorSamples : List ErrorSample
  transformed : Nat
  transformedByReason : TransformReason -> Nat
  ignored : IgnoredField -> Nat
  warnings : List Warning
  embeddingQueued : Option Nat

namespace Report

def empty : Report where
  lines := 0
  formatVersion := none
  entities := fun _ => .none
  rejectedByReason := fun _ => 0
  rejectSamples := []
  errorSamples := []
  transformed := 0
  transformedByReason := fun _ => 0
  ignored := fun _ => 0
  warnings := []
  embeddingQueued := none

def count (report : Report) (entity : Entity) (outcome : Outcome) : Report :=
  { report with
    entities := fun other =>
      if other = entity then (report.entities other).add outcome else report.entities other }

def detailOrNone (detail : String) : Option String := if detail = "" then none else some detail

def apply (report : Report) : ReportCall -> Report
  | .imported entity => report.count entity .imported
  | .duplicate entity => report.count entity .duplicate
  | .reject entity reason line detail =>
    { report.count entity .rejected with
      rejectedByReason := fun other =>
        if other = reason then report.rejectedByReason other + 1
        else report.rejectedByReason other
      rejectSamples :=
        if report.rejectSamples.length < MAX_REJECT_SAMPLES then
          report.rejectSamples ++ [⟨entity, reason, line, detailOrNone detail⟩]
        else report.rejectSamples }
  | .error entity line detail =>
    { report.count entity .failed with
      errorSamples :=
        if report.errorSamples.length < MAX_REJECT_SAMPLES then
          report.errorSamples ++ [⟨entity, line, detailOrNone detail⟩]
        else report.errorSamples }
  | .transform reasons =>
    if reasons = [] then report
    else
      { report with
        transformed := report.transformed + 1
        transformedByReason := fun other =>
          report.transformedByReason other + reasons.count other }
  | .ignoredField field =>
    { report with
      ignored := fun other =>
        if other = field then report.ignored other + 1 else report.ignored other }
  | .warn warning => { report with warnings := report.warnings ++ [warning] }

def applyAll (report : Report) (calls : List ReportCall) : Report := calls.foldl apply report

end Report

def ReportCall.counted : ReportCall -> Option (Entity × Outcome)
  | .imported entity => some (entity, .imported)
  | .duplicate entity => some (entity, .duplicate)
  | .reject entity _ _ _ => some (entity, .rejected)
  | .error entity _ _ => some (entity, .failed)
  | .transform _ => none
  | .ignoredField _ => none
  | .warn _ => none

def countedRows (calls : List ReportCall) : List (Entity × Outcome) :=
  calls.filterMap ReportCall.counted

theorem countedRows_append (front back : List ReportCall) :
    countedRows (front ++ back) = countedRows front ++ countedRows back :=
  List.filterMap_append

theorem Counts.of_add (counts : Counts) (hit outcome : Outcome) :
    (counts.add hit).of outcome = counts.of outcome + [hit].count outcome := by
  cases hit <;> cases outcome <;> rfl

namespace Report

variable (report : Report) (entity : Entity) (outcome : Outcome)

theorem of_count (other : Entity) (hit : Outcome) :
    ((report.count other hit).entities entity).of outcome =
      (report.entities entity).of outcome + [(other, hit)].count (entity, outcome) := by
  rcases Decidable.em (entity = other) with rfl | hne
  · have hsame : [(entity, hit)].count (entity, outcome) = [hit].count outcome := by
      simp [List.count_singleton]
    rw [hsame]
    simpa [count] using Counts.of_add (report.entities entity) hit outcome
  · simp [count, hne, Ne.symm hne]

theorem entities_apply (call : ReportCall) :
    ((report.apply call).entities entity).of outcome =
      (report.entities entity).of outcome + (countedRows [call]).count (entity, outcome) := by
  cases call with
  | imported other => exact of_count report entity outcome other .imported
  | duplicate other => exact of_count report entity outcome other .duplicate
  | reject other reason line detail => exact of_count report entity outcome other .rejected
  | error other line detail => exact of_count report entity outcome other .failed
  | transform reasons =>
    rcases Decidable.em (reasons = []) with rfl | hreasons
    · rfl
    · have hnone : countedRows [.transform reasons] = [] := rfl
      simp [apply, hreasons, hnone]
  | ignoredField field => rfl
  | warn warning => rfl

theorem entities_applyAll (calls : List ReportCall) :
    ((report.applyAll calls).entities entity).of outcome =
      (report.entities entity).of outcome + (countedRows calls).count (entity, outcome) := by
  induction calls generalizing report with
  | nil => rfl
  | cons call rest ih =>
    have hsplit : countedRows (call :: rest) = countedRows [call] ++ countedRows rest :=
      countedRows_append [call] rest
    rw [applyAll, List.foldl_cons]
    refine (ih (report.apply call)).trans ?_
    rw [entities_apply, hsplit, List.count_append, Nat.add_assoc]

end Report

end AnchorMind.Transfer

/-!
# The lines of an export

A file of format version 2 has a header, the fragments, the links, the versions, and a
trailer.  A file of version 1 has fragments only.  An object that does not say what it is
is a fragment.
-/

namespace AnchorMind.Transfer

open Text.Objects
open Text.Whitespace (trimList)

def FORMAT_NAME : String := "memento-fragments"

def READABLE_VERSIONS : List Nat := [1, 2]

def LINK_RELATION_TYPES : List String :=
  ["related", "caused_by", "resolved_by", "part_of", "contradicts", "superseded_by",
    "co_retrieved", "temporal"]

inductive Kind where
  | header
  | fragment
  | link
  | version
  | trailer
  deriving DecidableEq

/-- `RECORD` -/
def Kind.name : Kind -> String
  | .header => "header"
  | .fragment => "fragment"
  | .link => "link"
  | .version => "version"
  | .trailer => "end"

/-- What `classifyRecord` makes of a line. -/
inductive Body where
  | malformed (reason : RejectReason) (detail : String)
  | readable (kind : Kind) (data : Object)

structure Record where
  lineNo : Nat
  body : Body

def toVersionInt : Option Value -> Option Int
  | some (.number (.finite value)) => if value.den = 1 then some value.num else none
  | some (.string text) =>
    let digits := trimList text.toList
    if digits.all Char.isDigit then (wholeLiteral 10 digits).map fun value => (value : Int)
    else none
  | _ => none

structure UnsupportedFormatVersion where
  format : Option Value
  version : Option Value

def readHeaderVersion (header : Object) : Except UnsupportedFormatVersion Nat :=
  let readable : Option Nat := (toVersionInt (get header "version")).bind fun version =>
    READABLE_VERSIONS.find? fun known => decide ((known : Int) = version)
  match readable with
  | some version =>
    if asString (get header "format") = some FORMAT_NAME then .ok version
    else .error ⟨get header "format", get header "version"⟩
  | none => .error ⟨get header "format", get header "version"⟩

def hasFragmentFields (row : Object) : Bool :=
  (nonEmptyString (get row "content")).isSome && (nonEmptyString (get row "topic")).isSome

end AnchorMind.Transfer
