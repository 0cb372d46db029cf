import AnchorMind.Kernel.Conditions
import AnchorMind.Recall.Scopes

/-!
# The condition of a held row and its test

A pending or rejected fragment is for the key that wrote it.  Searches say so in a condition of
their query, and what has been read is tested once more.
-/

namespace AnchorMind.Recall.ReviewVisibility

open Kernel.Conditions
open Scopes (Viewer)

/-- The columns read of a fragment; any text may stand in them. -/
structure Row where
  reviewState : Option String
  keyId : Option String
  agentId : Option String
  validTo : Option Int

def HELD_REVIEW_STATES : List String := ["pending", "rejected"]

def isReviewHeld (fragment : Option Row) : Bool :=
  (fragment.bind Row.reviewState).any HELD_REVIEW_STATES.contains

/-- `options.keyId` -/
inductive Keys where
  | absent
  | one (keyId : String)
  | many (keyIds : List String)

/-- `viewerKeyId` is `none` where it is undefined; its `null` is the master. -/
structure Options where
  viewerKeyId : Option Viewer
  keyId : Keys

def reviewViewer (options : Options) : Viewer :=
  match options.viewerKeyId, options.keyId with
  | some viewer, _ => viewer
  | none, .one keyId => .key keyId
  | none, .many [keyId] => .key keyId
  | none, _ => .key none

def isReviewVisible (fragment : Option Row) (viewer : Viewer) : Bool :=
  match fragment with
  | none => false
  | some row => !isReviewHeld fragment || viewer = .key row.keyId

/-- The first character is a small letter or `_`, the others may be digits. -/
def isAlias (tableAlias : String) : Bool :=
  let letter := fun c : Char => c.isLower || c = '_'
  match tableAlias.toList with
  | [] => false
  | first :: rest => letter first && rest.all fun c => letter c || c.isDigit

def columnPrefix (tableAlias : String) : Except String String :=
  if tableAlias = "" then .ok ""
  else if isAlias tableAlias then .ok (tableAlias ++ ".")
  else .error ("invalid table alias: " ++ tableAlias)

/-- The values bound so far: texts, and what other conditions have bound. -/
abbrev Params (Other : Type) := List (Option String ⊕ Other)

variable {Other : Type}

def textAt (params : Params Other) (place : Nat) : Option String :=
  match params[place - 1]? with
  | some (.inl text) => text
  | _ => none

/-- The bound value is new, and the condition without its leading `AND`. -/
def keyScopeNullable (params : Params Other) (column : String) (keyId : Option String) :
    Condition String String × Params Other :=
  (.isNotDistinctFrom column (params.length + 1), params ++ [.inl keyId])

def notHeldCondition (p : String) : Condition String String :=
  .or (.isNull (p ++ "review_state")) (.notIn (p ++ "review_state") HELD_REVIEW_STATES)

def appendReviewVisibility (conditions : List (Condition String String)) (params : Params Other)
    (options : Options) (tableAlias : String) :
    Except String (List (Condition String String) × Params Other × String) := do
  let p <- columnPrefix tableAlias
  let select := ", " ++ p ++ "review_state"
  match reviewViewer options with
  | .nobody => return (conditions ++ [notHeldCondition p], params, select)
  | .key none =>
    return (conditions ++ [.or (notHeldCondition p) (.isNull (p ++ "key_id"))], params, select)
  | .key (some viewer) =>
    let (writer, params) := keyScopeNullable params (p ++ "key_id") (some viewer)
    return (conditions ++ [.or (notHeldCondition p) writer], params, select)

def reviewPointClause (params : Params Other) (keyId : Option String) (tableAlias : String) :
    Except String (List (Condition String String) × Params Other) :=
  match keyId with
  | none => .ok ([], params)
  | some keyId => do
    let (conditions, params, _) <- appendReviewVisibility [] params
      { viewerKeyId := some (.key keyId), keyId := .absent } tableAlias
    return (conditions, params)

def Row.cell (row : Row) (p column : String) : Option String :=
  if column = p ++ "review_state" then row.reviewState
  else if column = p ++ "key_id" then row.keyId
  else none

variable {row : Row} {p : String} {bound : Nat -> Option String}

theorem Row.cell_keyId : row.cell p (p ++ "key_id") = row.keyId := by
  simp [Row.cell]

theorem holds_notHeldCondition : (notHeldCondition p).Holds (row.cell p) bound <->
    isReviewHeld (some row) = false := by
  rw [notHeldCondition, holds_or, holds_isNull, holds_notIn, Row.cell, if_pos rfl]
  cases hstate : row.reviewState <;> simp [isReviewHeld, hstate]

theorem textAt_last (params later : Params Other) (text : Option String) :
    textAt (params ++ [.inl text] ++ later) (params.length + 1) = text := by
  simp [textAt]

theorem isReviewVisible_iff {viewer : Viewer} : isReviewVisible (some row) viewer = true <->
    isReviewHeld (some row) = false \/ viewer = .key row.keyId := by
  simp [isReviewVisible]

/-- One condition is added.  Whatever is bound after it, it is true of the rows that the viewer
may see and of no others. -/
theorem appendReviewVisibility_added (conditions : List (Condition String String))
    (params : Params Other) (options : Options) {tableAlias : String}
    (hcolumn : columnPrefix tableAlias = .ok p) : ∃ condition added,
      appendReviewVisibility conditions params options tableAlias =
        .ok (conditions ++ [condition], params ++ added, ", " ++ p ++ "review_state") /\
      ∀ row later, condition.Holds (row.cell p) (textAt (params ++ added ++ later)) <->
        isReviewVisible (some row) (reviewViewer options) = true := by
  unfold appendReviewVisibility
  simp only [isReviewVisible_iff, hcolumn]
  rcases reviewViewer options with _ | _ | viewer
  · refine ⟨notHeldCondition p, [], by simp [bind, Except.bind, pure, Except.pure], ?_⟩
    simp [holds_notHeldCondition]
  · refine ⟨.or (notHeldCondition p) (.isNull (p ++ "key_id")), [],
      by simp [bind, Except.bind, pure, Except.pure], fun row later => ?_⟩
    rw [holds_or, holds_notHeldCondition, holds_isNull, Row.cell_keyId, Viewer.key.injEq,
      eq_comm (a := none)]
  · refine ⟨.or (notHeldCondition p) (.isNotDistinctFrom (p ++ "key_id") (params.length + 1)),
      [.inl (some viewer)], rfl, fun row later => ?_⟩
    rw [holds_or, holds_notHeldCondition, holds_isNotDistinctFrom, Row.cell_keyId, textAt_last,
      Viewer.key.injEq, eq_comm (a := some viewer)]

/-- A search adds one condition, which is true of just the rows that its viewer may see, and so
is the clause of a look-up by a key; a master's look-up sees every row. -/
theorem reviewConditions_hold_iff (conditions : List (Condition String String))
    (params : Params Other) (tableAlias : String) :
    match columnPrefix tableAlias with
    | .error refusal => ∀ options,
      appendReviewVisibility conditions params options tableAlias = .error refusal
    | .ok p =>
      (∀ options, ∃ condition added,
        appendReviewVisibility conditions params options tableAlias =
          .ok (conditions ++ [condition], params ++ added, ", " ++ p ++ "review_state") /\
        ∀ row later, condition.Holds (row.cell p) (textAt (params ++ added ++ later)) <->
          isReviewVisible (some row) (reviewViewer options) = true) /\
      ∀ keyId, ∃ clause added,
        reviewPointClause params keyId tableAlias = .ok (clause, params ++ added) /\
        ∀ row later, (∀ condition ∈ clause,
            condition.Holds (row.cell p) (textAt (params ++ added ++ later))) <->
          keyId = none \/ isReviewVisible (some row) (.key keyId) = true := by
  cases hcolumn : columnPrefix tableAlias with
  | error refusal =>
    intro options
    simp only [appendReviewVisibility, hcolumn]
    rfl
  | ok p =>
    refine ⟨fun options => appendReviewVisibility_added conditions params options hcolumn, ?_⟩
    rintro (_ | keyId)
    · exact ⟨[], [], by simp [reviewPointClause], by simp⟩
    · obtain ⟨condition, added, hadded, hholds⟩ := appendReviewVisibility_added [] params
        { viewerKeyId := some (.key keyId), keyId := .absent } hcolumn
      refine ⟨[condition], added, ?_, fun row later => ?_⟩
      · simp only [reviewPointClause, hadded]
        rfl
      · simpa [reviewViewer] using hholds row later

end AnchorMind.Recall.ReviewVisibility
