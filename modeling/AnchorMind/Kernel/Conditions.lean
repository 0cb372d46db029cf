import Mathlib.Tactic.TypeStar

/-!
# Conditions of a query

A condition over the columns of a row and the values bound to its places, with the three
truth values of SQL.  A row is returned only where the condition is true.
-/

namespace AnchorMind.Kernel.Conditions

variable {Column Value : Type*} [DecidableEq Value]

/-- `none` is the unknown truth value. -/
def orElse : Option Bool -> Option Bool -> Option Bool
  | some true, _ => some true
  | _, some true => some true
  | some false, some false => some false
  | _, _ => none

inductive Condition (Column Value : Type*) where
  | isNull (column : Column)
  | notIn (column : Column) (values : List Value)
  | isNotDistinctFrom (column : Column) (place : Nat)
  | or (left right : Condition Column Value)

variable (row : Column -> Option Value) (bound : Nat -> Option Value)

/-- A null is neither in a list nor outside it, and `IS NOT DISTINCT FROM` takes two nulls for
the same. -/
def Condition.truth : Condition Column Value -> Option Bool
  | isNull column => some (row column).isNone
  | notIn column values => (row column).map fun value => !values.contains value
  | isNotDistinctFrom column place => some (row column = bound place)
  | or left right => orElse left.truth right.truth

def Condition.Holds (condition : Condition Column Value) : Prop :=
  condition.truth row bound = some true

variable {row bound} {column : Column}

theorem holds_isNull : (Condition.isNull column).Holds row bound <-> row column = none := by
  simp [Condition.Holds, Condition.truth]

theorem holds_notIn {values : List Value} : (Condition.notIn column values).Holds row bound <->
    ∃ value, row column = some value /\ value ∉ values := by
  simp [Condition.Holds, Condition.truth]

theorem holds_isNotDistinctFrom {place : Nat} :
    (Condition.isNotDistinctFrom column place).Holds row bound <-> row column = bound place := by
  simp [Condition.Holds, Condition.truth]

theorem holds_or {left right : Condition Column Value} :
    (left.or right).Holds row bound <-> left.Holds row bound \/ right.Holds row bound := by
  rw [Condition.Holds, Condition.Holds, Condition.Holds, Condition.truth]
  rcases left.truth row bound with _ | _ | _ <;> rcases right.truth row bound with _ | _ | _ <;>
    simp [orElse]

end AnchorMind.Kernel.Conditions
