import AnchorMind.Text.Characters

/-!
# Values of JSON texts

What `JSON.parse` makes of a text, and how the source reads the properties of an object.
A property that is missing reads as `none`.
-/

namespace AnchorMind.Text.Objects

open Whitespace

inductive Number where
  | finite (value : Rat)
  | infinite (negative : Bool)
  deriving DecidableEq

inductive Value where
  | null
  | bool (value : Bool)
  | number (value : Number)
  | string (text : String)
  | array (items : List Value)
  | object (fields : List (String × Value))

abbrev Object := List (String × Value)

def get (object : Object) (name : String) : Option Value := object.lookup name

def truthy : Option Value -> Bool
  | none => false
  | some .null => false
  | some (.bool value) => value
  | some (.number value) => decide (value ≠ .finite 0)
  | some (.string text) => decide (text ≠ "")
  | some (.array _) => true
  | some (.object _) => true

/-- `typeof value === "string"` -/
def asString : Option Value -> Option String
  | some (.string text) => some text
  | _ => none

/-- `typeof value === "number"` -/
def asNumber : Option Value -> Option Number
  | some (.number value) => some value
  | _ => none

/-- `value == null` -/
def isNullish : Option Value -> Bool
  | none => true
  | some .null => true
  | some _ => false

/-- `value === true` -/
def isTrue : Option Value -> Bool
  | some (.bool true) => true
  | _ => false

def nonEmptyString (value : Option Value) : Option String :=
  (asString value).filter fun text => decide (text ≠ "")

/-- `value ?? fallback` -/
def orElse (value : Option Value) (fallback : Value) : Value :=
  match value with
  | none => fallback
  | some .null => fallback
  | some found => found

def digitValue (digit : Char) : Option Nat :=
  if digit.isDigit then some (digit.toNat - '0'.toNat)
  else if 'a' ≤ digit ∧ digit ≤ 'f' then some (digit.toNat - 'a'.toNat + 10)
  else if 'A' ≤ digit ∧ digit ≤ 'F' then some (digit.toNat - 'A'.toNat + 10)
  else none

def wholeLiteral (base : Nat) (digits : List Char) : Option Nat :=
  if digits = [] then none
  else digits.foldlM (fun value digit =>
    (digitValue digit).bind fun next => if next < base then some (value * base + next) else none) 0

def digitsLiteral (digits : List Char) : Option Nat :=
  if digits = [] then some 0 else wholeLiteral 10 digits

def exponentLiteral : List Char -> Option Int
  | [] => some 0
  | _ :: '-' :: digits => (wholeLiteral 10 digits).map fun value => -(value : Int)
  | _ :: '+' :: digits => (wholeLiteral 10 digits).map fun value => (value : Int)
  | _ :: digits => (wholeLiteral 10 digits).map fun value => (value : Int)

/-- Digits with at most one point, and an exponent behind `e` or `E`. -/
def decimalLiteral (text : List Char) : Option Rat := do
  let mantissa := text.takeWhile fun char => decide (char ≠ 'e' ∧ char ≠ 'E')
  let whole := mantissa.takeWhile fun char => decide (char ≠ '.')
  let fraction := (mantissa.drop whole.length).drop 1
  if whole = [] ∧ fraction = [] then none
  let front <- digitsLiteral whole
  let back <- digitsLiteral fraction
  let exponent <- exponentLiteral (text.drop mantissa.length)
  let scale := exponent - fraction.length
  let value : Rat := ((front * 10 ^ fraction.length + back : Nat) : Rat)
  return if 0 ≤ scale then value * 10 ^ scale.toNat else value / 10 ^ (-scale).toNat

/-- From this size on a double rounds to an infinity. -/
def OVERFLOW : Rat := 2 ^ 1024 - 2 ^ 970

/-- `Number(text)` where it is finite. -/
def numberOfText (text : String) : Option Rat :=
  let value :=
    match trimList text.toList with
    | [] => some 0
    | '0' :: 'x' :: digits => (wholeLiteral 16 digits).map fun value => (value : Rat)
    | '0' :: 'X' :: digits => (wholeLiteral 16 digits).map fun value => (value : Rat)
    | '0' :: 'o' :: digits => (wholeLiteral 8 digits).map fun value => (value : Rat)
    | '0' :: 'O' :: digits => (wholeLiteral 8 digits).map fun value => (value : Rat)
    | '0' :: 'b' :: digits => (wholeLiteral 2 digits).map fun value => (value : Rat)
    | '0' :: 'B' :: digits => (wholeLiteral 2 digits).map fun value => (value : Rat)
    | '-' :: rest => (decimalLiteral rest).map fun value => -value
    | '+' :: rest => decimalLiteral rest
    | rest => decimalLiteral rest
  value.filter fun number => decide (-OVERFLOW < number ∧ number < OVERFLOW)

end AnchorMind.Text.Objects
