import AnchorMind.Kernel.Delimited
import Mathlib.Data.List.DropRight

/-!
# How numbers are written

A finite number other than zero has a sign, the shortest row of digits that denotes it,
and the place of its point.  Zero is written `0`, whatever its sign.
-/

namespace AnchorMind.Text.Numbers

open Kernel.Delimited List

abbrev Digit := Fin 10

/-- `±0.d₁d₂… × 10^point`, with no zero at either end of the digits. -/
structure Decimal where
  negative : Bool
  digits : List Digit
  point : Int
  starts : digits.head?.any (fun digit => decide (digit ≠ 0)) = true
  ends : digits.getLast?.any (fun digit => decide (digit ≠ 0)) = true
  deriving DecidableEq

inductive Number where
  | zero
  | nonzero (decimal : Decimal)
  deriving DecidableEq

def digitChar (digit : Digit) : Char := Char.ofNat (48 + digit.val)

def zeros (count : Int) : List Digit := replicate count.toNat 0

/-- What stands before the point, behind it, and behind the `e`. -/
structure Notation where
  whole : List Digit
  fraction : List Digit
  exponent : Option Int

/-- The four notations of `Number::toString`. -/
def notationOf (digits : List Digit) (point : Int) : Notation :=
  if digits.length ≤ point ∧ point ≤ 21 then
    ⟨digits ++ zeros (point - digits.length), [], none⟩
  else if 0 < point ∧ point ≤ 21 then
    ⟨digits.take point.toNat, digits.drop point.toNat, none⟩
  else if -6 < point ∧ point ≤ 0 then ⟨[0], zeros (-point) ++ digits, none⟩
  else ⟨digits.take 1, digits.drop 1, some (point - 1)⟩

def fractionText (fraction : List Digit) : List Char :=
  if fraction = [] then [] else '.' :: fraction.map digitChar

def exponentText : Option Int -> List Char
  | none => []
  | some exponent => 'e' :: (if 0 ≤ exponent then '+' else '-') :: Nat.toDigits 10 exponent.natAbs

def Notation.text (parts : Notation) : List Char :=
  parts.whole.map digitChar ++ (fractionText parts.fraction ++ exponentText parts.exponent)

/-- `Number::toString`, which `JSON.stringify` uses for finite numbers. -/
def numberText : Number -> List Char
  | .zero => ['0']
  | .nonzero decimal =>
    (if decimal.negative then ['-'] else []) ++
      (notationOf decimal.digits decimal.point).text

def wholeNumber (value : Nat) : Number :=
  let digits := (Nat.toDigits 10 value).map fun char => Fin.ofNat 10 (char.toNat - 48)
  let kept := (digits.reverse.dropWhile fun digit => decide (digit = 0)).reverse
  if h : kept.head?.any (fun digit => decide (digit ≠ 0)) = true ∧
      kept.getLast?.any (fun digit => decide (digit ≠ 0)) = true then
    .nonzero
      { negative := false, digits := kept, point := digits.length, starts := h.1, ends := h.2 }
  else .zero

def Ends (symbol : Char) : Prop := symbol = '.' \/ symbol = 'e'

theorem digitChar_injective {left right : Digit} (hequal : digitChar left = digitChar right) :
    left = right := by
  revert left right
  decide

theorem not_ends_digitChar (digit : Digit) : Not (Ends (digitChar digit)) := by
  unfold Ends
  revert digit
  decide

variable {left right : List Digit}

theorem map_digitChar_injective (hequal : left.map digitChar = right.map digitChar) :
    left = right :=
  map_injective_iff.mpr (fun _ _ => digitChar_injective) hequal

theorem digits_readable (digits : List Digit) : Readable Ends (map digitChar) digits := by
  refine .of_free ?_ fun _ => map_digitChar_injective
  intro digits symbol hmem
  obtain ⟨digit, _, rfl⟩ := mem_map.mp hmem
  exact not_ends_digitChar digit

theorem exponentText_stops (exponent : Option Int) : Stops Ends (exponentText exponent) := by
  cases exponent with
  | none => exact .nil
  | some exponent => exact .cons (.inr rfl) _

theorem fractionText_stops (fraction : List Digit) (exponent : Option Int) :
    Stops Ends (fractionText fraction ++ exponentText exponent) := by
  unfold fractionText
  split
  · exact exponentText_stops exponent
  · exact .cons (.inl rfl) _

theorem toDigits_injective {left right : Nat}
    (hequal : Nat.toDigits 10 left = Nat.toDigits 10 right) : left = right := by
  have hvalue := congrArg (fun chars => Nat.ofDigitChars 10 chars 0) hequal
  simpa only [Nat.ofDigitChars_toDigits (by decide : 1 < 10) (Nat.le_refl 10)] using hvalue

theorem exponentText_injective {left right : Option Int}
    (hequal : exponentText left = exponentText right) : left = right := by
  cases left with
  | none =>
    cases right with
    | none => rfl
    | some exponent => cases hequal
  | some exponent =>
    cases right with
    | none => cases hequal
    | some other =>
      simp only [exponentText, cons.injEq, true_and] at hequal
      obtain ⟨hsign, hdigits⟩ := hequal
      have habs : exponent.natAbs = other.natAbs := toDigits_injective hdigits
      have hsame : 0 ≤ exponent <-> 0 ≤ other := by
        split at hsign <;> split at hsign
        · omega
        · simp at hsign
        · simp at hsign
        · omega
      congr 1
      omega

theorem fraction_exponent_injective {leftExponent rightExponent : Option Int}
    (hequal : fractionText left ++ exponentText leftExponent =
      fractionText right ++ exponentText rightExponent) :
    left = right /\ leftExponent = rightExponent := by
  unfold fractionText at hequal
  split at hequal
  · rename_i hleft
    split at hequal
    · rename_i hright
      exact ⟨hleft.trans hright.symm, exponentText_injective hequal⟩
    · cases leftExponent <;> simp [exponentText] at hequal
  · split at hequal
    · cases rightExponent <;> simp [exponentText] at hequal
    · obtain ⟨hdigits, hexponent⟩ := digits_readable left right _ _ (exponentText_stops _)
        (exponentText_stops _) (cons.inj hequal).2
      exact ⟨hdigits, exponentText_injective hexponent⟩

theorem Notation.text_injective {left right : Notation} (hequal : left.text = right.text) :
    left = right := by
  obtain ⟨hwhole, hrest⟩ := digits_readable left.whole right.whole _ _
    (fractionText_stops _ _) (fractionText_stops _ _) hequal
  obtain ⟨hfraction, hexponent⟩ := fraction_exponent_injective hrest
  cases left
  cases right
  cases hwhole
  cases hfraction
  cases hexponent
  rfl

theorem zeros_eq_append {first second : Nat}
    (hleft : left.head?.any (fun digit => decide (digit ≠ 0)) = true)
    (hright : right.head?.any (fun digit => decide (digit ≠ 0)) = true)
    (hequal : replicate first 0 ++ left = replicate second 0 ++ right) :
    first = second /\ left = right := by
  induction first generalizing second with
  | zero =>
    cases second with
    | zero => exact ⟨rfl, hequal⟩
    | succ second =>
      rw [replicate_zero, nil_append] at hequal
      simp [hequal, replicate_succ] at hleft
  | succ first ih =>
    cases second with
    | zero =>
      rw [replicate_zero, nil_append] at hequal
      simp [<- hequal, replicate_succ] at hright
    | succ second =>
      simp only [replicate_succ, cons_append, cons.injEq, true_and] at hequal
      obtain ⟨hcount, hrest⟩ := ih hequal
      exact ⟨congrArg Nat.succ hcount, hrest⟩

theorem append_zeros_eq {first second : Nat}
    (hleft : left.getLast?.any (fun digit => decide (digit ≠ 0)) = true)
    (hright : right.getLast?.any (fun digit => decide (digit ≠ 0)) = true)
    (hequal : left ++ replicate first 0 = right ++ replicate second 0) : left = right := by
  have hreversed := congrArg reverse hequal
  simp only [reverse_append, reverse_replicate] at hreversed
  have hsame := zeros_eq_append (by rwa [head?_reverse]) (by rwa [head?_reverse])
    hreversed
  exact reverse_injective hsame.2

theorem notationOf_digits {digits : List Digit} (point : Int)
    (hstarts : digits.head?.any (fun digit => decide (digit ≠ 0)) = true) :
    ∃ before after,
      (notationOf digits point).whole ++ (notationOf digits point).fraction =
          replicate before 0 ++ (digits ++ replicate after 0) /\
        (notationOf digits point).whole.length + (notationOf digits point).exponent.getD 0 =
          point + before := by
  have hsome : 1 ≤ digits.length := by
    cases digits with
    | nil => simp at hstarts
    | cons digit digits => exact Nat.le_add_left 1 _
  unfold notationOf
  split
  · refine ⟨0, (point - digits.length).toNat, by simp [zeros], ?_⟩
    simp only [zeros, length_append, length_replicate, Option.getD_none]
    omega
  · split
    · refine ⟨0, 0, by simp, ?_⟩
      simp only [length_take, Option.getD_none]
      omega
    · split
      · refine ⟨(-point).toNat + 1, 0, by simp [zeros, replicate_succ], ?_⟩
        simp only [length_singleton, Option.getD_none]
        omega
      · refine ⟨0, 0, ?_, ?_⟩
        · simp only [take_append_drop, replicate_zero, nil_append, append_nil]
        · simp only [length_take, Option.getD_some]
          omega

variable {left right : Decimal}

theorem notationOf_injective
    (hequal : notationOf left.digits left.point = notationOf right.digits right.point) :
    left.digits = right.digits /\ left.point = right.point := by
  obtain ⟨first, after, hleft, hpoint⟩ := notationOf_digits left.point left.starts
  obtain ⟨second, other, hright, hplace⟩ := notationOf_digits right.point right.starts
  have hheads : ∀ {digits : List Digit} {after : Nat},
      digits.head?.any (fun digit => decide (digit ≠ 0)) = true ->
      (digits ++ replicate after 0).head?.any (fun digit => decide (digit ≠ 0)) = true := by
    intro digits after hstarts
    cases digits with
    | nil => simp at hstarts
    | cons digit digits => exact hstarts
  rw [hequal] at hleft hpoint
  obtain ⟨hcount, hdigits⟩ := zeros_eq_append (hheads left.starts) (hheads right.starts)
    (hleft.symm.trans hright)
  have hsame := append_zeros_eq left.ends right.ends hdigits
  exact ⟨hsame, by omega⟩

theorem digit_ne_minus (digit : Digit) : digitChar digit ≠ '-' := by
  revert digit
  decide

theorem notationOf_starts (decimal : Decimal) :
    ∃ digit rest, (notationOf decimal.digits decimal.point).text = digitChar digit :: rest := by
  have hstarts := decimal.starts
  cases hdigits : decimal.digits with
  | nil => simp [hdigits] at hstarts
  | cons digit digits =>
    unfold notationOf Notation.text
    split
    · exact ⟨digit, _, rfl⟩
    · split
      · rename_i hpoint
        obtain ⟨count, hcount⟩ := Int.eq_succ_of_zero_lt hpoint.1
        simp only [hcount, Int.toNat_natCast_add_one, take_succ_cons]
        exact ⟨digit, _, rfl⟩
      · split
        · exact ⟨0, _, rfl⟩
        · exact ⟨digit, _, rfl⟩

theorem nonzero_ne_zero (decimal : Decimal) : numberText (.nonzero decimal) ≠ numberText .zero := by
  intro hequal
  have hstarts := decimal.starts
  simp only [numberText] at hequal
  split at hequal
  · cases hequal
  · have hzero : notationOf decimal.digits decimal.point = ⟨[0], [], none⟩ :=
      Notation.text_injective hequal
    obtain ⟨before, after, hdigits, _⟩ := notationOf_digits decimal.point hstarts
    rw [hzero] at hdigits
    cases hcases : decimal.digits with
    | nil => simp [hcases] at hstarts
    | cons digit digits =>
      have hmem : digit ∈ [(0 : Digit)] ++ [] := by
        rw [hdigits, hcases]
        simp
      simp only [hcases, head?_cons, Option.any_some, decide_eq_true_eq] at hstarts
      exact hstarts (by simpa using hmem)

theorem signed_injective (hequal : numberText (.nonzero left) = numberText (.nonzero right)) :
    left.negative = right.negative /\
      (notationOf left.digits left.point).text = (notationOf right.digits right.point).text := by
  obtain ⟨first, rest, hleft⟩ := notationOf_starts left
  obtain ⟨second, tail, hright⟩ := notationOf_starts right
  simp only [numberText, hleft, hright] at hequal ⊢
  cases hnegative : left.negative <;> cases hother : right.negative <;>
    simp only [hnegative, hother, Bool.false_eq_true, if_true, if_false, nil_append,
      singleton_append, cons.injEq, true_and] at hequal ⊢
  · exact hequal
  · exact absurd hequal.1 (digit_ne_minus first)
  · exact absurd hequal.1.symm (digit_ne_minus second)
  · exact hequal

theorem numberText_injective {left right : Number} (hequal : numberText left = numberText right) :
    left = right := by
  cases left with
  | zero =>
    cases right with
    | zero => rfl
    | nonzero decimal => exact absurd hequal.symm (nonzero_ne_zero decimal)
  | nonzero decimal =>
    cases right with
    | zero => exact absurd hequal (nonzero_ne_zero decimal)
    | nonzero other =>
      obtain ⟨hsign, htext⟩ := signed_injective hequal
      obtain ⟨hdigits, hpoint⟩ := notationOf_injective (Notation.text_injective htext)
      cases decimal
      cases other
      cases hsign
      cases hdigits
      cases hpoint
      rfl

def numericSymbols : List Char := "0123456789.e+-".toList

variable {symbol : Char}

theorem mem_numericSymbols_of_isDigit (hdigit : symbol.isDigit = true) :
    symbol ∈ numericSymbols := by
  simp only [Char.isDigit, Bool.and_eq_true, decide_eq_true_eq, UInt32.le_iff_toNat_le] at hdigit
  obtain ⟨hlow, hhigh⟩ := hdigit
  have hall : ∀ code, code < 10 -> Char.ofNat (48 + code) ∈ numericSymbols := by decide
  have hcode := hall (symbol.toNat - 48) (by
    have : symbol.toNat ≤ 57 := hhigh
    omega)
  have hsame : 48 + (symbol.toNat - 48) = symbol.toNat := Nat.add_sub_cancel' hlow
  rwa [hsame, Char.ofNat_toNat] at hcode

theorem digitChar_numeric (digit : Digit) : digitChar digit ∈ numericSymbols := by
  revert digit
  decide

theorem exponentText_numeric {exponent : Option Int} (hmem : symbol ∈ exponentText exponent) :
    symbol ∈ numericSymbols := by
  cases exponent with
  | none => cases hmem
  | some exponent =>
    simp only [exponentText, mem_cons] at hmem
    rcases hmem with rfl | rfl | hdigit
    · decide
    · split <;> decide
    · exact mem_numericSymbols_of_isDigit
        (Nat.isDigit_of_mem_toDigits (by decide) (Nat.le_refl 10) hdigit)

theorem text_numeric {parts : Notation} (hmem : symbol ∈ parts.text) : symbol ∈ numericSymbols := by
  simp only [Notation.text, mem_append, mem_map] at hmem
  rcases hmem with ⟨digit, _, rfl⟩ | hfraction | hexponent
  · exact digitChar_numeric digit
  · unfold fractionText at hfraction
    split at hfraction
    · cases hfraction
    · rcases mem_cons.mp hfraction with rfl | hdigit
      · decide
      · obtain ⟨digit, _, rfl⟩ := mem_map.mp hdigit
        exact digitChar_numeric digit
  · exact exponentText_numeric hexponent

theorem numberText_numeric {number : Number} (hmem : symbol ∈ numberText number) :
    symbol ∈ numericSymbols := by
  cases number with
  | zero =>
    obtain rfl := mem_singleton.mp hmem
    decide
  | nonzero decimal =>
    rcases mem_append.mp hmem with hsign | htext
    · split at hsign
      · obtain rfl := mem_singleton.mp hsign
        decide
      · cases hsign
    · exact text_numeric htext

theorem numberText_starts (number : Number) :
    ∃ symbol rest, numberText number = symbol :: rest /\ symbol ∈ numericSymbols := by
  have hne : numberText number ≠ [] := by
    cases number with
    | zero => exact cons_ne_nil _ _
    | nonzero decimal =>
      obtain ⟨digit, rest, htext⟩ := notationOf_starts decimal
      simp [numberText, htext]
  obtain ⟨symbol, rest, htext⟩ := exists_cons_of_ne_nil hne
  exact ⟨symbol, rest, htext, numberText_numeric (htext ▸ mem_cons_self)⟩

/-- `1.5`, `-100`, `1e-7` and `1e+21`. -/
example : [Number.nonzero ⟨false, [1, 5], 1, rfl, rfl⟩, .nonzero ⟨true, [1], 3, rfl, rfl⟩,
    .nonzero ⟨false, [1], -6, rfl, rfl⟩, .nonzero ⟨false, [1], 22, rfl, rfl⟩].map
      (fun number => String.ofList (numberText number)) = ["1.5", "-100", "1e-7", "1e+21"] := by
  decide

end AnchorMind.Text.Numbers

/-!
# Reading numbers

A JSON number is a sign, whole digits without a zero in front, a fraction, and an
exponent.  It is read as the decimal it denotes; what a double makes of that decimal is
left to the reader.
-/

namespace AnchorMind.Text.NumberReading

open Kernel.Delimited Numbers List

def digitOf (char : Char) : Digit := Fin.ofNat 10 (char.toNat - 48)

def ofDigits (negative : Bool) (digits : List Digit) (point : Int) : Number :=
  let body := digits.dropWhile fun digit => decide (digit = 0)
  let kept := body.rdropWhile fun digit => decide (digit = 0)
  if h : kept.head?.any (fun digit => decide (digit ≠ 0)) = true ∧
      kept.getLast?.any (fun digit => decide (digit ≠ 0)) = true then
    .nonzero
      { negative := negative, digits := kept, point := point - (digits.length - body.length : Nat),
        starts := h.1, ends := h.2 }
  else .zero

def parseFraction : List Char -> Option (List Char × List Char)
  | '.' :: rest =>
    if rest.takeWhile Char.isDigit = [] then none
    else some (rest.takeWhile Char.isDigit, rest.dropWhile Char.isDigit)
  | rest => some ([], rest)

def parseSigned : List Char -> Bool × List Char
  | '-' :: rest => (true, rest)
  | '+' :: rest => (false, rest)
  | rest => (false, rest)

def parseExponent : List Char -> Option (Int × List Char)
  | [] => some (0, [])
  | first :: rest =>
    if first = 'e' ∨ first = 'E' then
      let signed := parseSigned rest
      let digits := signed.2.takeWhile Char.isDigit
      if digits = [] then none
      else
        let size : Int := Nat.ofDigitChars 10 digits 0
        some (if signed.1 then -size else size, signed.2.dropWhile Char.isDigit)
    else some (0, first :: rest)

/-- One digit, or several of which the first is no zero. -/
def validWhole (whole : List Char) : Bool :=
  decide (whole ≠ []) && (decide (whole.head? ≠ some '0') || decide (whole.length = 1))

def parseNumber (text : List Char) : Option (Number × List Char) := do
  let negative := decide (text.head? = some '-')
  let body := if negative then text.tail else text
  let whole := body.takeWhile Char.isDigit
  if validWhole whole then
    let (fraction, rest) <- parseFraction (body.dropWhile Char.isDigit)
    let (exponent, rest) <- parseExponent rest
    return (ofDigits negative ((whole ++ fraction).map digitOf) (whole.length + exponent), rest)
  else none

def EndsNumber (symbol : Char) : Prop :=
  symbol.isDigit = false /\ symbol ≠ '.' /\ symbol ≠ 'e' /\ symbol ≠ 'E'

theorem digitOf_digitChar (digit : Digit) : digitOf (digitChar digit) = digit := by
  revert digit
  decide

theorem isDigit_digitChar (digit : Digit) : (digitChar digit).isDigit = true := by
  revert digit
  decide

theorem map_digitOf (digits : List Digit) : (digits.map digitChar).map digitOf = digits := by
  induction digits with
  | nil => rfl
  | cons digit rest ih => simp only [map_cons, digitOf_digitChar, ih]

theorem span_digits {digits rest : List Char} (hdigits : ∀ c ∈ digits, c.isDigit = true)
    (hrest : Stops (fun symbol => symbol.isDigit = false) rest) :
    (digits ++ rest).takeWhile Char.isDigit = digits /\
      (digits ++ rest).dropWhile Char.isDigit = rest := by
  induction digits with
  | nil =>
    cases rest with
    | nil => exact ⟨rfl, rfl⟩
    | cons symbol tail =>
      have hsymbol := hrest symbol tail rfl
      simp [hsymbol]
  | cons digit digits ih =>
    obtain ⟨htake, hdrop⟩ := ih fun c hc => hdigits c (mem_cons_of_mem _ hc)
    have hdigit := hdigits digit mem_cons_self
    simp [hdigit, htake, hdrop]

variable {digits : List Digit}

theorem span_map_digitChar {rest : List Char}
    (hrest : Stops (fun symbol => symbol.isDigit = false) rest) :
    (digits.map digitChar ++ rest).takeWhile Char.isDigit = digits.map digitChar /\
      (digits.map digitChar ++ rest).dropWhile Char.isDigit = rest := by
  refine span_digits ?_ hrest
  intro c hc
  obtain ⟨digit, -, rfl⟩ := mem_map.mp hc
  exact isDigit_digitChar digit

theorem parseExponent_text {exponent : Option Int} {rest : List Char}
    (hrest : Stops EndsNumber rest) :
    parseExponent (exponentText exponent ++ rest) = some (exponent.getD 0, rest) := by
  cases exponent with
  | none =>
    cases rest with
    | nil => rfl
    | cons symbol tail =>
      obtain ⟨-, -, hlower, hupper⟩ := hrest symbol tail rfl
      simp [exponentText, parseExponent, hlower, hupper]
  | some exponent =>
    have hspan := @span_digits (Nat.toDigits 10 exponent.natAbs) rest
      (fun c hc => Nat.isDigit_of_mem_toDigits (by decide) (Nat.le_refl 10) hc)
      fun symbol tail hcons => (hrest symbol tail hcons).1
    have hne : Nat.toDigits 10 exponent.natAbs ≠ [] := Nat.toDigits_ne_nil
    have hvalue : Nat.ofDigitChars 10 (Nat.toDigits 10 exponent.natAbs) 0 = exponent.natAbs :=
      Nat.ofDigitChars_toDigits (by decide) (Nat.le_refl 10)
    by_cases hsign : 0 ≤ exponent
    · simp only [exponentText, if_pos hsign, cons_append, parseExponent, true_or, if_true,
        parseSigned, hspan, hne, if_false, hvalue, Bool.false_eq_true, Option.getD_some]
      rw [Int.natAbs_of_nonneg hsign]
    · simp only [exponentText, if_neg hsign, cons_append, parseExponent, true_or, if_true,
        parseSigned, hspan, hne, if_false, hvalue, Option.getD_some]
      have hback : -((exponent.natAbs : Nat) : Int) = exponent := by omega
      rw [hback]

theorem parseFraction_text {fraction : List Digit} {rest : List Char}
    (hrest : Stops (fun symbol => symbol.isDigit = false /\ symbol ≠ '.') rest) :
    parseFraction (fractionText fraction ++ rest) = some (fraction.map digitChar, rest) := by
  cases fraction with
  | nil =>
    cases rest with
    | nil => rfl
    | cons symbol tail =>
      obtain ⟨-, hpoint⟩ := hrest symbol tail rfl
      simp only [fractionText, if_true, nil_append, map_nil]
      rw [parseFraction.eq_def]
      split
      · rename_i heq
        exact absurd (cons.inj heq).1 hpoint
      · rfl
  | cons digit digits =>
    have hspan := @span_map_digitChar (digit :: digits) rest
      fun symbol tail hcons => (hrest symbol tail hcons).1
    simp only [fractionText, cons_ne_nil, if_false, cons_append, parseFraction]
    rw [map_cons, cons_append] at hspan
    simp only [map_cons, cons_append, hspan, cons_ne_nil, if_false]

theorem dropWhile_zeros (count : Nat)
    (hstarts : digits.head?.any (fun digit => decide (digit ≠ 0)) = true) :
    (replicate count 0 ++ digits).dropWhile (fun digit => decide (digit = 0)) = digits := by
  induction count with
  | zero =>
    cases digits with
    | nil => rfl
    | cons digit rest =>
      have hne : digit ≠ 0 := by simpa using hstarts
      simp [hne]
  | succ count ih => simpa [replicate_succ] using ih

theorem rdropWhile_zeros (count : Nat)
    (hends : digits.getLast?.any (fun digit => decide (digit ≠ 0)) = true) :
    (digits ++ replicate count 0).rdropWhile (fun digit => decide (digit = 0)) = digits := by
  rw [rdropWhile, reverse_append, reverse_replicate,
    dropWhile_zeros count (by rwa [head?_reverse]), reverse_reverse]

theorem ofDigits_padded (decimal : Decimal) (before after : Nat) :
    ofDigits decimal.negative
        (replicate before 0 ++ (decimal.digits ++ replicate after 0))
        (decimal.point + before) = .nonzero decimal := by
  have hstarts : (decimal.digits ++ replicate after 0).head?.any
      (fun digit => decide (digit ≠ 0)) = true := by
    have hhead := decimal.starts
    cases hdigits : decimal.digits with
    | nil => simp [hdigits] at hhead
    | cons digit rest => simpa [hdigits] using hhead
  have hpoint : decimal.point + before - ((replicate before (0 : Digit) ++
      (decimal.digits ++ replicate after 0)).length -
        (decimal.digits ++ replicate after 0).length : Nat) = decimal.point := by
    simp only [length_append, length_replicate]
    omega
  simp only [ofDigits, dropWhile_zeros before hstarts, rdropWhile_zeros after decimal.ends, hpoint]
  rw [dif_pos ⟨decimal.starts, decimal.ends⟩]

theorem validWhole_notationOf (decimal : Decimal) :
    validWhole ((notationOf decimal.digits decimal.point).whole.map digitChar) = true := by
  have hstarts := decimal.starts
  cases hdigits : decimal.digits with
  | nil => simp [hdigits] at hstarts
  | cons digit rest =>
    have hne : digitChar digit ≠ '0' := by
      intro hzero
      have hdigit : digit = 0 := digitChar_injective (hzero.trans (rfl : '0' = digitChar 0))
      simp [hdigits, hdigit] at hstarts
    unfold notationOf
    split
    · simp [validWhole, hne]
    · split
      · rename_i hpoint
        obtain ⟨count, hcount⟩ := Int.eq_succ_of_zero_lt hpoint.1
        simp [validWhole, hcount, hne]
      · split
        · rfl
        · simp [validWhole]

theorem text_stops (parts : Notation) (rest : List Char) (hrest : Stops EndsNumber rest) :
    Stops (fun symbol => symbol.isDigit = false /\ symbol ≠ '.')
        (exponentText parts.exponent ++ rest) /\
      Stops (fun symbol => symbol.isDigit = false)
        (fractionText parts.fraction ++ (exponentText parts.exponent ++ rest)) := by
  have hexponent : Stops (fun symbol => symbol.isDigit = false /\ symbol ≠ '.')
      (exponentText parts.exponent ++ rest) := by
    intro symbol tail hcons
    cases hexponent : parts.exponent with
    | none =>
      rw [hexponent] at hcons
      obtain ⟨hdigit, hpoint, -, -⟩ := hrest symbol tail hcons
      exact ⟨hdigit, hpoint⟩
    | some exponent =>
      rw [hexponent] at hcons
      obtain rfl := (cons.inj hcons).1
      exact ⟨rfl, by decide⟩
  refine ⟨hexponent, ?_⟩
  intro symbol tail hcons
  unfold fractionText at hcons
  split at hcons
  · exact (hexponent symbol tail hcons).1
  · obtain rfl := (cons.inj hcons).1
    rfl

theorem parseNumber_text (negative : Bool) {parts : Notation} {rest : List Char}
    (hwhole : validWhole (parts.whole.map digitChar) = true) (hrest : Stops EndsNumber rest) :
    parseNumber ((if negative then ['-'] else []) ++ (parts.text ++ rest)) =
      some (ofDigits negative (parts.whole ++ parts.fraction)
        (parts.whole.length + parts.exponent.getD 0), rest) := by
  have hstops := text_stops parts rest hrest
  have hspan := @span_map_digitChar parts.whole _ hstops.2
  have hfraction := @parseFraction_text parts.fraction _ hstops.1
  have hexponent := @parseExponent_text parts.exponent rest hrest
  have hbody : parts.text ++ rest = parts.whole.map digitChar ++
      (fractionText parts.fraction ++ (exponentText parts.exponent ++ rest)) := by
    simp only [Notation.text, append_assoc]
  have hunsigned : (parts.text ++ rest).head? ≠ some '-' := by
    rw [hbody]
    cases hcases : parts.whole with
    | nil => simp [hcases, validWhole] at hwhole
    | cons digit digits => simp [digit_ne_minus]
  have hsign : decide (((if negative then ['-'] else []) ++ (parts.text ++ rest)).head? =
      some '-') = negative := by
    cases negative with
    | true => rfl
    | false => exact decide_eq_false hunsigned
  have hskip : (if negative then ((if negative then ['-'] else []) ++ (parts.text ++ rest)).tail
      else (if negative then ['-'] else []) ++ (parts.text ++ rest)) = parts.text ++ rest := by
    cases negative <;> rfl
  simp only [parseNumber, hsign, hskip]
  rw [hbody, hspan.1, hspan.2, if_pos hwhole, hfraction]
  simp only [Option.bind_eq_bind, Option.bind_some, hexponent, length_map,
    <- map_append, map_digitOf, Option.pure_def]

/-- What `numberText` writes is a number of JSON and denotes the number written. -/
theorem parseNumber_numberText (number : Number) {rest : List Char}
    (hrest : Stops EndsNumber rest) :
    parseNumber (numberText number ++ rest) = some (number, rest) := by
  cases number with
  | zero => exact @parseNumber_text false ⟨[0], [], none⟩ rest rfl hrest
  | nonzero decimal =>
    obtain ⟨before, after, hdigits, hpoint⟩ := notationOf_digits decimal.point decimal.starts
    rw [numberText, append_assoc,
      parseNumber_text decimal.negative (validWhole_notationOf decimal) hrest, hdigits, hpoint,
      ofDigits_padded]

end AnchorMind.Text.NumberReading
