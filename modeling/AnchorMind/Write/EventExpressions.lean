import AnchorMind.Kernel.Backtracking
import AnchorMind.Text.JsonText
import AnchorMind.Text.Characters

/-!
# The date expressions of a text

The rules read absolute dates and expressions relative to a reference time, in Korean and
in English.  A rule is a pattern; what its groups captured is kept as an expression, which
is placed in time once the reference is known.
-/

namespace AnchorMind.Write.EventExpressions

open Kernel.Backtracking Kernel.Backtracking.Matcher Text.JsonText Text.Whitespace List

inductive CalendarUnit where
  | day
  | week
  | month
  | year
  deriving DecidableEq

inductive Expression where
  /-- A date, of the reference's year when it names none. -/
  | date (year : Option Nat) (month : Int) (date : Nat)
  | month (year : Nat) (month : Int)
  | year (year : Nat)
  /-- A day so many days from the reference's. -/
  | dayAt (offset : Int)
  /-- So many units later, or earlier. -/
  | shifted (count : Int) (unit : CalendarUnit)
  /-- The week, the month or the year so many from the reference's. -/
  | weekAt (offset : Int)
  | monthAt (offset : Int)
  | yearAt (offset : Int)
  deriving DecidableEq

def isDigit (unit : UInt16) : Bool := 48 ≤ unit && unit ≤ 57

def isWord (unit : UInt16) : Bool :=
  isDigit unit || (65 ≤ unit && unit ≤ 90) || (97 ≤ unit && unit ≤ 122) || unit == 95

/-- `\s` takes what `trim` takes; none of it is half of a pair. -/
def isSpace (unit : UInt16) : Bool := isTrimmed (Char.ofNat unit.toNat)

def trim (text : JsString) : JsString := (text.dropWhile isSpace).rdropWhile isSpace

def lowerCase (unit : UInt16) : UInt16 := if 65 ≤ unit && unit ≤ 90 then unit + 32 else unit

def isOneOf (text : String) (unit : UInt16) : Bool := (ofString text).contains unit

def numberOf (digits : List UInt16) : Nat :=
  digits.foldl (fun number unit => 10 * number + (unit.toNat - 48)) 0

abbrev Pattern (Value : Type) : Type := Matcher UInt16 Value

def digits (least most : Nat) : Pattern Nat := do
  let row <- between isDigit least most
  pure (numberOf row)

def spaces : Pattern (List UInt16) := many isSpace 0

def someSpaces : Pattern (List UInt16) := many isSpace 1

def word (text : String) : Pattern PUnit := literal id (ofString text)

def named {Value : Type} (fold : UInt16 -> UInt16) (table : List (String × Value)) :
    Pattern Value := oneOf fold (table.map fun (name, value) => (ofString name, value))

def enMonths : List (String × Int) :=
  [("January", 0), ("February", 1), ("March", 2), ("April", 3), ("May", 4), ("June", 5),
    ("July", 6), ("August", 7), ("September", 8), ("October", 9), ("November", 10),
    ("December", 11), ("Jan", 0), ("Feb", 1), ("Mar", 2), ("Apr", 3), ("Jun", 5), ("Jul", 6),
    ("Aug", 7), ("Sept", 8), ("Sep", 8), ("Oct", 9), ("Nov", 10), ("Dec", 11)]

def enMonthRe : Pattern Int := do
  let month <- named id enMonths
  let _ <- optional (word ".")
  pure month

def enNumberWords : List (String × Nat) :=
  [("a", 1), ("an", 1), ("one", 1), ("two", 2), ("three", 3), ("four", 4), ("five", 5),
    ("six", 6), ("seven", 7), ("eight", 8), ("nine", 9), ("ten", 10)]

def koUnit : List (String × CalendarUnit) :=
  [("일", .day), ("주일", .week), ("주", .week), ("개월", .month), ("달", .month), ("년", .year)]

def ordinal : Pattern (Option PUnit) :=
  optional (named id [("st", ⟨⟩), ("nd", ⟨⟩), ("rd", ⟨⟩), ("th", ⟨⟩)])

/-- `(?:,?\s+(\d{4}))?` -/
def laterYear : Pattern (Option Nat) :=
  optional do
    let _ <- optional (word ",")
    let _ <- someSpaces
    digits 4 4

/-- 2026-10-12, 2026/10/12, 2026.10.12 -/
def numericDate : Pattern Expression := do
  notAfter isDigit
  let year <- digits 4 4
  let _ <- symbol (isOneOf "-/.")
  let month <- digits 1 2
  let _ <- symbol (isOneOf "-/.")
  let date <- digits 1 2
  notBefore (symbol isDigit)
  pure (.date (some year) (month - 1) date)

/-- 2026년 10월 12일, 2026년 10월 -/
def koreanDate : Pattern Expression := do
  let year <- digits 4 4
  let _ <- spaces
  word "년"
  let _ <- spaces
  let month <- digits 1 2
  let _ <- spaces
  word "월"
  let date <- optional do
    let _ <- spaces
    let date <- digits 1 2
    let _ <- spaces
    word "일"
    pure date
  pure (match date with
    | some date => .date (some year) (month - 1) date
    | none => .month year (month - 1))

/-- 10월 12일 -/
def koreanMonthDay : Pattern Expression := do
  notAfter isDigit
  let month <- digits 1 2
  let _ <- spaces
  word "월"
  let _ <- spaces
  let date <- digits 1 2
  let _ <- spaces
  word "일"
  pure (.date none (month - 1) date)

/-- 2026년, with no month behind it -/
def koreanYear : Pattern Expression := do
  notAfter isDigit
  let year <- digits 4 4
  let _ <- spaces
  word "년"
  notBefore do
    let _ <- spaces
    let _ <- digits 1 2
    let _ <- spaces
    word "월"
  pure (.year year)

/-- October 12, 2026 / Oct 12 -/
def monthDayYear : Pattern Expression := do
  boundary isWord
  let month <- enMonthRe
  let _ <- someSpaces
  let date <- digits 1 2
  let _ <- ordinal
  let year <- laterYear
  boundary isWord
  pure (.date year month date)

/-- 12 October 2026 / 12th Oct -/
def dayMonthYear : Pattern Expression := do
  boundary isWord
  let date <- digits 1 2
  let _ <- ordinal
  let _ <- someSpaces
  let month <- enMonthRe
  let year <- laterYear
  boundary isWord
  pure (.date year month date)

/-- October 2026 -/
def monthYear : Pattern Expression := do
  boundary isWord
  let month <- enMonthRe
  let _ <- someSpaces
  let year <- digits 4 4
  boundary isWord
  pure (.month year month)

/-- 오늘, 어제, 그제, 그저께, 내일, 모레 -/
def koreanDay : Pattern Expression :=
  (do
    word "오늘"
    notBefore (word "날")
    pure (.dayAt 0)) <|>
  named id [("어제", .dayAt (-1)), ("그저께", .dayAt (-2)), ("그제", .dayAt (-2)),
    ("내일", .dayAt 1), ("모레", .dayAt 2)]

/-- 3일 전, 2주 전, 5개월 전, 1년 후 -/
def koreanShift : Pattern Expression := do
  notAfter isDigit
  let count <- digits 1 3
  let _ <- spaces
  let unit <- named id koUnit
  let _ <- spaces
  let sign <- named id [("전", (-1 : Int)), ("후", 1), ("뒤", 1)]
  pure (.shifted (sign * count) unit)

/-- 지난주, 이번 주, 다음 주 / 지난달 / 작년, 올해, 내년, 재작년 -/
def koreanPeriod : Pattern Expression :=
  (do
    let offset <- named id [("지난", (-1 : Int)), ("이번", 0), ("다음", 1)]
    let _ <- spaces
    (do
      word "주"
      notBefore (symbol (isOneOf "제요식소장문력인차행변체석"))
      pure (.weekAt offset)) <|>
    (do
      word "달"
      notBefore (symbol (isOneOf "성러라리려콤"))
      pure (.monthAt offset))) <|>
  named id [("재작년", .yearAt (-2)), ("작년", .yearAt (-1)), ("올해", .yearAt 0),
    ("내년", .yearAt 1)]

def englishDay : Pattern Expression := do
  boundary isWord
  let offset <- named lowerCase [("today", 0), ("yesterday", -1), ("tomorrow", 1)]
  boundary isWord
  pure (.dayAt offset)

def englishUnit : List (String × CalendarUnit) :=
  [("day", .day), ("week", .week), ("month", .month), ("year", .year)]

def englishAgo : Pattern Expression := do
  boundary isWord
  let count <- digits 1 3 <|> named lowerCase enNumberWords
  let _ <- someSpaces
  let unit <- named lowerCase englishUnit
  let _ <- optional (named lowerCase [("s", ())])
  let _ <- someSpaces
  named lowerCase [("ago", ())]
  boundary isWord
  pure (.shifted (-count) unit)

def englishPeriod : Pattern Expression := do
  boundary isWord
  let offset <- named lowerCase [("last", (-1 : Int)), ("this", 0), ("next", 1)]
  let _ <- someSpaces
  let period <- named lowerCase
    [("week", Expression.weekAt), ("month", .monthAt), ("year", .yearAt)]
  boundary isWord
  pure (period offset)

def rules : List (Pattern Expression) :=
  [numericDate, koreanDate, koreanMonthDay, koreanYear, monthDayYear, dayMonthYear, monthYear,
    koreanDay, koreanShift, koreanPeriod, englishDay, englishAgo, englishPeriod]

def expressions (text : JsString) : List (Match Expression) :=
  rules.flatMap fun rule => matchAll rule text

def Expression.Bounded : Expression -> Prop
  | .month number _ => number < 10000
  | .dayAt offset => -2 ≤ offset /\ offset ≤ 2
  | .shifted count _ => -999 ≤ count /\ count ≤ 999
  | .weekAt offset => -1 ≤ offset /\ offset ≤ 1
  | .monthAt offset => -1 ≤ offset /\ offset ≤ 1
  | .yearAt offset => -2 ≤ offset /\ offset ≤ 1
  | _ => True

instance : (expression : Expression) -> Decidable expression.Bounded
  | .month number _ => inferInstanceAs (Decidable (number < 10000))
  | .dayAt offset => inferInstanceAs (Decidable (-2 ≤ offset /\ offset ≤ 2))
  | .shifted count _ => inferInstanceAs (Decidable (-999 ≤ count /\ count ≤ 999))
  | .weekAt offset => inferInstanceAs (Decidable (-1 ≤ offset /\ offset ≤ 1))
  | .monthAt offset => inferInstanceAs (Decidable (-1 ≤ offset /\ offset ≤ 1))
  | .yearAt offset => inferInstanceAs (Decidable (-2 ≤ offset /\ offset ≤ 1))
  | .date .. | .year _ => isTrue trivial

theorem foldl_digits_lt {row : List UInt16} (hrow : ∀ unit ∈ row, isDigit unit = true)
    (number : Nat) :
    row.foldl (fun number unit => 10 * number + (unit.toNat - 48)) number <
      (number + 1) * 10 ^ row.length := by
  induction row generalizing number with
  | nil => simp
  | cons unit row ih =>
    obtain ⟨hunit, hrest⟩ := forall_mem_cons.mp hrow
    have hdigit : unit.toNat ≤ 57 := by
      simp only [isDigit, Bool.and_eq_true, decide_eq_true_eq] at hunit
      exact UInt16.le_iff_toNat_le.mp hunit.2
    calc (unit :: row).foldl _ number
        < (10 * number + (unit.toNat - 48) + 1) * 10 ^ row.length := ih hrest _
      _ ≤ ((number + 1) * 10) * 10 ^ row.length := Nat.mul_le_mul_right _ (by omega)
      _ = (number + 1) * 10 ^ (unit :: row).length := by
          rw [length_cons, Nat.pow_succ', Nat.mul_assoc]

theorem digits_yields {least most : Nat} (hle : least ≤ most) :
    Yields (digits least most) fun number => number < 10 ^ most := by
  refine (Yields.between hle).bind fun row hrow => Yields.pure ?_
  calc numberOf row < (0 + 1) * 10 ^ row.length := foldl_digits_lt hrow.2 0
    _ ≤ 10 ^ most := by
        rw [Nat.zero_add, Nat.one_mul]
        exact Nat.pow_le_pow_right (by decide) hrow.1

theorem named_yields {Value : Type} {holds : Value -> Prop} {fold : UInt16 -> UInt16}
    {table : List (String × Value)} (htable : ∀ value ∈ table.map Prod.snd, holds value) :
    Yields (named fold table) holds := by
  refine Yields.oneOf fun entry hentry => ?_
  obtain ⟨source, hsource, rfl⟩ := mem_map.mp hentry
  exact htable source.2 (mem_map_of_mem hsource)

theorem koreanDate_bounded : Yields koreanDate Expression.Bounded := by
  refine (digits_yields (by decide)).bind fun year hyear => ?_
  refine Yields.next fun _ => Yields.next fun _ => Yields.next fun _ => Yields.next fun month => ?_
  refine Yields.next fun _ => Yields.next fun _ => Yields.next fun date => Yields.pure ?_
  cases date with
  | none => exact hyear
  | some date => trivial

theorem monthYear_bounded : Yields monthYear Expression.Bounded := by
  refine Yields.next fun _ => Yields.next fun month => Yields.next fun _ => ?_
  exact (digits_yields (by decide)).bind fun year hyear => Yields.next fun _ => Yields.pure hyear

theorem koreanDay_bounded : Yields koreanDay Expression.Bounded := by
  refine Yields.orElse (Yields.next fun _ => Yields.next fun _ => Yields.pure (by decide)) ?_
  exact named_yields (by decide)

theorem koreanShift_bounded : Yields koreanShift Expression.Bounded := by
  refine Yields.next fun _ => (digits_yields (by decide)).bind fun count hcount => ?_
  refine Yields.next fun _ => Yields.next fun unit => Yields.next fun _ => ?_
  have hsigns : Yields (named id [("전", (-1 : Int)), ("후", 1), ("뒤", 1)])
      fun sign => sign = -1 \/ sign = 1 := named_yields (by decide)
  refine hsigns.bind fun sign hsign => Yields.pure ?_
  change -999 ≤ sign * count /\ sign * count ≤ 999
  rcases hsign with rfl | rfl <;> omega

theorem koreanPeriod_bounded : Yields koreanPeriod Expression.Bounded := by
  refine Yields.orElse ?_ (named_yields (by decide))
  have hoffsets : Yields (named id [("지난", (-1 : Int)), ("이번", 0), ("다음", 1)])
      fun offset => -1 ≤ offset /\ offset ≤ 1 := named_yields (by decide)
  refine hoffsets.bind fun offset hoffset => Yields.next fun _ => Yields.orElse ?week ?month
  case week => exact Yields.next fun _ => Yields.next fun _ => Yields.pure hoffset
  case month => exact Yields.next fun _ => Yields.next fun _ => Yields.pure hoffset

theorem englishDay_bounded : Yields englishDay Expression.Bounded := by
  have hoffsets : Yields
      (named lowerCase [("today", (0 : Int)), ("yesterday", -1), ("tomorrow", 1)])
      fun offset => -2 ≤ offset /\ offset ≤ 2 := named_yields (by decide)
  refine Yields.next fun _ => hoffsets.bind fun offset hoffset => ?_
  exact Yields.next fun _ => Yields.pure hoffset

theorem englishAgo_bounded : Yields englishAgo Expression.Bounded := by
  have hcounts : Yields (digits 1 3 <|> named lowerCase enNumberWords)
      fun count => count < 10 ^ 3 :=
    Yields.orElse (digits_yields (by decide)) (named_yields (by decide))
  refine Yields.next fun _ => hcounts.bind fun count hcount => ?_
  refine Yields.next fun _ => Yields.next fun unit => Yields.next fun _ => ?_
  refine Yields.next fun _ => Yields.next fun _ => Yields.next fun _ => Yields.pure ?_
  change -999 ≤ -(count : Int) /\ -(count : Int) ≤ 999
  omega

theorem englishPeriod_bounded : Yields englishPeriod Expression.Bounded := by
  have hoffsets : Yields (named lowerCase [("last", (-1 : Int)), ("this", 0), ("next", 1)])
      fun offset => -1 ≤ offset /\ offset ≤ 1 := named_yields (by decide)
  have hperiods : Yields
      (named lowerCase [("week", Expression.weekAt), ("month", .monthAt), ("year", .yearAt)])
      fun period => ∀ offset, -1 ≤ offset /\ offset ≤ 1 -> (period offset).Bounded := by
    refine named_yields ?_
    rintro period hperiod offset ⟨hlow, hhigh⟩
    simp only [map_cons, map_nil, mem_cons, not_mem_nil, or_false] at hperiod
    rcases hperiod with rfl | rfl | rfl
    · exact ⟨hlow, hhigh⟩
    · exact ⟨hlow, hhigh⟩
    · exact ⟨by omega, hhigh⟩
  refine Yields.next fun _ => hoffsets.bind fun offset hoffset => Yields.next fun _ => ?_
  exact hperiods.bind fun period hperiod =>
    Yields.next fun _ => Yields.pure (hperiod offset hoffset)

theorem rules_bounded : ∀ rule ∈ rules, Yields rule Expression.Bounded := by
  refine forall_mem_cons.mpr ⟨?_, forall_mem_cons.mpr ⟨koreanDate_bounded, ?_⟩⟩
  · refine Yields.next fun _ => Yields.next fun _ => Yields.next fun _ => Yields.next fun _ => ?_
    exact Yields.next fun _ => Yields.next fun _ => Yields.next fun _ => Yields.pure trivial
  refine forall_mem_cons.mpr ⟨?_, forall_mem_cons.mpr ⟨?_, ?_⟩⟩
  · refine Yields.next fun _ => Yields.next fun _ => Yields.next fun _ => Yields.next fun _ => ?_
    refine Yields.next fun _ => Yields.next fun _ => Yields.next fun _ => Yields.next fun _ => ?_
    exact Yields.pure trivial
  · refine Yields.next fun _ => Yields.next fun _ => Yields.next fun _ => Yields.next fun _ => ?_
    exact Yields.next fun _ => Yields.pure trivial
  refine forall_mem_cons.mpr ⟨?_, forall_mem_cons.mpr ⟨?_, ?_⟩⟩
  · refine Yields.next fun _ => Yields.next fun _ => Yields.next fun _ => Yields.next fun _ => ?_
    exact Yields.next fun _ => Yields.next fun _ => Yields.next fun _ => Yields.pure trivial
  · refine Yields.next fun _ => Yields.next fun _ => Yields.next fun _ => Yields.next fun _ => ?_
    exact Yields.next fun _ => Yields.next fun _ => Yields.next fun _ => Yields.pure trivial
  exact forall_mem_cons.mpr ⟨monthYear_bounded, forall_mem_cons.mpr ⟨koreanDay_bounded,
    forall_mem_cons.mpr ⟨koreanShift_bounded, forall_mem_cons.mpr ⟨koreanPeriod_bounded,
    forall_mem_cons.mpr ⟨englishDay_bounded, forall_mem_cons.mpr ⟨englishAgo_bounded,
    forall_mem_cons.mpr ⟨englishPeriod_bounded, forall_mem_nil _⟩⟩⟩⟩⟩⟩⟩

theorem expressions_bounded {text : JsString} {found : Match Expression}
    (hfound : found ∈ expressions text) : found.value.Bounded := by
  obtain ⟨rule, hrule, hmatch⟩ := mem_flatMap.mp hfound
  exact (rules_bounded rule hrule).matchAll hmatch

end AnchorMind.Write.EventExpressions
