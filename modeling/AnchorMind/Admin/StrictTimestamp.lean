import Mathlib.Data.Nat.Digits.Lemmas
import AnchorMind.Dates.TimeValues

/-!
# Strict timestamps

The expiry of a key is read from one written form: a date, a time of the day, and `Z` or an
offset.  A date that does not exist is refused.
-/

namespace AnchorMind.Admin.StrictTimestamp

open Kernel.Calendar Dates.TimeValues Text.JsonText List

/-- What stands at a place of the form: a digit, or a fixed symbol. -/
abbrev Slot := Option UInt16

def isDigit (unit : UInt16) : Bool := 0x30 ≤ unit.toNat && unit.toNat < 0x3A

def Slot.fits (slot : Slot) (unit : UInt16) : Bool := slot.elim (isDigit unit) (· == unit)

/-- Each `d` is a digit. -/
def slots (form : String) : List Slot :=
  (ofString form).map fun unit => if unit = 0x64 then none else some unit

/-- One of the forms the expression allows: the number of digits of the fraction if there are
seconds, and whether an offset is negative if there is one. -/
structure Shape where
  fraction : Option Nat
  offset : Option Bool
  deriving DecidableEq

def Shape.slots (shape : Shape) : List Slot :=
  StrictTimestamp.slots "dddd-dd-ddTdd:dd" ++
    (match shape.fraction with
      | none => []
      | some 0 => StrictTimestamp.slots ":dd"
      | some count => StrictTimestamp.slots ":dd." ++ replicate count none) ++
    StrictTimestamp.slots (shape.offset.elim "Z" fun back => if back then "-dd:dd" else "+dd:dd")

def STRICT_TIMESTAMP : List Shape :=
  (none :: (range 10).map some).flatMap fun fraction =>
    [⟨fraction, none⟩, ⟨fraction, some false⟩, ⟨fraction, some true⟩]

abbrev Shape.Matches (shape : Shape) (text : JsString) : Prop :=
  Forall₂ (fun slot unit => Slot.fits slot unit = true) shape.slots text

def digitsOf (text : JsString) : List Nat := (text.filter isDigit).map fun unit => unit.toNat - 0x30

/-- `Number` of a row of digits -/
def number (digits : List Nat) : Nat := Nat.ofDigits 10 digits.reverse

/-- The groups of a match; both numbers of the offset are 0 for `Z`. -/
structure Fields where
  year : Nat
  month : Nat
  day : Nat
  hour : Nat
  minute : Nat
  second : Nat
  fraction : List Nat
  back : Bool
  offsetHour : Nat
  offsetMinute : Nat

def Shape.fields (shape : Shape) (text : JsString) : Fields :=
  let group := fun start count => ((digitsOf text).drop start).take count
  let offsetAt := 12 + shape.fraction.elim 0 (· + 2)
  { year := number (group 0 4)
    month := number (group 4 2)
    day := number (group 6 2)
    hour := number (group 8 2)
    minute := number (group 10 2)
    second := if shape.fraction = none then 0 else number (group 12 2)
    fraction := group 14 (shape.fraction.getD 0)
    back := shape.offset.getD false
    offsetHour := if shape.offset = none then 0 else number (group offsetAt 2)
    offsetMinute := if shape.offset = none then 0 else number (group (offsetAt + 2) 2) }

def daysInMonth (year month : Int) : Option Int :=
  (dateUTC year month 0).map TimeValue.getUTCDate

/-- `Date.UTC` with a time of the day, in milliseconds. -/
def instantUTC (year month date time : Int) : Option Int :=
  (timeClip ((monthStart (12 * fullYear year + month) + date - 1) * 86400000 + time)).map
    TimeValue.ms

/-- `padEnd(3, "0").slice(0, 3)` -/
def firstThree (digits : List Nat) : List Nat :=
  (digits ++ replicate (3 - digits.length) 0).take 3

def Fields.offsetMinutes (m : Fields) : Int :=
  (if m.back then -1 else 1) * (m.offsetHour * 60 + m.offsetMinute : Nat)

def Fields.time (m : Fields) (millis : Nat) : Nat :=
  ((m.hour * 60 + m.minute) * 60 + m.second) * 1000 + millis

/-- `null` is `none`; inside, `none` is the invalid time. -/
def valueOf (m : Fields) : Option (Option Int) :=
  if m.month < 1 \/ 12 < m.month \/ m.day < 1 \/
      (daysInMonth m.year m.month).any (· < (m.day : Int)) then none
  else if 23 < m.hour \/ 59 < m.minute \/ 59 < m.second then none
  else if 14 < m.offsetHour \/ 59 < m.offsetMinute \/ m.offsetHour = 14 /\ 0 < m.offsetMinute then
    none
  else some ((instantUTC m.year (m.month - 1) m.day (m.time (number (firstThree m.fraction)))).map
    (· - m.offsetMinutes * 60000))

def parseStrictTimestamp (text : JsString) : Option (Option Int) := do
  let shape <- STRICT_TIMESTAMP.find? fun shape => shape.Matches text
  valueOf (shape.fields text)

/-- The whole milliseconds of a decimal fraction of a second. -/
def millisOf (digits : List Nat) : Nat := number digits * 1000 / 10 ^ digits.length

def Fields.monthIn (m : Fields) (year : Int) : Int := 12 * year + (m.month - 1)

structure ExistsIn (year : Int) (m : Fields) : Prop where
  month : 1 ≤ m.month /\ m.month ≤ 12
  day : 1 ≤ m.day /\ (m.day : Int) ≤ monthLength (m.monthIn year)
  time : m.hour ≤ 23 /\ m.minute ≤ 59 /\ m.second ≤ 59
  offset : m.offsetMinute ≤ 59 /\ m.offsetHour * 60 + m.offsetMinute ≤ 14 * 60

def instantIn (year : Int) (m : Fields) : Int :=
  (monthStart (m.monthIn year) + m.day - 1) * 86400000 + (m.time (millisOf m.fraction) : Nat) -
    m.offsetMinutes * 60000

def Denotes (text : JsString) (ms : Int) : Prop :=
  ∃ shape ∈ STRICT_TIMESTAMP, shape.Matches text /\
    ExistsIn (shape.fields text).year (shape.fields text) /\
      ms = instantIn (shape.fields text).year (shape.fields text)

/-- The parser answers a text with the millisecond of its instant, and with nothing else. -/
def ReadsExactly (text : JsString) : Prop :=
  ∀ result, parseStrictTimestamp text = some result <-> ∃ ms, result = some ms /\ Denotes text ms

def clash : List Slot -> List Slot -> Bool
  | slot :: slots, other :: others =>
    (match slot, other with
      | none, none => false
      | none, some unit => !isDigit unit
      | some unit, none => !isDigit unit
      | some unit, some same => unit != same) || clash slots others
  | [], [] => false
  | _, _ => true

variable {text : JsString}

theorem not_clash {slots others : List Slot}
    (hslots : Forall₂ (fun slot unit => Slot.fits slot unit = true) slots text)
    (hothers : Forall₂ (fun slot unit => Slot.fits slot unit = true) others text) :
    clash slots others = false := by
  induction hslots generalizing others with
  | nil =>
    cases hothers
    rfl
  | @cons slot unit slots text hslot hrest ih =>
    cases hothers with
    | @cons other _ _ _ hother hmore =>
      simp only [clash, ih hmore, Bool.or_false]
      cases slot <;> cases other <;> simp_all [Slot.fits]

theorem shape_unique {shape other : Shape} (hshape : shape ∈ STRICT_TIMESTAMP)
    (hother : other ∈ STRICT_TIMESTAMP) (hmatches : shape.Matches text)
    (hothers : other.Matches text) : shape = other := by
  have hapart : ∀ shape ∈ STRICT_TIMESTAMP, ∀ other ∈ STRICT_TIMESTAMP,
      shape = other \/ clash shape.slots other.slots = true := by decide +kernel
  refine (hapart shape hshape other hother).resolve_right fun hclash => ?_
  rw [not_clash hmatches hothers] at hclash
  cases hclash

theorem number_append (front back : List Nat) :
    number (front ++ back) = number back + 10 ^ back.length * number front := by
  rw [number, reverse_append, Nat.ofDigits_append, length_reverse]
  rfl

theorem number_lt {digits : List Nat} (hdigits : ∀ digit ∈ digits, digit < 10) :
    number digits < 10 ^ digits.length := by
  rw [← length_reverse]
  exact Nat.ofDigits_lt_base_pow_length (by decide) fun digit hdigit =>
    hdigits digit (mem_reverse.mp hdigit)

theorem number_firstThree {digits : List Nat} (hdigits : ∀ digit ∈ digits, digit < 10) :
    number (firstThree digits) = millisOf digits := by
  unfold firstThree millisOf
  rcases Nat.lt_or_ge digits.length 3 with hshort | hlong
  · have hpow : 1000 = 10 ^ (3 - digits.length) * 10 ^ digits.length := by
      rw [← Nat.pow_add, Nat.sub_add_cancel hshort.le]
    have hzeros : number (replicate (3 - digits.length) 0) = 0 := by simp [number]
    rw [take_of_length_le (by simp; omega), number_append, hzeros, length_replicate,
      Nat.zero_add, hpow, ← Nat.mul_assoc, Nat.mul_div_cancel _ (Nat.pow_pos (by decide)),
      Nat.mul_comm]
  · have hsplit := number_append (digits.take 3) (digits.drop 3)
    have hrest := @number_lt (digits.drop 3) fun digit hdigit =>
      hdigits digit (mem_of_mem_drop hdigit)
    have hpow : 10 ^ digits.length = 10 ^ (digits.drop 3).length * 1000 := by
      rw [length_drop, show 1000 = 10 ^ 3 from rfl, ← Nat.pow_add, Nat.sub_add_cancel hlong]
    rw [take_append_drop] at hsplit
    rw [Nat.sub_eq_zero_of_le hlong, replicate_zero, append_nil, hpow,
      Nat.mul_div_mul_right _ _ (by decide), hsplit, Nat.add_comm,
      Nat.mul_add_div (Nat.pow_pos (by decide)), Nat.div_eq_of_lt hrest, Nat.add_zero]

theorem digitsOf_lt {digit : Nat} (hdigit : digit ∈ digitsOf text) : digit < 10 := by
  obtain ⟨unit, hunit, rfl⟩ := mem_map.mp hdigit
  have hin := (mem_filter.mp hunit).2
  simp only [isDigit, Bool.and_eq_true, decide_eq_true_eq] at hin
  omega

theorem number_group_lt (text : JsString) (start count : Nat) :
    number (((digitsOf text).drop start).take count) < 10 ^ count := by
  refine (number_lt fun digit hdigit => ?_).trans_le (Nat.pow_le_pow_right (by decide) ?_)
  · exact digitsOf_lt (mem_of_mem_drop (mem_of_mem_take hdigit))
  · exact length_take_le _ _

theorem monthStart_bounds {month : Int} (hmonth : 0 ≤ month /\ month ≤ 120000) :
    -719528 ≤ monthStart month /\ monthStart month ≤ 2932897 := by
  have hlow := monthStart_le hmonth.1
  have hhigh := monthStart_le hmonth.2
  have hconstants : monthStart 0 = -719528 /\ monthStart 120000 = 2932897 := by decide
  omega

theorem daysInMonth_eq {year month : Int} (hyear : 0 ≤ fullYear year /\ fullYear year ≤ 9999)
    (hmonth : 1 ≤ month /\ month ≤ 12) :
    daysInMonth year month = some (monthLength (12 * fullYear year + (month - 1))) := by
  have hin : 12 * fullYear year + (month - 1) + 1 = 12 * fullYear year + month := by omega
  have hnext := monthStart_succ (12 * fullYear year + (month - 1))
  have hlength := monthLength_bounds (12 * fullYear year + (month - 1))
  have hbounds := @monthStart_bounds (12 * fullYear year + month) (by omega)
  rw [hin] at hnext
  obtain ⟨time, htime⟩ := Option.isSome_iff_exists.mp (timeClip_day_isSome_iff.mpr
    (show -100000000 ≤ monthStart (12 * fullYear year + month) + 0 - 1 /\
      monthStart (12 * fullYear year + month) + 0 - 1 ≤ 100000000 by omega))
  have hday := day_of_ms (timeClip_eq_some_iff.mp htime)
  have hof : time.month = 12 * fullYear year + (month - 1) := by
    rw [TimeValue.month, hday]
    refine monthOf_eq ⟨by omega, ?_⟩
    rw [hin]
    omega
  have hdate := time.day_eq
  rw [hof, hday] at hdate
  rw [daysInMonth, dateUTC, htime, Option.map_some, Option.some_inj]
  omega

/-- The fields are read as a time of the year that `Date.UTC` takes their year for. -/
theorem valueOf_eq_some_iff {m : Fields} (hyear : m.year ≤ 9999)
    (hdigits : ∀ digit ∈ m.fraction, digit < 10) {result : Option Int} :
    valueOf m = some result <-> ExistsIn (fullYear m.year) m /\
      result = some (instantIn (fullYear m.year) m) := by
  have hfull : 0 ≤ fullYear m.year /\ fullYear m.year ≤ 9999 := by
    rcases fullYear_cases m.year with ⟨hsmall, hfull⟩ | ⟨hlarge, hfull⟩ <;> omega
  have hless : millisOf m.fraction < 1000 := Nat.div_lt_of_lt_mul
    (Nat.mul_lt_mul_of_pos_right (number_lt hdigits) (by decide))
  unfold valueOf
  rw [number_firstThree hdigits]
  by_cases hmonth : 1 ≤ m.month /\ m.month ≤ 12
  · rw [daysInMonth_eq hfull (by omega), Option.any_some, ← Fields.monthIn]
    simp only [decide_eq_true_eq]
    split_ifs with hdate htime hoffset
    · exact iff_of_false (fun hnone => by cases hnone) fun hboth => by have := hboth.1.day; omega
    · exact iff_of_false (fun hnone => by cases hnone) fun hboth => by have := hboth.1.time; omega
    · exact iff_of_false (fun hnone => by cases hnone) fun hboth => by have := hboth.1.offset; omega
    · have hexists : ExistsIn (fullYear m.year) m := ⟨hmonth, by omega, by omega, by omega⟩
      have hlength := (monthLength_bounds (m.monthIn (fullYear m.year))).2
      have hstart := @monthStart_bounds (m.monthIn (fullYear m.year))
        (by rw [Fields.monthIn]; omega)
      rw [instantUTC, ← Fields.monthIn, timeClip, dif_pos (by rw [Fields.time]; omega)]
      simp only [hexists, true_and, Option.map_some, Option.some.injEq]
      exact eq_comm
  · rw [if_pos (by omega)]
    exact iff_of_false (fun hnone => by cases hnone) fun hboth => hmonth hboth.1.month

theorem monthLength_twentieth {year month : Nat} (hyear : year < 100) (hmonth : month < 12) :
    monthLength (12 * (1900 + year) + month) ≤ monthLength (12 * year + month) := by
  have hall : ∀ year : Fin 100, ∀ month : Fin 12,
      monthLength (12 * (1900 + year.val) + month.val) ≤
        monthLength (12 * year.val + month.val) := by decide +kernel
  exact hall ⟨year, hyear⟩ ⟨month, hmonth⟩

theorem apart_of_small {m : Fields} (hsmall : m.year ≤ 99) (hin : ExistsIn (fullYear m.year) m) :
    ExistsIn m.year m /\
      instantIn (fullYear m.year) m ≠ instantIn m.year m := by
  have hfull : fullYear m.year = 1900 + m.year := if_pos (by omega)
  obtain ⟨hmonth, hday, htime, hoffset⟩ := hin
  have hlength := @monthLength_twentieth m.year (m.month - 1) (by omega) (by omega)
  have hlater := @monthStart_lt (m.monthIn m.year) (m.monthIn (fullYear m.year))
    (by rw [Fields.monthIn, Fields.monthIn]; omega)
  rw [Nat.cast_sub hmonth.1, Nat.cast_one, ← hfull] at hlength
  refine ⟨⟨hmonth, ⟨hday.1, hday.2.trans hlength⟩, htime, hoffset⟩, fun heq => ?_⟩
  rw [instantIn, instantIn] at heq
  omega

/-- A text is read exactly unless it denotes a time of the years 0000 to 0099. -/
theorem parseStrictTimestamp_exact_iff (text : JsString) :
    ReadsExactly text <-> ∀ shape ∈ STRICT_TIMESTAMP, shape.Matches text ->
      ExistsIn (shape.fields text).year (shape.fields text) -> 99 < (shape.fields text).year := by
  cases hfind : STRICT_TIMESTAMP.find? fun shape => decide (shape.Matches text) with
  | none =>
    have hform : ∀ shape ∈ STRICT_TIMESTAMP, ¬ shape.Matches text := by
      simpa using find?_eq_none.mp hfind
    refine iff_of_true (fun result => iff_of_false ?_ ?_) fun shape hshape hmatches =>
      absurd hmatches (hform shape hshape)
    · simp [parseStrictTimestamp, hfind]
    · rintro ⟨ms, -, shape, hshape, hmatches, -⟩
      exact hform shape hshape hmatches
  | some shape =>
    have hshape := mem_of_find?_eq_some hfind
    have hmatches : shape.Matches text := by simpa using find?_some hfind
    have honly : ∀ {P : Shape -> Prop},
        (∃ other ∈ STRICT_TIMESTAMP, other.Matches text /\ P other) <-> P shape :=
      fun {P} => ⟨fun ⟨other, hother, hsame, hholds⟩ =>
        shape_unique hshape hother hmatches hsame ▸ hholds,
      fun hholds => ⟨_, hshape, hmatches, hholds⟩⟩
    have hyear : (shape.fields text).year ≤ 9999 := Nat.le_of_lt_succ (number_group_lt text 0 4)
    have hdigits : ∀ digit ∈ (shape.fields text).fraction, digit < 10 := fun digit hdigit =>
      digitsOf_lt (mem_of_mem_drop (mem_of_mem_take hdigit))
    have hlate : (∀ other ∈ STRICT_TIMESTAMP, other.Matches text ->
        ExistsIn (other.fields text).year (other.fields text) -> 99 < (other.fields text).year) <->
          (ExistsIn (shape.fields text).year (shape.fields text) ->
            99 < (shape.fields text).year) :=
      ⟨fun hall => hall shape hshape hmatches, fun hone other hother hsame =>
        shape_unique hshape hother hmatches hsame ▸ hone⟩
    have hreads : ReadsExactly text <-> ∀ result, ExistsIn (fullYear (shape.fields text).year)
        (shape.fields text) /\ result = some (instantIn (fullYear (shape.fields text).year)
          (shape.fields text)) <-> ∃ ms, result = some ms /\
            ExistsIn (shape.fields text).year (shape.fields text) /\
              ms = instantIn (shape.fields text).year (shape.fields text) := by
      simp only [ReadsExactly, Denotes, honly, parseStrictTimestamp, hfind, Option.bind_eq_bind,
        Option.bind_some, valueOf_eq_some_iff hyear hdigits]
    rw [hreads, hlate]
    generalize shape.fields text = m
    by_cases hsmall : m.year ≤ 99
    · constructor
      · intro hall hexists
        obtain ⟨hin, heq⟩ := (hall _).mpr ⟨_, rfl, hexists, rfl⟩
        exact absurd (Option.some.inj heq).symm (apart_of_small hsmall hin).2
      · intro hnone result
        have hnot : ¬ ExistsIn m.year m := fun hexists => (hnone hexists).not_ge hsmall
        exact iff_of_false (fun hboth => hnot (apart_of_small hsmall hboth.1).1)
          fun ⟨_, _, hexists, _⟩ => hnot hexists
    · have hfull : fullYear m.year = m.year := if_neg (by omega)
      rw [hfull]
      refine iff_of_true (fun result => ⟨fun hboth => ⟨_, hboth.2, hboth.1, rfl⟩, ?_⟩)
        fun _ => by omega
      rintro ⟨ms, rfl, hexists, rfl⟩
      exact ⟨hexists, rfl⟩

/-- 0001-01-01T00:00Z is read as a time of the year 1901. -/
theorem not_readsExactly_firstYear : ¬ ReadsExactly (ofString "0001-01-01T00:00Z") := by
  rw [parseStrictTimestamp_exact_iff]
  intro hall
  have hlate := hall ⟨none, none⟩ (by decide +kernel) (by decide +kernel)
    ⟨by decide +kernel, by decide +kernel, by decide +kernel, by decide +kernel⟩
  exact absurd hlate (by decide +kernel)

end AnchorMind.Admin.StrictTimestamp
