import Mathlib.Tactic.IntervalCases
import AnchorMind.Audit.Chain

/-!
# Reading a time back

A time in the form `toISOString` gives it is read back as the same millisecond: the fields
are rows of digits between fixed marks, and the day is counted back from its date.
-/

namespace AnchorMind.Audit

open List

def daysOfDate (date : Date) : Int :=
  let year := date.year - if date.month ≤ 2 then 1 else 0
  let yearOfEra := (year % 400).toNat
  let march := if 2 < date.month then date.month - 3 else date.month + 9
  let dayOfYear := (153 * march + 2) / 5 + date.day - 1
  year / 400 * 146097 + (365 * yearOfEra + yearOfEra / 4 - yearOfEra / 100 + dayOfYear : Nat) -
    719468

def readField (closing : Char) (text : List Char) : Option (Nat × List Char) :=
  match text.dropWhile Char.isDigit with
  | [] => none
  | char :: rest =>
    if char = closing then some (Nat.ofDigitChars 10 (text.takeWhile Char.isDigit) 0, rest)
    else none

def readYear : List Char -> Option (Int × List Char)
  | '-' :: text => (readField '-' text).map fun (year, rest) => (-(year : Int), rest)
  | '+' :: text => (readField '-' text).map fun (year, rest) => ((year : Int), rest)
  | text => (readField '-' text).map fun (year, rest) => ((year : Int), rest)

def readInstant (text : List Char) : Option Int := do
  let (year, text) <- readYear text
  let (month, text) <- readField '-' text
  let (day, text) <- readField 'T' text
  let (hour, text) <- readField ':' text
  let (minute, text) <- readField ':' text
  let (second, text) <- readField '.' text
  let (millisecond, _) <- readField 'Z' text
  some (daysOfDate ⟨year, month, day⟩ * 86400000 +
    (((hour * 60 + minute) * 60 + second) * 1000 + millisecond : Nat))

/-- `Date.parse` on the form `toISOString` gives, and on no other form. -/
def dateParse (text : String) : Option Int :=
  (readInstant text.toList).filter fun instant => toISOString instant == text

theorem yearOfEra_bounds {day year : Nat} (hday : day < 146097)
    (hyear : year = (day - day / 1460 + day / 36524 - day / 146096) / 365) :
    year ≤ 399 /\ 365 * year + year / 4 - year / 100 ≤ day /\
      day - (365 * year + year / 4 - year / 100) ≤ 365 := by
  have hcenturies : day / 36524 ≤ 4 := by omega
  have hera : day / 146096 ≤ 1 := by omega
  have hyears : year / 100 ≤ 3 := by omega
  -- Fixed centuries leave only the leap years to the arithmetic.
  generalize hfirst : day / 36524 = centuries at *
  generalize hsecond : day / 146096 = era at *
  generalize hthird : year / 100 = hundreds at *
  refine ⟨by omega, ?_, ?_⟩
  all_goals interval_cases centuries <;> interval_cases era <;> interval_cases hundreds <;> omega

def dateOfParts (era : Int) (yearOfEra dayOfYear : Nat) : Date :=
  let march := (5 * dayOfYear + 2) / 153
  { year := yearOfEra + era * 400 + if march < 10 then 0 else 1
    month := if march < 10 then march + 3 else march - 9
    day := dayOfYear - (153 * march + 2) / 5 + 1 }

theorem daysOfDate_dateOfParts {era : Int} {yearOfEra dayOfYear : Nat} (hyear : yearOfEra ≤ 399)
    (hday : dayOfYear ≤ 365) :
    daysOfDate (dateOfParts era yearOfEra dayOfYear) =
      era * 146097 + (365 * yearOfEra + yearOfEra / 4 - yearOfEra / 100 + dayOfYear : Nat) -
        719468 := by
  have hmonths : (5 * dayOfYear + 2) / 153 ≤ 11 := by omega
  have hshift : ∀ year : Int, year = yearOfEra + era * 400 ->
      year / 400 = era /\ (year % 400).toNat = yearOfEra := by omega
  by_cases hmarch : (5 * dayOfYear + 2) / 153 < 10
  · have hsmall : ¬ (5 * dayOfYear + 2) / 153 + 3 ≤ 2 := by omega
    have hlarge : 2 < (5 * dayOfYear + 2) / 153 + 3 := by omega
    obtain ⟨hera, hof⟩ := hshift (yearOfEra + era * 400 + 0 - 0) (by omega)
    simp only [daysOfDate, dateOfParts, if_pos hmarch, if_neg hsmall, if_pos hlarge, hera, hof]
    omega
  · have hsmall : (5 * dayOfYear + 2) / 153 - 9 ≤ 2 := by omega
    have hlarge : ¬ 2 < (5 * dayOfYear + 2) / 153 - 9 := by omega
    obtain ⟨hera, hof⟩ := hshift (yearOfEra + era * 400 + 1 - 1) (by omega)
    simp only [daysOfDate, dateOfParts, if_neg hmarch, if_pos hsmall, if_neg hlarge, hera, hof]
    omega

theorem daysOfDate_dateOfDays (days : Int) : daysOfDate (dateOfDays days) = days := by
  have hpos : 0 ≤ (days + 719468) % 146097 := Int.emod_nonneg _ (by decide)
  have hless : (days + 719468) % 146097 < 146097 := Int.emod_lt_of_pos _ (by decide)
  have hsplit := Int.mul_ediv_add_emod (days + 719468) 146097
  obtain ⟨dayOfEra, hday⟩ := Int.eq_ofNat_of_zero_le hpos
  have hday' : dayOfEra < 146097 := by omega
  obtain ⟨hyear, hstart, hrest⟩ := yearOfEra_bounds hday' rfl
  have hnat : ((days + 719468) % 146097).toNat = dayOfEra := by
    rw [hday]
    exact Int.toNat_natCast dayOfEra
  change daysOfDate (dateOfParts _ _ _) = days
  rw [hnat, daysOfDate_dateOfParts hyear hrest, Nat.add_sub_of_le hstart, ← hday]
  omega

theorem toList_padded (width value : Nat) : (padded width value).toList =
    replicate (width - (Nat.toDigits 10 value).length) '0' ++ Nat.toDigits 10 value :=
  String.toList_ofList

theorem isDigit_padded (width value : Nat) :
    ∀ char ∈ (padded width value).toList, char.isDigit = true := by
  intro char hchar
  rw [toList_padded] at hchar
  rcases mem_append.mp hchar with hzero | hdigit
  · rw [(mem_replicate.mp hzero).2]
    rfl
  · exact Nat.isDigit_of_mem_toDigits (by decide) (Nat.le_refl 10) hdigit

theorem readField_padded {closing : Char} (hclosing : closing.isDigit = false) (width value : Nat)
    (rest : List Char) :
    readField closing ((padded width value).toList ++ closing :: rest) = some (value, rest) := by
  have hdigits := isDigit_padded width value
  have hvalue : Nat.ofDigitChars 10 (padded width value).toList 0 = value := by
    rw [toList_padded, Nat.ofDigitChars_append, Nat.ofDigitChars_replicate_zero, Nat.mul_zero]
    exact Nat.ofDigitChars_toDigits (by decide) (Nat.le_refl 10)
  have htake : ((padded width value).toList ++ closing :: rest).takeWhile Char.isDigit =
      (padded width value).toList := by
    rw [takeWhile_append_of_pos hdigits, takeWhile_cons_of_neg (by simp [hclosing]),
      append_nil]
  have hdrop : ((padded width value).toList ++ closing :: rest).dropWhile Char.isDigit =
      closing :: rest := by
    rw [dropWhile_append_of_pos hdigits, dropWhile_cons_of_neg (by simp [hclosing])]
  simp only [readField, hdrop, htake, if_true, hvalue]

theorem readYear_of_digit {text : List Char}
    (hhead : ∀ char, text.head? = some char -> char.isDigit = true) :
    readYear text = (readField '-' text).map fun (year, rest) => ((year : Int), rest) := by
  unfold readYear
  split
  · exact absurd (hhead '-' rfl) (by decide)
  · exact absurd (hhead '+' rfl) (by decide)
  · rfl

theorem readYear_yearText (year : Int) (rest : List Char) :
    readYear ((yearText year).toList ++ '-' :: rest) = some (year, rest) := by
  unfold yearText
  split
  · rename_i hrange
    have hcons : (padded 4 year.toNat).toList ≠ [] := by
      rw [toList_padded]
      exact append_ne_nil_of_right_ne_nil _ Nat.toDigits_ne_nil
    rw [readYear_of_digit, readField_padded rfl]
    · simp only [Option.map_some, Int.toNat_of_nonneg hrange.1]
    · intro char hchar
      rw [head?_append_of_ne_nil _ hcons] at hchar
      exact isDigit_padded 4 year.toNat char (mem_of_head? hchar)
  · split
    · rename_i hpos
      have hplus : "+".toList = ['+'] := rfl
      rw [String.toList_append, hplus, cons_append, cons_append, nil_append,
        readYear, readField_padded rfl]
      simp only [Option.map_some, Int.natAbs_of_nonneg hpos]
    · rename_i hneg
      have hminus : "-".toList = ['-'] := rfl
      rw [String.toList_append, hminus, cons_append, cons_append, nil_append,
        readYear, readField_padded rfl]
      have habs : -(year.natAbs : Int) = year := by omega
      simp only [Option.map_some, habs]

theorem readInstant_toISOString (instant : Int) :
    readInstant (toISOString instant).toList = some instant := by
  have hday := daysOfDate_dateOfDays (instant / 86400000)
  have hpos : 0 ≤ instant % 86400000 := Int.emod_nonneg _ (by decide)
  have hsplit := Int.mul_ediv_add_emod instant 86400000
  obtain ⟨time, htime⟩ := Int.eq_ofNat_of_zero_le hpos
  have hclock : ((time / 3600000 * 60 + time / 60000 % 60) * 60 + time / 1000 % 60) * 1000 +
      time % 1000 = time := by omega
  have hmarks : "-".toList = ['-'] /\ "T".toList = ['T'] /\ ":".toList = [':'] /\
      ".".toList = ['.'] /\ "Z".toList = ['Z'] := ⟨rfl, rfl, rfl, rfl, rfl⟩
  simp only [toISOString, htime, Int.toNat_natCast, String.toList_append, append_assoc,
    hmarks, cons_append, nil_append, readInstant, Option.bind_eq_bind, Option.bind_some,
    readYear_yearText, readField_padded (show Char.isDigit '-' = false from rfl),
    readField_padded (show Char.isDigit 'T' = false from rfl),
    readField_padded (show Char.isDigit ':' = false from rfl),
    readField_padded (show Char.isDigit '.' = false from rfl),
    readField_padded (show Char.isDigit 'Z' = false from rfl)]
  rw [hclock, hday]
  congr 1
  omega

@[simp]
theorem dateParse_toISOString (instant : Int) : dateParse (toISOString instant) = some instant := by
  rw [dateParse, readInstant_toISOString, Option.filter_some, if_pos (beq_self_eq_true _)]

theorem bar_not_mem_toISOString (instant : Int) : '|' ∉ (toISOString instant).toList := by
  have hfield : ∀ width value, '|' ∉ (padded width value).toList := fun width value hbar =>
    absurd (isDigit_padded width value '|' hbar) (by decide)
  have hyear : ∀ year, '|' ∉ (yearText year).toList := by
    intro year
    unfold yearText
    split
    · exact hfield 4 _
    · rw [String.toList_append, mem_append, not_or]
      refine ⟨?_, hfield 6 _⟩
      split <;> decide
  have hmarks : '|' ∉ "-".toList /\ '|' ∉ "T".toList /\ '|' ∉ ":".toList /\ '|' ∉ ".".toList /\
      '|' ∉ "Z".toList := by decide
  simp only [toISOString, String.toList_append, mem_append, hyear, hfield, hmarks, or_self,
    not_false_eq_true]

end AnchorMind.Audit
