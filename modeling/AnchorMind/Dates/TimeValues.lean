import AnchorMind.Kernel.Calendar
import AnchorMind.Audit.DateReading

/-!
# Dates as the engine counts them

A `Date` holds a whole number of milliseconds, at most so many days from 1970-01-01 in
either direction, or no time at all.  `Date.UTC` counts a date out from the start of its
month, takes months beyond a year's twelve and dates beyond a month's length, and reads
the years 0 to 99 as years of the twentieth century.
-/

namespace AnchorMind.Dates.TimeValues

open Kernel.Calendar Audit Text.JsonText List

def monthOf (day : Int) : Int := 12 * (dateOfDays day).year + ((dateOfDays day).month - 1 : Int)

theorem yearOfEra_end {day year : Nat} (hday : day < 146097)
    (hyear : year = (day - day / 1460 + day / 36524 - day / 146096) / 365) :
    day < 365 * (year + 1) + (year + 1) / 4 - (year + 1) / 100 + (year + 1) / 400 := by
  have hcenturies : day / 36524 ≤ 4 := by omega
  have hera : day / 146096 ≤ 1 := by omega
  have hyears : (year + 1) / 100 ≤ 4 := by omega
  -- The leap years up to the day are those up to the year's end, or one more.
  obtain hsame | hnext : day / 1460 ≤ (year + 1) / 4 \/ day / 1460 = (year + 1) / 4 + 1 := by omega
  all_goals
    have hof : 25 * ((year + 1) / 100) ≤ (year + 1) / 4 := by omega
    generalize hfirst : day / 36524 = centuries at *
    generalize hsecond : day / 146096 = era at *
    generalize hthird : (year + 1) / 100 = hundreds at *
    interval_cases centuries <;> interval_cases era <;> interval_cases hundreds <;> omega

theorem dateOfDays_parts (day : Int) : ∃ (era : Int) (yearOfEra dayOfYear : Nat),
    dateOfDays day = dateOfParts era yearOfEra dayOfYear /\ yearOfEra ≤ 399 /\ dayOfYear ≤ 365 /\
      day = era * 146097 + (365 * yearOfEra + yearOfEra / 4 - yearOfEra / 100 + dayOfYear : Nat) -
        719468 /\
      365 * yearOfEra + yearOfEra / 4 - yearOfEra / 100 + dayOfYear <
        365 * (yearOfEra + 1) + (yearOfEra + 1) / 4 - (yearOfEra + 1) / 100 +
          (yearOfEra + 1) / 400 := by
  have hpos : 0 ≤ (day + 719468) % 146097 := Int.emod_nonneg _ (by decide)
  have hless : (day + 719468) % 146097 < 146097 := Int.emod_lt_of_pos _ (by decide)
  have hsplit := Int.mul_ediv_add_emod (day + 719468) 146097
  obtain ⟨dayOfEra, hday⟩ := Int.eq_ofNat_of_zero_le hpos
  have hday' : dayOfEra < 146097 := by omega
  obtain ⟨hyear, hstart, hrest⟩ := yearOfEra_bounds hday' rfl
  have hend := yearOfEra_end hday' rfl
  have hnat : ((day + 719468) % 146097).toNat = dayOfEra := by
    rw [hday]
    exact Int.toNat_natCast dayOfEra
  refine ⟨_, _, _, rfl, ?_⟩
  rw [hnat]
  refine ⟨hyear, hrest, ?_, ?_⟩
  · rw [Nat.add_sub_of_le hstart, ← hday]
    omega
  · rwa [Nat.add_sub_of_le hstart]

variable {era : Int}

theorem dateOfParts_month {yearOfEra dayOfYear : Nat} (hday : dayOfYear ≤ 365) :
    12 * (dateOfParts era yearOfEra dayOfYear).year +
        ((dateOfParts era yearOfEra dayOfYear).month - 1 : Int) =
      12 * (yearOfEra + era * 400) + ((5 * dayOfYear + 2) / 153 : Nat) + 2 := by
  have hmonths : (5 * dayOfYear + 2) / 153 ≤ 11 := by omega
  by_cases hmarch : (5 * dayOfYear + 2) / 153 < 10
  · simp only [dateOfParts, if_pos hmarch]
    omega
  · simp only [dateOfParts, if_neg hmarch]
    omega

theorem monthStart_parts {yearOfEra march : Nat} (hmarch : march ≤ 11) :
    monthStart (12 * (yearOfEra + era * 400) + march + 2) =
      era * 146097 + (365 * yearOfEra + yearOfEra / 4 - yearOfEra / 100 + yearOfEra / 400 +
        (153 * march + 2) / 5 : Nat) - 719468 := by
  have hof : (12 * (yearOfEra + era * 400) + march + 2 - 2) / 12 = yearOfEra + era * 400 /\
      (12 * (yearOfEra + era * 400) + march + 2 - 2) % 12 = march := by omega
  rw [monthStart, hof.1, hof.2]
  omega

theorem monthStart_around {yearOfEra dayOfYear : Nat} (hyear : yearOfEra ≤ 399)
    (hday : dayOfYear ≤ 365)
    (hend : 365 * yearOfEra + yearOfEra / 4 - yearOfEra / 100 + dayOfYear <
      365 * (yearOfEra + 1) + (yearOfEra + 1) / 4 - (yearOfEra + 1) / 100 +
        (yearOfEra + 1) / 400) :
    era * 146097 + (365 * yearOfEra + yearOfEra / 4 - yearOfEra / 100 + dayOfYear : Nat) - 719468 <
      monthStart (12 * (yearOfEra + era * 400) + ((5 * dayOfYear + 2) / 153 : Nat) + 2 + 1) := by
  by_cases hlast : (5 * dayOfYear + 2) / 153 = 11
  · have hnext := @monthStart_parts era (yearOfEra + 1) 0 (Nat.zero_le _)
    have hmonth : 12 * (((yearOfEra + 1 : Nat) : Int) + era * 400) + (0 : Nat) + 2 =
        12 * (yearOfEra + era * 400) + (11 : Nat) + 2 + 1 := by omega
    rw [hlast, ← hmonth, hnext]
    omega
  · have hnext := @monthStart_parts era yearOfEra ((5 * dayOfYear + 2) / 153 + 1) (by omega)
    have hmonth : 12 * (yearOfEra + era * 400) + (((5 * dayOfYear + 2) / 153 + 1 : Nat) : Int) + 2 =
        12 * (yearOfEra + era * 400) + ((5 * dayOfYear + 2) / 153 : Nat) + 2 + 1 := by omega
    rw [← hmonth, hnext]
    omega

theorem dateOfDays_spec (day : Int) :
    day = monthStart (monthOf day) + (dateOfDays day).day - 1 /\ 1 ≤ (dateOfDays day).day /\
      day < monthStart (monthOf day + 1) := by
  obtain ⟨era, yearOfEra, dayOfYear, hparts, hyear, hrest, hday, hend⟩ := dateOfDays_parts day
  have hmonth : monthOf day =
      12 * (yearOfEra + era * 400) + ((5 * dayOfYear + 2) / 153 : Nat) + 2 := by
    rw [monthOf, hparts, dateOfParts_month hrest]
  have hdate : (dateOfDays day).day =
      dayOfYear - (153 * ((5 * dayOfYear + 2) / 153) + 2) / 5 + 1 := by
    rw [hparts]
    rfl
  have hstart := @monthStart_parts era yearOfEra ((5 * dayOfYear + 2) / 153) (by omega)
  have hnext := @monthStart_around era yearOfEra dayOfYear hyear hrest hend
  rw [hmonth, hdate, hstart]
  refine ⟨by omega, by omega, ?_⟩
  rw [← hday] at hnext
  exact hnext

theorem dateOfDays_month (day : Int) :
    1 ≤ (dateOfDays day).month /\ (dateOfDays day).month ≤ 12 := by
  obtain ⟨era, yearOfEra, dayOfYear, hparts, -, hrest, -, -⟩ := dateOfDays_parts day
  rw [hparts]
  simp only [dateOfParts]
  split <;> omega

theorem inMonth_monthOf (day : Int) : InMonth (monthOf day) day := by
  obtain ⟨hday, hdate, hend⟩ := dateOfDays_spec day
  exact ⟨by omega, hend⟩

theorem monthOf_eq {month day : Int} (hin : InMonth month day) : monthOf day = month :=
  (inMonth_monthOf day).unique hin

@[simp]
theorem monthOf_monthStart (month : Int) : monthOf (monthStart month) = month :=
  monthOf_eq (inMonth_start month)

/-- The milliseconds of a `Date` that holds a time. -/
@[ext]
structure TimeValue where
  ms : Int
  held : -8640000000000000 ≤ ms /\ ms ≤ 8640000000000000

/-- The time a `Date` made of a number holds. -/
def timeClip (ms : Int) : Option TimeValue :=
  if held : -8640000000000000 ≤ ms /\ ms ≤ 8640000000000000 then some ⟨ms, held⟩ else none

namespace TimeValue

def day (time : TimeValue) : Int := time.ms / 86400000

def getUTCFullYear (time : TimeValue) : Int := (dateOfDays time.day).year

def getUTCMonth (time : TimeValue) : Int := (dateOfDays time.day).month - 1

def getUTCDate (time : TimeValue) : Int := (dateOfDays time.day).day

def getUTCDay (time : TimeValue) : Int := weekday time.day

def month (time : TimeValue) : Int := monthOf time.day

@[irreducible]
def toISOString (time : TimeValue) : JsString := ofString (Audit.toISOString time.ms)

end TimeValue

/-- The year `Date.UTC` takes a number for. -/
def fullYear (year : Int) : Int := if 0 ≤ year /\ year ≤ 99 then 1900 + year else year

/-- `Date.UTC` -/
def dateUTC (year month date : Int) : Option TimeValue :=
  timeClip ((monthStart (12 * fullYear year + month) + date - 1) * 86400000)

variable {time : TimeValue}

theorem timeClip_eq_some_iff {ms : Int} : timeClip ms = some time <-> time.ms = ms := by
  rw [timeClip]
  constructor
  · intro hclip
    split at hclip
    · cases hclip
      rfl
    · cases hclip
  · intro hms
    subst hms
    rw [dif_pos time.held]

@[simp]
theorem timeClip_ms (time : TimeValue) : timeClip time.ms = some time :=
  timeClip_eq_some_iff.mpr rfl

theorem timeClip_isSome_iff {ms : Int} :
    (timeClip ms).isSome = true <-> -8640000000000000 ≤ ms /\ ms ≤ 8640000000000000 := by
  rw [timeClip]
  split <;> simp [*]

/-- A `Date` reaches 100000000 days to either side. -/
theorem timeClip_day_isSome_iff {day : Int} :
    (timeClip (day * 86400000)).isSome = true <-> -100000000 ≤ day /\ day ≤ 100000000 := by
  rw [timeClip_isSome_iff]
  omega

theorem day_of_ms {day : Int} (hms : time.ms = day * 86400000) : time.day = day := by
  rw [TimeValue.day, hms]
  omega

theorem TimeValue.day_bounds (time : TimeValue) :
    -100000000 ≤ time.day /\ time.day ≤ 100000000 := by
  have hheld := time.held
  rw [TimeValue.day]
  omega

theorem TimeValue.day_eq (time : TimeValue) :
    time.day = monthStart time.month + time.getUTCDate - 1 := (dateOfDays_spec time.day).1

theorem TimeValue.getUTCDate_pos (time : TimeValue) : 1 ≤ time.getUTCDate :=
  Int.ofNat_le.mpr (dateOfDays_spec time.day).2.1

theorem TimeValue.getUTCDate_le (time : TimeValue) : time.getUTCDate ≤ 31 := by
  have hday := time.day_eq
  have hend := (inMonth_monthOf time.day).2
  have hlength := (monthLength_bounds (monthOf time.day)).2
  rw [monthLength] at hlength
  rw [TimeValue.month] at hday
  omega

theorem TimeValue.month_eq (time : TimeValue) :
    time.month = 12 * time.getUTCFullYear + time.getUTCMonth := rfl

theorem TimeValue.getUTCMonth_bounds (time : TimeValue) :
    0 ≤ time.getUTCMonth /\ time.getUTCMonth ≤ 11 := by
  have hmonth := dateOfDays_month time.day
  rw [TimeValue.getUTCMonth]
  omega

theorem fullYear_cases (year : Int) :
    (0 ≤ year /\ year ≤ 99) /\ fullYear year = 1900 + year \/
      ¬ (0 ≤ year /\ year ≤ 99) /\ fullYear year = year := by
  by_cases hsmall : 0 ≤ year /\ year ≤ 99
  · exact Or.inl ⟨hsmall, if_pos hsmall⟩
  · exact Or.inr ⟨hsmall, if_neg hsmall⟩

variable {year month date : Int}

theorem dateUTC_eq_some_iff :
    dateUTC year month date = some time <->
      time.ms = (monthStart (12 * fullYear year + month) + date - 1) * 86400000 :=
  timeClip_eq_some_iff

/-- What `Date.UTC` gives is a midnight. -/
theorem day_of_dateUTC (htime : dateUTC year month date = some time) :
    time.day = monthStart (12 * fullYear year + month) + date - 1 :=
  day_of_ms (dateUTC_eq_some_iff.mp htime)

theorem exists_dateUTC_iff :
    (∃ time, dateUTC year month date = some time) <->
      -100000000 ≤ monthStart (12 * fullYear year + month) + date - 1 /\
        monthStart (12 * fullYear year + month) + date - 1 ≤ 100000000 := by
  rw [← Option.isSome_iff_exists, dateUTC, timeClip_day_isSome_iff]

/-- When `Date.UTC` stays in the month it is given: the year is not one it reads otherwise,
the month is long enough for the date, and a `Date` reaches there. -/
def StaysInMonth (year month date : Int) : Prop :=
  ¬ (0 ≤ year /\ year ≤ 99) /\ date ≤ monthLength month /\
    -100000000 ≤ monthStart month + date - 1 /\ monthStart month + date - 1 ≤ 100000000

theorem dateUTC_inMonth_iff (hdate : 1 ≤ date) :
    (∃ time, dateUTC year month date = some time /\ InMonth (12 * year + month) time.day) <->
      StaysInMonth year (12 * year + month) date := by
  obtain ⟨hsmall, hfull⟩ | ⟨hlarge, hfull⟩ := fullYear_cases year
  · -- The date is counted out from a month 1900 years later.
    constructor
    · rintro ⟨time, htime, hin⟩
      rw [day_of_dateUTC htime, hfull] at hin
      exact absurd hin (not_inMonth_of_lt (by omega) hdate)
    · intro hstays
      exact absurd hsmall hstays.1
  · constructor
    · rintro ⟨time, htime, hin⟩
      have hheld := exists_dateUTC_iff.mp ⟨time, htime⟩
      rw [day_of_dateUTC htime] at hin
      rw [hfull] at hheld hin
      exact ⟨hlarge, (inMonth_date_iff hdate).mp hin, hheld⟩
    · rintro ⟨-, hlength, hheld⟩
      rw [← hfull] at hheld
      obtain ⟨time, htime⟩ := exists_dateUTC_iff.mpr hheld
      refine ⟨time, htime, ?_⟩
      rw [day_of_dateUTC htime, hfull]
      exact (inMonth_date_iff hdate).mpr hlength

/-- How the engine's `new Date` reads a text: beyond the form `toISOString` gives, engines
differ. -/
structure DateReader where
  read : JsString -> Option TimeValue
  read_toISOString : ∀ time : TimeValue, read time.toISOString = some time

def textOf (units : JsString) : String :=
  String.ofList (units.map fun unit => Char.ofNat unit.toNat)

theorem textOf_ofString {text : String} (hsmall : ∀ char ∈ text.toList, char.toNat < 0x10000) :
    textOf (ofString text) = text := by
  have hchars : ∀ chars : List Char, (∀ char ∈ chars, char.toNat < 0x10000) ->
      (chars.flatMap charUnits).map (fun unit => Char.ofNat unit.toNat) = chars := by
    intro chars hchars
    induction chars with
    | nil => rfl
    | cons char chars ih =>
      obtain ⟨hchar, hrest⟩ := forall_mem_cons.mp hchars
      have hunit : (UInt16.ofNat char.toNat).toNat = char.toNat :=
        UInt16.toNat_ofNat_of_lt' hchar
      rw [flatMap_cons, map_append, ih hrest, charUnits, if_pos hchar,
        map_singleton, hunit, Char.ofNat_toNat, singleton_append]
  rw [textOf, ofString, hchars text.toList hsmall, String.ofList_toList]

theorem lt_of_mem_toISOString (instant : Int) :
    ∀ char ∈ (Audit.toISOString instant).toList, char.toNat < 0x10000 := by
  have hfield : ∀ width value char, char ∈ (padded width value).toList ->
      char.toNat < 0x10000 := by
    intro width value char hchar
    have hdigit := isDigit_padded width value char hchar
    simp only [Char.isDigit, Bool.and_eq_true, decide_eq_true_eq] at hdigit
    have hle : char.toNat ≤ 57 := hdigit.2
    omega
  have hyear : ∀ year char, char ∈ (yearText year).toList -> char.toNat < 0x10000 := by
    intro year char hchar
    unfold yearText at hchar
    split at hchar
    · exact hfield 4 _ char hchar
    · rw [String.toList_append, mem_append] at hchar
      rcases hchar with hsign | hchar
      · split at hsign
        · rw [mem_singleton.mp hsign]
          decide
        · rw [mem_singleton.mp hsign]
          decide
      · exact hfield 6 _ char hchar
  have hmark : ∀ mark char : Char, mark.toNat < 0x10000 -> char ∈ [mark] ->
      char.toNat < 0x10000 := by
    intro mark char hmark hchar
    rw [mem_singleton.mp hchar]
    exact hmark
  intro char hchar
  simp only [Audit.toISOString, String.toList_append, mem_append] at hchar
  rcases hchar with (((((((((((((hchar | hchar) | hchar) | hchar) | hchar) | hchar) | hchar) |
    hchar) | hchar) | hchar) | hchar) | hchar) | hchar) | hchar)
  · exact hyear _ char hchar
  · exact hmark '-' char (by decide) hchar
  · exact hfield 2 _ char hchar
  · exact hmark '-' char (by decide) hchar
  · exact hfield 2 _ char hchar
  · exact hmark 'T' char (by decide) hchar
  · exact hfield 2 _ char hchar
  · exact hmark ':' char (by decide) hchar
  · exact hfield 2 _ char hchar
  · exact hmark ':' char (by decide) hchar
  · exact hfield 2 _ char hchar
  · exact hmark '.' char (by decide) hchar
  · exact hfield 3 _ char hchar
  · exact hmark 'Z' char (by decide) hchar

/-- A reader of the form `toISOString` gives, and of no other. -/
def isoReader : DateReader where
  read text := (dateParse (textOf text)).bind timeClip
  read_toISOString time := by
    rw [TimeValue.toISOString, textOf_ofString (lt_of_mem_toISOString time.ms),
      dateParse_toISOString, Option.bind_some, timeClip_ms]

theorem toISOString_injective {time other : TimeValue}
    (hsame : time.toISOString = other.toISOString) : time = other := by
  have hread := isoReader.read_toISOString time
  rw [hsame, isoReader.read_toISOString] at hread
  exact (Option.some.inj hread).symm

end AnchorMind.Dates.TimeValues
