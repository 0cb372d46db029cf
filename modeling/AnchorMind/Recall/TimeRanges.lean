import AnchorMind.Write.EventTimes

/-!
# Time expressions of a time range

The bounds of a time range are read on the calendar of the host's time zone: so many days,
weeks, months or years ago, a named day, week or month, or a time the engine reads.  A
month or year ago keeps the date, as the event times of texts do, and leaves the month
where the month has no such date.
-/

namespace AnchorMind.Recall.TimeRanges

open Kernel.Calendar Kernel.Backtracking.Matcher Audit Dates.TimeValues
  Text.JsonText Write.EventExpressions

/-- The time zone of the host.  A local time that a change of the zone skips is read back as
a later one, and not of another month. -/
structure Zone where
  localTime : Int -> Int
  utc : Int -> Int
  utc_month : ∀ ms month, InMonth month (ms / 86400000) ->
    InMonth month (localTime (utc ms) / 86400000)

namespace Zone

variable (zone : Zone) (date : TimeValue)

def localDay : Int := zone.localTime date.ms / 86400000

def timeWithinDay : Int := zone.localTime date.ms % 86400000

def getFullYear : Int := (dateOfDays (zone.localDay date)).year

def getMonth : Int := (dateOfDays (zone.localDay date)).month - 1

def getDate : Int := (dateOfDays (zone.localDay date)).day

def getDay : Int := weekday (zone.localDay date)

def month : Int := monthOf (zone.localDay date)

def withFields (y m d : Int) : Option TimeValue :=
  timeClip (zone.utc ((monthStart (12 * y + m) + d - 1) * 86400000 + zone.timeWithinDay date))

def setDate (d : Int) : Option TimeValue :=
  zone.withFields date (zone.getFullYear date) (zone.getMonth date) d

def setMonth (m d : Int) : Option TimeValue :=
  zone.withFields date (zone.getFullYear date) m d

def setFullYear (y : Int) : Option TimeValue :=
  zone.withFields date y (zone.getMonth date) (zone.getDate date)

/-- `setHours(0, 0, 0, 0)` -/
def startOfDay : Option TimeValue := timeClip (zone.utc (zone.localDay date * 86400000))

end Zone

def relativeUnit : List (String × CalendarUnit) :=
  [("일", .day), ("주", .week), ("개월", .month), ("달", .month), ("년", .year)]

/-- `^(\d+)\s*(일|주|개월|달|년)\s*전$` -/
def relative : Pattern (Nat × CalendarUnit) := do
  atStart
  let row <- many isDigit 1
  let _ <- spaces
  let unit <- named id relativeUnit
  let _ <- spaces
  word "전"
  atEnd
  pure (numberOf row, unit)

/-- A count beyond the exact numbers moves a date out of what it holds, exact or not. -/
def relativeUnits (zone : Zone) (d : TimeValue) (n : Int) : CalendarUnit -> Option TimeValue
  | .day => zone.setDate d (zone.getDate d - n)
  | .week => zone.setDate d (zone.getDate d - n * 7)
  | .month => zone.setMonth d (zone.getMonth d - n) (zone.getDate d)
  | .year => zone.setFullYear d (zone.getFullYear d - n)

/-- A `Date` that holds no time is still a `Date`. -/
def relativeDaysAgo (zone : Zone) (s : JsString) (now : TimeValue) : Option (Option TimeValue) :=
  (relative.first s).map fun (n, unit) => (relativeUnits zone now n unit).bind zone.startOfDay

def startOfWeek (zone : Zone) (now : TimeValue) (offset : Int) : Option TimeValue :=
  let mondayDiff := (if zone.getDay now = 0 then -6 else 1 - zone.getDay now) + offset * 7
  (zone.setDate now (zone.getDate now + mondayDiff)).bind zone.startOfDay

def startOfMonth (zone : Zone) (now : TimeValue) (offset : Int) : Option TimeValue :=
  (zone.setMonth now (zone.getMonth now + offset) 1).bind zone.startOfDay

inductive Keyword where
  | today
  | daysAgo (count : Int)
  | week (offset : Int)
  | month (offset : Int)
  deriving DecidableEq

def keywords : List (String × Keyword) :=
  [("오늘", .today), ("어제", .daysAgo 1), ("그제", .daysAgo 2), ("그저께", .daysAgo 2),
    ("이번주", .week 0), ("지난주", .week (-1)), ("이번달", .month 0), ("지난달", .month (-1))]

def keywordOf (s : JsString) : Option Keyword :=
  (keywords.find? fun entry => ofString entry.1 == s.filter fun unit => !isSpace unit).map Prod.snd

def keywordDate (zone : Zone) (now : TimeValue) : Keyword -> Option TimeValue
  | .today => zone.startOfDay now
  | .daysAgo count => (zone.setDate now (zone.getDate now - count)).bind zone.startOfDay
  | .week offset => startOfWeek zone now offset
  | .month offset => startOfMonth zone now offset

def dayNames : List (String × Int) :=
  [("월요일", 1), ("화요일", 2), ("수요일", 3), ("목요일", 4), ("금요일", 5), ("토요일", 6),
    ("일요일", 0)]

/-- `^지난\s*(월요일|화요일|수요일|목요일|금요일|토요일|일요일)$` -/
def lastDay : Pattern Int := do
  atStart
  word "지난"
  let _ <- spaces
  let targetDay <- named id dayNames
  atEnd
  pure targetDay

def startOfLastDay (zone : Zone) (now : TimeValue) (targetDay : Int) : Option TimeValue :=
  let diff := zone.getDay now - targetDay
  let diff := if diff ≤ 0 then diff + 7 else diff
  (zone.setDate now (zone.getDate now - diff)).bind zone.startOfDay

/-- No result is `null`; a result may be a `Date` that holds no time. -/
def parseTemporalExpression (zone : Zone) (reader : DateReader) (expr : JsString)
    (now : TimeValue) : Option (Option TimeValue) :=
  if expr = [] then none
  else
    let s := trim expr
    match relativeDaysAgo zone s now with
    | some date => some date
    | none =>
      match keywordOf s with
      | some keyword => some (keywordDate zone now keyword)
      | none =>
        match lastDay.first s with
        | some targetDay => some (startOfLastDay zone now targetDay)
        | none => (reader.read s).map some

structure MonthsBack where
  months : Int
  keepsDate : Bool
  deriving DecidableEq

def monthsBack (expr : JsString) : Option MonthsBack :=
  match relative.first (trim expr) with
  | some (n, .month) => some ⟨n, true⟩
  | some (n, .year) => some ⟨12 * n, true⟩
  | some _ => none
  | none =>
    match keywordOf (trim expr) with
    | some (.month offset) => some ⟨-offset, false⟩
    | _ => none

def Zone.Holds (zone : Zone) (ms : Int) : Prop :=
  (timeClip (zone.utc ms)).isSome = true /\
    (timeClip (zone.utc (zone.localTime (zone.utc ms) / 86400000 * 86400000))).isSome = true

def StaysInMonth (zone : Zone) (now : TimeValue) (month date : Int) : Prop :=
  date ≤ monthLength month /\
    zone.Holds ((monthStart month + date - 1) * 86400000 + zone.timeWithinDay now)

def FallsIn (month : Int) (zone : Zone) (reader : DateReader) (expr : JsString)
    (now : TimeValue) : Prop :=
  ∃ time, parseTemporalExpression zone reader expr now = some (some time) /\
    InMonth month (zone.localDay time)

theorem inMonth_utc_iff (zone : Zone) (ms month : Int) :
    InMonth month (zone.localTime (zone.utc ms) / 86400000) <-> InMonth month (ms / 86400000) := by
  constructor
  · intro hin
    have hback := zone.utc_month ms _ (inMonth_monthOf (ms / 86400000))
    rw [hin.unique hback]
    exact inMonth_monthOf _
  · exact zone.utc_month ms month

theorem withFields_startOfDay_iff (zone : Zone) (now : TimeValue) {y m d month : Int} (hd : 1 ≤ d)
    (hmonth : 12 * y + m = month) :
    (∃ time, (zone.withFields now y m d).bind zone.startOfDay = some time /\
        InMonth month (zone.localDay time)) <-> StaysInMonth zone now month d := by
  have hlocal : ((monthStart month + d - 1) * 86400000 + zone.timeWithinDay now) / 86400000 =
      monthStart month + d - 1 := by
    have hlow : 0 ≤ zone.timeWithinDay now := Int.emod_nonneg _ (by decide)
    have hhigh : zone.timeWithinDay now < 86400000 := Int.emod_lt_of_pos _ (by decide)
    omega
  have hfields : zone.withFields now y m d = timeClip
      (zone.utc ((monthStart month + d - 1) * 86400000 + zone.timeWithinDay now)) := by
    rw [Zone.withFields, hmonth]
  rw [StaysInMonth, hfields]
  generalize (monthStart month + d - 1) * 86400000 + zone.timeWithinDay now = ms at *
  -- Reading the date back, and the start of its day, does not change the month.
  have hsame : ∀ moved time, timeClip (zone.utc ms) = some moved ->
      zone.startOfDay moved = some time ->
      (InMonth month (zone.localDay time) <-> d ≤ monthLength month) := by
    intro moved time hmoved htime
    have hday : zone.localTime (zone.utc ms) / 86400000 * 86400000 / 86400000 =
        zone.localTime (zone.utc ms) / 86400000 := Int.mul_ediv_cancel _ (by decide)
    rw [Zone.startOfDay, Zone.localDay, timeClip_eq_some_iff.mp hmoved] at htime
    rw [Zone.localDay, timeClip_eq_some_iff.mp htime, inMonth_utc_iff, hday, inMonth_utc_iff,
      hlocal]
    exact inMonth_date_iff hd
  have hstart : ∀ moved, timeClip (zone.utc ms) = some moved -> zone.startOfDay moved =
      timeClip (zone.utc (zone.localTime (zone.utc ms) / 86400000 * 86400000)) := by
    intro moved hmoved
    rw [Zone.startOfDay, Zone.localDay, timeClip_eq_some_iff.mp hmoved]
  constructor
  · rintro ⟨time, htime, hin⟩
    obtain ⟨moved, hmoved, hday⟩ := Option.bind_eq_some_iff.mp htime
    refine ⟨(hsame moved time hmoved hday).mp hin, Option.isSome_iff_exists.mpr ⟨moved, hmoved⟩, ?_⟩
    rw [← hstart moved hmoved, hday]
    rfl
  · rintro ⟨hlength, hmoved, hday⟩
    obtain ⟨moved, hmoved⟩ := Option.isSome_iff_exists.mp hmoved
    obtain ⟨time, htime⟩ := Option.isSome_iff_exists.mp hday
    rw [← hstart moved hmoved] at htime
    refine ⟨time, ?_, (hsame moved time hmoved htime).mpr hlength⟩
    rw [hmoved, Option.bind_some, htime]

theorem parse_monthsBack {expr : JsString} {back : MonthsBack} (hback : monthsBack expr = some back)
    (zone : Zone) (reader : DateReader) (now : TimeValue) :
    ∃ y m, 12 * y + m = zone.month now - back.months /\
      parseTemporalExpression zone reader expr now =
        some ((zone.withFields now y m (if back.keepsDate then zone.getDate now else 1)).bind
          zone.startOfDay) := by
  have hempty : expr ≠ [] := by
    rintro rfl
    have hnone : monthsBack [] = none := by decide +kernel
    rw [hnone] at hback
    cases hback
  have hmonth : zone.month now = 12 * zone.getFullYear now + zone.getMonth now := rfl
  rw [parseTemporalExpression, if_neg hempty]
  rw [monthsBack] at hback
  split at hback
  · rename_i n hrelative
    cases hback
    refine ⟨zone.getFullYear now, zone.getMonth now - n, by dsimp only; omega, ?_⟩
    simp only [relativeDaysAgo, hrelative]
    rfl
  · rename_i n hrelative
    cases hback
    refine ⟨zone.getFullYear now - n, zone.getMonth now, by dsimp only; omega, ?_⟩
    simp only [relativeDaysAgo, hrelative]
    rfl
  · cases hback
  · rename_i hrelative
    split at hback
    · rename_i offset hkeyword
      cases hback
      refine ⟨zone.getFullYear now, zone.getMonth now + offset, by dsimp only; omega, ?_⟩
      simp only [relativeDaysAgo, hrelative, hkeyword]
      rfl
    · cases hback

theorem getDate_pos (zone : Zone) (now : TimeValue) : 1 ≤ zone.getDate now :=
  Int.ofNat_le.mpr (dateOfDays_spec (zone.localDay now)).2.1

theorem fallsIn_iff {expr : JsString} {back : MonthsBack} (hback : monthsBack expr = some back)
    (zone : Zone) (reader : DateReader) (now : TimeValue) :
    FallsIn (zone.month now - back.months) zone reader expr now <->
      StaysInMonth zone now (zone.month now - back.months)
        (if back.keepsDate then zone.getDate now else 1) := by
  obtain ⟨y, m, hmonth, hparse⟩ := parse_monthsBack hback zone reader now
  have hdate : 1 ≤ if back.keepsDate then zone.getDate now else 1 := by
    split
    · exact getDate_pos zone now
    · exact Int.le_refl 1
  rw [← withFields_startOfDay_iff zone now hdate hmonth, FallsIn]
  refine exists_congr fun time => ?_
  rw [hparse, Option.some_inj]

def utcZone : Zone where
  localTime := id
  utc := id
  utc_month _ _ hin := hin

/-- Whatever the reference, an expression of months or years, and the last or the next month,
stays in the month it names exactly when that month has the date that is kept, dates reach
there, and `Date.UTC` does not read the year as one of the twentieth century. -/
theorem months_away_iff (now : TimeValue) :
    (∀ text found months, found ∈ expressions text ->
      Write.EventTimes.monthsAway found.value = some months ->
      (Write.EventTimes.FallsIn (now.month + months) now found.value <->
        Write.EventTimes.KeepsMonth now found.value)) /\
    (∀ content found months,
      expressions (content.take Write.EventTimes.scanLimit) = [found] ->
      Write.EventTimes.monthsAway found.value = some months ->
      (Write.EventTimes.Extracts (now.month + months) content now <->
        Write.EventTimes.KeepsMonth now found.value)) /\
    (∀ zone reader expr back, monthsBack expr = some back ->
      (FallsIn (zone.month now - back.months) zone reader expr now <->
        StaysInMonth zone now (zone.month now - back.months)
          (if back.keepsDate then zone.getDate now else 1))) := by
  refine ⟨?_, ?_, ?_⟩
  · intro text found months _ haway
    exact Write.EventTimes.fallsIn_iff now haway
  · intro content found months hsingle haway
    rw [Write.EventTimes.extracts_single_iff hsingle]
    exact Write.EventTimes.fallsIn_iff now haway
  · intro zone reader expr back hback
    exact fallsIn_iff hback zone reader now

/-- 2026-03-31 -/
def endOfMarch : TimeValue := ⟨20543 * 86400000, by decide⟩

/-- A month before the 31st of March is not in February. -/
theorem months_away_leaves_month :
    ¬ Write.EventTimes.Extracts (endOfMarch.month - 1) (ofString "1개월 전") endOfMarch /\
      ¬ FallsIn (utcZone.month endOfMarch - 1) utcZone isoReader (ofString "1개월 전")
        endOfMarch := by
  constructor
  · have hfound : expressions ((ofString "1개월 전").take Write.EventTimes.scanLimit) =
        [⟨0, 5, .shifted (-1) .month⟩] := by decide +kernel
    rw [Write.EventTimes.extracts_single_iff hfound]
    have hiff := @Write.EventTimes.fallsIn_iff (.shifted (-1) .month) endOfMarch (-1) rfl
    exact fun hfalls => absurd (hiff.mp hfalls).2.1 (by decide +kernel)
  · have hback : monthsBack (ofString "1개월 전") = some ⟨1, true⟩ := by decide +kernel
    have hiff := fallsIn_iff hback utcZone isoReader endOfMarch
    exact fun hfalls => absurd (hiff.mp hfalls).1 (by decide +kernel)

/-- 2026-03-15 -/
def middleOfMarch : TimeValue := ⟨20527 * 86400000, by decide⟩

theorem months_away_iff_middle :
    Write.EventTimes.Extracts (middleOfMarch.month + -1) (ofString "1개월 전") middleOfMarch /\
      FallsIn (utcZone.month middleOfMarch - 1) utcZone isoReader (ofString "1개월 전")
        middleOfMarch := by
  constructor
  · exact ((months_away_iff middleOfMarch).2.1 (ofString "1개월 전")
      ⟨0, 5, .shifted (-1) .month⟩ (-1) (by decide +kernel) rfl).mpr (by
        change ¬ _ /\ _ /\ _ /\ _
        decide +kernel)
  · exact ((months_away_iff middleOfMarch).2.2 utcZone isoReader (ofString "1개월 전") ⟨1, true⟩
      (by decide +kernel)).mpr ⟨by decide +kernel, by decide +kernel, by decide +kernel⟩

end AnchorMind.Recall.TimeRanges
