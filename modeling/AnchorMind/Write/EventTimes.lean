import AnchorMind.Kernel.Comparators
import AnchorMind.Dates.TimeValues
import AnchorMind.Write.EventExpressions

/-!
# The event time of a text

The expressions of a text are placed in time by a reference, on the UTC calendar.  The
first that does not name the reference's own day gives the event time, and how exact the
expression is says what follows: a week, a month and a year have an end, a day has none.
-/

namespace AnchorMind.Write.EventTimes

open Kernel.Calendar Kernel.Backtracking Kernel.Comparators Dates.TimeValues Text.JsonText List
  EventExpressions

inductive Precision where
  | day
  | week
  | month
  | year
  | minute
  deriving DecidableEq

def utcDate (y m d : Int) : Option TimeValue :=
  if y < 1900 ∨ 2200 < y ∨ m < 0 ∨ 11 < m ∨ d < 1 ∨ 31 < d then none
  else (dateUTC y m d).filter fun date => date.getUTCMonth == m && date.getUTCDate == d

def startOfUtcDay (time : TimeValue) : Option TimeValue :=
  dateUTC time.getUTCFullYear time.getUTCMonth time.getUTCDate

def startOfUtcWeek (time : TimeValue) : Option Int :=
  let diff := if time.getUTCDay = 0 then -6 else 1 - time.getUTCDay
  (startOfUtcDay time).map fun start => start.ms + diff * 86400000

def addUtcMonths (time : TimeValue) (n : Int) : Option TimeValue :=
  dateUTC time.getUTCFullYear (time.getUTCMonth + n) 1

def monthStartUtc (y m : Int) : Option TimeValue := dateUTC y m 1

def yearStartUtc (y : Int) : Option TimeValue := dateUTC y 0 1

structure Event where
  eventTime : JsString
  eventTimeEnd : Option JsString
  precision : Precision

/-- `toISOString` throws where a `Date` holds no time. -/
def isoString : Option TimeValue -> Except String JsString
  | some time => .ok time.toISOString
  | none => .error "Invalid time value"

def endOf (startMs : Int) : Precision -> Option (Option TimeValue)
  | .week => some (timeClip (startMs + 7 * 86400000))
  | .month => some ((timeClip startMs).bind fun start => addUtcMonths start 1)
  | .year => some ((timeClip startMs).bind fun start => addUtcMonths start 12)
  | .day | .minute => none

def result (startMs : Int) (precision : Precision) : Except String Event := do
  let eventTime <- isoString (timeClip startMs)
  let eventTimeEnd <- match endOf startMs precision with
    | none => pure none
    | some time => do
        let text <- isoString time
        pure (some text)
  pure { eventTime, eventTimeEnd, precision }

structure Placed where
  start : Option Int
  precision : Precision

def Placed.ofDate (date : Option TimeValue) (precision : Precision) : Placed :=
  ⟨date.map TimeValue.ms, precision⟩

def shift (ref : TimeValue) (n : Int) : CalendarUnit -> Placed
  | .day => ⟨(startOfUtcDay ref).map fun start => start.ms + n * 86400000, .day⟩
  | .week => ⟨(startOfUtcDay ref).map fun start => start.ms + n * 7 * 86400000, .day⟩
  | .month => .ofDate (dateUTC ref.getUTCFullYear (ref.getUTCMonth + n) ref.getUTCDate) .day
  | .year => .ofDate (dateUTC (ref.getUTCFullYear + n) ref.getUTCMonth ref.getUTCDate) .day

def placed (ref : TimeValue) : Expression -> Option Placed
  | .date y m d =>
    (utcDate (y.elim ref.getUTCFullYear Nat.cast) m d).map fun date => .ofDate (some date) .day
  | .month y m => if 0 ≤ m ∧ m ≤ 11 then some (.ofDate (monthStartUtc y m) .month) else none
  | .year y => if 1900 ≤ y ∧ y ≤ 2200 then some (.ofDate (yearStartUtc y) .year) else none
  | .dayAt offset => some ⟨(startOfUtcDay ref).map fun start => start.ms + offset * 86400000, .day⟩
  | .shifted n unit => some (shift ref n unit)
  | .weekAt n => some ⟨(startOfUtcWeek ref).map fun start => start + n * 7 * 86400000, .week⟩
  | .monthAt n => some (.ofDate (addUtcMonths ref n) .month)
  | .yearAt n => some (.ofDate (yearStartUtc (ref.getUTCFullYear + n)) .year)

structure Hit where
  index : Nat
  length : Nat
  start : Int
  precision : Precision

def hitOf (ref : TimeValue) (found : Match Expression) : Option Hit := do
  let place <- placed ref found.value
  let start <- place.start
  pure ⟨found.index, found.length, start, place.precision⟩

def byPlace (a b : Hit) : Ordering :=
  (compare a.index b.index).then (compare b.length a.length)

def uncovered : Nat -> List Hit -> List Hit
  | _, [] => []
  | coveredUntil, hit :: hits =>
    if hit.index < coveredUntil then uncovered coveredUntil hits
    else hit :: uncovered (hit.index + hit.length) hits

def collect (text : JsString) (ref : TimeValue) : List Hit :=
  uncovered 0 (sortBy byPlace ((expressions text).filterMap (hitOf ref)))

def scanLimit : Nat := 2000

def leadsElsewhere (ref : TimeValue) (hit : Hit) : Bool :=
  !(hit.precision == .day && some hit.start == (startOfUtcDay ref).map TimeValue.ms)

def chosen (ref : TimeValue) : List Hit -> Option Hit
  | [] => none
  | first :: rest => some (((first :: rest).find? (leadsElsewhere ref)).getD first)

def extractEventTime (content : JsString) (ref : TimeValue) : Except String (Option Event) :=
  if content.length = 0 then .ok none
  else match chosen ref (collect (content.take scanLimit) ref) with
    | none => .ok none
    | some hit => (result hit.start hit.precision).map some

theorem uncovered_sublist (hits : List Hit) (coveredUntil : Nat) :
    (uncovered coveredUntil hits).Sublist hits := by
  induction hits generalizing coveredUntil with
  | nil => exact Sublist.refl _
  | cons hit hits ih =>
    rw [uncovered]
    split
    · exact (ih coveredUntil).cons hit
    · exact (ih _).cons_cons hit

def PlacedAt (text : JsString) (ref : TimeValue) (start : Int) (precision : Precision) : Prop :=
  ∃ found ∈ expressions text,
    placed ref found.value = some ⟨some start, precision⟩

variable {ref : TimeValue} {hit : Hit}

theorem placedAt_of_mem {text : JsString} (hhit : hit ∈ collect text ref) :
    PlacedAt text ref hit.start hit.precision := by
  have hsorted := (uncovered_sublist _ 0).subset hhit
  have hplaced := (sortBy_perm byPlace _).subset hsorted
  obtain ⟨found, hfound, hhit⟩ := mem_filterMap.mp hplaced
  refine ⟨found, hfound, ?_⟩
  obtain ⟨⟨start?, precision⟩, hplace, hrest⟩ := Option.bind_eq_some_iff.mp hhit
  obtain ⟨start, hstart, hmade⟩ := Option.bind_eq_some_iff.mp hrest
  cases hmade
  change start? = some start at hstart
  rw [hplace, hstart]

variable {hits : List Hit}

theorem mem_of_chosen (hchosen : chosen ref hits = some hit) : hit ∈ hits := by
  cases hits with
  | nil => cases hchosen
  | cons first rest =>
    cases hchosen
    cases hfind : (first :: rest).find? (leadsElsewhere ref) with
    | none => exact mem_cons_self
    | some hit => exact mem_of_find?_eq_some hfind

theorem chosen_single (ref : TimeValue) (hit : Hit) : chosen ref [hit] = some hit := by
  rw [chosen]
  cases hfind : [hit].find? (leadsElsewhere ref) with
  | none => rfl
  | some other =>
    rw [mem_singleton.mp (mem_of_find?_eq_some hfind)]
    rfl

theorem extractEventTime_cases (content : JsString) (ref : TimeValue) :
    extractEventTime content ref = .ok none \/
      ∃ start precision, PlacedAt (content.take scanLimit) ref start precision /\
        extractEventTime content ref = (result start precision).map some := by
  rw [extractEventTime]
  split
  · exact .inl rfl
  · split
    · exact .inl rfl
    · rename_i hit hchosen
      exact Or.inr ⟨hit.start, hit.precision, placedAt_of_mem (mem_of_chosen hchosen), rfl⟩

variable {found : Match Expression}

theorem collect_single {text : JsString} (hexpressions : expressions text = [found])
    (ref : TimeValue) : collect text ref = (hitOf ref found).toList := by
  rw [collect, hexpressions, filterMap_cons, filterMap_nil]
  cases hitOf ref found with
  | none => rfl
  | some hit =>
    have hsorted := perm_singleton.mp (sortBy_perm byPlace [hit])
    rw [hsorted, uncovered, if_neg (Nat.not_lt_zero _)]
    rfl

theorem extractEventTime_single {content : JsString}
    (hexpressions : expressions (content.take scanLimit) = [found]) (ref : TimeValue) :
    extractEventTime content ref = (hitOf ref found).elim (.ok none)
      fun hit => (result hit.start hit.precision).map some := by
  have hcontent : content.length ≠ 0 := by
    intro hempty
    rw [length_eq_zero_iff.mp hempty] at hexpressions
    have hnone : expressions [] = [] := by decide +kernel
    rw [take_nil, hnone] at hexpressions
    cases hexpressions
  rw [extractEventTime, if_neg hcontent, collect_single hexpressions]
  cases hitOf ref found with
  | none => rfl
  | some hit =>
    rw [Option.toList_some, chosen_single]
    rfl

variable {precision : Precision} {start : Int}

theorem result_open {time : TimeValue} (htime : timeClip start = some time)
    (hend : endOf start precision = none) :
    result start precision = .ok ⟨time.toISOString, none, precision⟩ := by
  rw [result, htime, hend]
  rfl

variable {time later : TimeValue}

theorem result_closed (htime : timeClip start = some time)
    (hend : endOf start precision = some (some later)) :
    result start precision =
      .ok ⟨time.toISOString, some later.toISOString, precision⟩ := by
  rw [result, htime, hend]
  rfl

theorem result_throws (hnone : timeClip start = none \/ endOf start precision = some none) :
    result start precision = .error "Invalid time value" := by
  rcases hnone with hclip | hend
  · rw [result, hclip]
    rfl
  · rw [result, hend]
    cases timeClip start <;> rfl

theorem result_cases (start : Int) (precision : Precision) :
    (timeClip start = none \/ endOf start precision = some none) /\
        result start precision = .error "Invalid time value" \/
      ∃ time, timeClip start = some time /\
        (endOf start precision = none /\
            result start precision = .ok ⟨time.toISOString, none, precision⟩ \/
          ∃ later, endOf start precision = some (some later) /\
            result start precision =
              .ok ⟨time.toISOString, some later.toISOString, precision⟩) := by
  cases htime : timeClip start with
  | none => exact Or.inl ⟨.inl rfl, result_throws (.inl htime)⟩
  | some time =>
    cases hend : endOf start precision with
    | none => exact Or.inr ⟨time, rfl, Or.inl ⟨rfl, result_open htime hend⟩⟩
    | some later =>
      cases later with
      | none => exact Or.inl ⟨.inr rfl, result_throws (.inr hend)⟩
      | some later => exact Or.inr ⟨time, rfl, Or.inr ⟨later, rfl, result_closed htime hend⟩⟩

theorem addUtcMonths_eq (time : TimeValue) (n : Int) :
    addUtcMonths time n =
      dateUTC time.getUTCFullYear (time.getUTCMonth + n) 1 := rfl

theorem day_of_addUtcMonths {n : Int}
    (hyear : ¬ (0 ≤ time.getUTCFullYear /\ time.getUTCFullYear ≤ 99))
    (hlater : addUtcMonths time n = some later) : later.day = monthStart (time.month + n) := by
  have hday := day_of_dateUTC hlater
  have hmonth := time.month_eq
  have hadd : 12 * time.getUTCFullYear + (time.getUTCMonth + n) = time.month + n := by omega
  rw [fullYear, if_neg hyear, hadd] at hday
  omega

theorem exists_addUtcMonths_iff (time : TimeValue) {n : Int} (hn : 1 ≤ n /\ n ≤ 12) :
    (∃ later, addUtcMonths time n = some later) <->
      monthStart (time.month + n) ≤ 100000000 := by
  have hmonth := time.month_eq
  have hof := time.getUTCMonth_bounds
  rw [addUtcMonths_eq, exists_dateUTC_iff]
  obtain ⟨hsmall, hfull⟩ | ⟨-, hfull⟩ := fullYear_cases time.getUTCFullYear
  · -- Years read as of the twentieth century are far from both ends.
    have hearly := @monthStart_le (time.month + n) 24011 (by omega)
    have hlow := @monthStart_le 0 (12 * (1900 + time.getUTCFullYear) + (time.getUTCMonth + n))
      (by omega)
    have hhigh := @monthStart_le (12 * (1900 + time.getUTCFullYear) + (time.getUTCMonth + n))
      24011 (by omega)
    have hconstants : monthStart 0 = -719528 /\ monthStart 24011 = 11292 := by decide
    rw [hfull]
    omega
  · have hadd : 12 * time.getUTCFullYear + (time.getUTCMonth + n) = time.month + n := by omega
    have hin := (inMonth_monthOf time.day).2
    have hnext := @monthStart_le (monthOf time.day + 1) (time.month + n)
      (by rw [TimeValue.month]; omega)
    have hday := time.day_bounds
    rw [hfull, hadd]
    omega

def monthsAway : Expression -> Option Int
  | .shifted n .month => some n
  | .shifted n .year => some (12 * n)
  | .monthAt n => some n
  | _ => none

def FallsIn (month : Int) (ref : TimeValue) (expression : Expression) : Prop :=
  ∃ (time : TimeValue) (precision : Precision) (event : Event),
    placed ref expression = some ⟨some time.ms, precision⟩ /\
    result time.ms precision = .ok event /\ event.eventTime = time.toISOString /\
    InMonth month time.day

def KeepsMonth (ref : TimeValue) : Expression -> Prop
  | .shifted n .month => StaysInMonth ref.getUTCFullYear (ref.month + n) ref.getUTCDate
  | .shifted n .year => StaysInMonth (ref.getUTCFullYear + n) (ref.month + 12 * n) ref.getUTCDate
  | .monthAt n => StaysInMonth ref.getUTCFullYear (ref.month + n) 1 /\
      monthStart (ref.month + n + 1) ≤ 100000000
  | _ => True

variable {expression : Expression} {date : Option TimeValue}

theorem fallsIn_ofDate {month : Int}
    (hplaced : placed ref expression = some (.ofDate date precision)) :
    FallsIn month ref expression <-> ∃ time, (date = some time /\ InMonth month time.day) /\
      endOf time.ms precision ≠ some none := by
  constructor
  · rintro ⟨time, _, event, hstart, hevent, -, hin⟩
    rw [hplaced] at hstart
    injection hstart with hstart
    injection hstart with hms hprecision
    obtain ⟨other, hdate, hother⟩ := Option.map_eq_some_iff.mp hms
    have hsame : other = time := TimeValue.ext hother
    rw [← hprecision] at hevent
    refine ⟨time, ⟨hsame ▸ hdate, hin⟩, fun hend => ?_⟩
    rw [result_throws (.inr hend)] at hevent
    cases hevent
  · rintro ⟨time, ⟨rfl, hin⟩, hend⟩
    obtain ⟨hnone | hnone, -⟩ | ⟨other, htime, hresult⟩ := result_cases time.ms precision
    · rw [timeClip_ms] at hnone
      cases hnone
    · exact absurd hnone hend
    · rw [timeClip_ms] at htime
      cases htime
      rcases hresult with ⟨-, hresult⟩ | ⟨_, -, hresult⟩ <;>
        exact ⟨time, precision, _, hplaced, hresult, rfl, hin⟩

theorem fallsIn_day {month : Int} (hplaced : placed ref expression = some (.ofDate date .day)) :
    FallsIn month ref expression <-> ∃ time, date = some time /\ InMonth month time.day := by
  rw [fallsIn_ofDate hplaced]
  refine exists_congr fun time => and_iff_left ?_
  exact nofun

/-- An expression of months or years stays in the month it names exactly under `KeepsMonth`. -/
theorem fallsIn_iff (ref : TimeValue) {months : Int} (haway : monthsAway expression = some months) :
    FallsIn (ref.month + months) ref expression <-> KeepsMonth ref expression := by
  have hmonth := ref.month_eq
  have hadd : ∀ n, 12 * ref.getUTCFullYear + (ref.getUTCMonth + n) = ref.month + n := by
    intro n
    omega
  cases expression with
  | shifted n unit =>
    cases unit with
    | month =>
      cases haway
      rw [fallsIn_day rfl, ← hadd, dateUTC_inMonth_iff ref.getUTCDate_pos, hadd]
      rfl
    | year =>
      cases haway
      have hyears : ref.month + 12 * n =
          12 * (ref.getUTCFullYear + n) + ref.getUTCMonth := by omega
      rw [fallsIn_day rfl, hyears, dateUTC_inMonth_iff ref.getUTCDate_pos, ← hyears]
      rfl
    | day => cases haway
    | week => cases haway
  | monthAt n =>
    have hn : n = months := Option.some.inj haway
    subst hn
    have hstays := @dateUTC_inMonth_iff ref.getUTCFullYear (ref.getUTCMonth + n) 1 (Int.le_refl 1)
    have hlast : ∀ time : TimeValue, InMonth (ref.month + n) time.day ->
        (endOf time.ms .month ≠ some none <-> monthStart (ref.month + n + 1) ≤ 100000000) := by
      intro time hin
      have hend : endOf time.ms .month = some (addUtcMonths time 1) := by
        rw [endOf, timeClip_ms]
        rfl
      have htime : time.month = ref.month + n := monthOf_eq hin
      have hexists := exists_addUtcMonths_iff time (show (1 : Int) ≤ 1 /\ 1 ≤ 12 by decide)
      rw [hend, ← htime, ← hexists, ← Option.isSome_iff_exists, Option.isSome_iff_ne_none]
      exact not_congr Option.some_inj
    rw [fallsIn_ofDate rfl]
    rw [hadd] at hstays
    constructor
    · rintro ⟨time, hplace, hend⟩
      exact ⟨hstays.mp ⟨time, hplace⟩, (hlast time hplace.2).mp hend⟩
    · rintro ⟨hkeeps, hnext⟩
      obtain ⟨time, hplace⟩ := hstays.mpr hkeeps
      exact ⟨time, hplace, (hlast time hplace.2).mpr hnext⟩
  | _ => cases haway

def Extracts (month : Int) (content : JsString) (ref : TimeValue) : Prop :=
  ∃ (event : Event) (time : TimeValue), extractEventTime content ref = .ok (some event) /\
    event.eventTime = time.toISOString /\ InMonth month time.day

theorem extracts_single_iff {content : JsString}
    (hexpressions : expressions (content.take scanLimit) = [found]) (month : Int)
    (ref : TimeValue) : Extracts month content ref <-> FallsIn month ref found.value := by
  rw [Extracts, FallsIn, extractEventTime_single hexpressions]
  constructor
  · rintro ⟨event, time, hextract, heventTime, hin⟩
    cases hhit : hitOf ref found with
    | none =>
      rw [hhit] at hextract
      cases hextract
    | some hit =>
      obtain ⟨⟨_, precision⟩, hplace, hrest⟩ := Option.bind_eq_some_iff.mp hhit
      obtain ⟨start, rfl, hmade⟩ := Option.bind_eq_some_iff.mp hrest
      cases hmade
      rw [hhit] at hextract
      obtain ⟨-, hresult⟩ | ⟨held, hheld, hresult⟩ := result_cases start precision
      · simp only [Option.elim_some, hresult] at hextract
        cases hextract
      · have hms := timeClip_eq_some_iff.mp hheld
        subst hms
        rcases hresult with ⟨-, hresult⟩ | ⟨later, -, hresult⟩
        all_goals
          simp only [Option.elim_some, hresult] at hextract
          cases hextract
          have hsame := toISOString_injective heventTime
          exact ⟨held, precision, _, hplace, hresult, rfl, hsame ▸ hin⟩
  · rintro ⟨time, precision, event, hplace, hresult, heventTime, hin⟩
    have hhit : hitOf ref found = some ⟨found.index, found.length, time.ms, precision⟩ := by
      rw [hitOf, hplace]
      rfl
    refine ⟨event, time, ?_, heventTime, hin⟩
    rw [hhit, Option.elim_some, hresult]
    rfl

theorem isLE_byPlace {a b : Hit} : (byPlace a b).isLE = true <->
    a.index ≤ b.index /\ (a.index = b.index -> b.length ≤ a.length) := by
  unfold byPlace
  rcases Nat.lt_trichotomy a.index b.index with hlt | heq | hgt
  · simp [Nat.compare_eq_lt.mpr hlt, hlt.le, hlt.ne]
  · simp [heq, Nat.isLE_compare]
  · simp [Nat.compare_eq_gt.mpr hgt, hgt]

instance : Std.TransCmp byPlace where
  eq_swap {a b} := by simp only [byPlace, Ordering.swap_then, ← Std.OrientedCmp.eq_swap]
  isLE_trans {a b c} hfirst hsecond := by
    rw [isLE_byPlace] at *
    omega

/-- What is kept begins after what is covered, and goes on after its own end. -/
theorem uncovered_apart (hits : List Hit) (coveredUntil : Nat) :
    (∀ hit ∈ uncovered coveredUntil hits, coveredUntil ≤ hit.index) /\
      (uncovered coveredUntil hits).Pairwise fun a b => a.index + a.length ≤ b.index := by
  induction hits generalizing coveredUntil with
  | nil => exact ⟨nofun, .nil⟩
  | cons hit hits ih =>
    rw [uncovered]
    split
    · exact ih coveredUntil
    · obtain ⟨hafter, hapart⟩ := ih (hit.index + hit.length)
      refine ⟨forall_mem_cons.mpr ⟨by omega, fun other hother => ?_⟩, .cons hafter hapart⟩
      have hlater := hafter other hother
      omega

theorem longest_uncovered (hsorted : hits.Pairwise fun a b => (byPlace a b).isLE = true)
    {coveredUntil : Nat} (hhit : hit ∈ uncovered coveredUntil hits) {other : Hit}
    (hother : other ∈ hits) (hplace : other.index = hit.index) : other.length ≤ hit.length := by
  induction hits generalizing coveredUntil with
  | nil => cases hother
  | cons first rest ih =>
    obtain ⟨hfirst, hrest⟩ := pairwise_cons.mp hsorted
    have hbegins := (uncovered_apart (first :: rest) coveredUntil).1 hit hhit
    rw [uncovered] at hhit
    split at hhit
    · rcases mem_cons.mp hother with rfl | hother
      · omega
      · exact ih hrest hhit hother
    · rcases mem_cons.mp hhit with rfl | hhit
      · rcases mem_cons.mp hother with rfl | hother
        · exact Nat.le_refl _
        · exact (isLE_byPlace.mp (hfirst other hother)).2 hplace.symm
      · rcases mem_cons.mp hother with rfl | hother
        · have hafter := (uncovered_apart rest _).1 hit hhit
          omega
        · exact ih hrest hhit hother

theorem covered_of_dropped (hsorted : hits.Pairwise fun a b => (byPlace a b).isLE = true)
    (coveredUntil : Nat) (hhit : hit ∈ hits) :
    hit.index < coveredUntil \/ hit ∈ uncovered coveredUntil hits \/
      ∃ kept ∈ uncovered coveredUntil hits,
        kept.index ≤ hit.index /\ hit.index < kept.index + kept.length := by
  induction hits generalizing coveredUntil with
  | nil => cases hhit
  | cons first rest ih =>
    obtain ⟨hfirst, hrest⟩ := pairwise_cons.mp hsorted
    rw [uncovered]
    split
    · rcases mem_cons.mp hhit with rfl | hhit
      · exact .inl ‹_›
      · exact ih hrest coveredUntil hhit
    · right
      rcases mem_cons.mp hhit with rfl | hhit
      · exact .inl mem_cons_self
      · rcases ih hrest (first.index + first.length) hhit with hinside | hkept | ⟨kept, hkept, hin⟩
        · exact .inr ⟨first, mem_cons_self, (isLE_byPlace.mp (hfirst hit hhit)).1, hinside⟩
        · exact .inl (mem_cons_of_mem _ hkept)
        · exact .inr ⟨kept, mem_cons_of_mem _ hkept, hin⟩

/-- What is kept of the hits of a text stands in order and apart, each the longest of its place,
and every other hit begins inside one of them. -/
theorem collect_keeps (text : JsString) (ref : TimeValue) :
    (collect text ref).Pairwise (fun a b => a.index + a.length ≤ b.index) /\
      (∀ hit ∈ collect text ref, ∀ other ∈ (expressions text).filterMap (hitOf ref),
        other.index = hit.index -> other.length ≤ hit.length) /\
      ∀ hit ∈ (expressions text).filterMap (hitOf ref), hit ∈ collect text ref \/
        ∃ kept ∈ collect text ref,
          kept.index ≤ hit.index /\ hit.index < kept.index + kept.length := by
  have hsorted := @sortBy_pairwise _ byPlace _ ((expressions text).filterMap (hitOf ref))
  have hsame := fun hit : Hit =>
    (sortBy_perm byPlace ((expressions text).filterMap (hitOf ref))).mem_iff (a := hit)
  refine ⟨(uncovered_apart _ 0).2, fun hit hhit other hother => ?_, fun hit hhit => ?_⟩
  · exact longest_uncovered hsorted hhit ((hsame other).mpr hother)
  · exact (covered_of_dropped hsorted 0 ((hsame hit).mpr hhit)).resolve_left (Nat.not_lt_zero _)

end AnchorMind.Write.EventTimes
