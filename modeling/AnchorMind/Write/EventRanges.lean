import AnchorMind.Write.EventTimes

/-!
# How far event times reach, and what they span

Weeks are counted out the farthest, 999 of them at most, so a reference 6993 days from both
ends of what a `Date` holds has a result for every expression.  A result's end is later
than its start.  A week, a month and a year span just that unit of the calendar, but for
references at the years `Date.UTC` reads as years of the twentieth century.
-/

namespace AnchorMind.Write.EventRanges

open Kernel.Calendar Dates.TimeValues Text.JsonText EventExpressions EventTimes

/-- The years that `Date.UTC` reads otherwise, by their months. -/
theorem twoDigitYear_iff (time : TimeValue) :
    (0 ≤ time.getUTCFullYear /\ time.getUTCFullYear ≤ 99) <->
      0 ≤ time.month /\ time.month ≤ 1199 := by
  have hmonth := time.month_eq
  have hof := time.getUTCMonth_bounds
  constructor <;> intro hyear <;> omega

theorem startOfUtcDay_cases (time : TimeValue) : ∃ start,
    startOfUtcDay time = some start /\ start.ms = start.day * 86400000 /\
      (¬ (0 ≤ time.month /\ time.month ≤ 1199) /\ start.day = time.day \/
        (0 ≤ time.month /\ time.month ≤ 1199) /\
          start.day = monthStart (time.month + 22800) + time.getUTCDate - 1) := by
  have hmonth := time.month_eq
  have hday := time.day_eq
  have hdate := time.getUTCDate_pos
  have hdate' := time.getUTCDate_le
  have hbounds := time.day_bounds
  have hstart : ∀ day : Int, monthStart (12 * fullYear time.getUTCFullYear +
      time.getUTCMonth) + time.getUTCDate - 1 = day -> -100000000 ≤ day /\ day ≤ 100000000 ->
      ∃ start, startOfUtcDay time = some start /\ start.ms = start.day * 86400000 /\
        start.day = day := by
    intro day heq hheld
    rw [← heq] at hheld
    obtain ⟨start, hstart⟩ := exists_dateUTC_iff.mpr hheld
    have hsame := day_of_dateUTC hstart
    refine ⟨start, hstart, ?_, hsame.trans heq⟩
    rw [dateUTC_eq_some_iff.mp hstart, hsame]
  obtain ⟨hsmall, hfull⟩ | ⟨hlarge, hfull⟩ := fullYear_cases time.getUTCFullYear
  · have hmonths := (twoDigitYear_iff time).mp hsmall
    have hlow := @monthStart_le 22800 (time.month + 22800) (by omega)
    have hhigh := @monthStart_le (time.month + 22800) 24000 (by omega)
    have hconstants : monthStart 22800 = -25567 /\ monthStart 24000 = 10957 := by decide
    have hadd : 12 * fullYear time.getUTCFullYear + time.getUTCMonth = time.month + 22800 := by
      omega
    obtain ⟨start, hstart, hms, hsame⟩ := hstart _ (by rw [hadd]) (by omega)
    exact ⟨start, hstart, hms, Or.inr ⟨hmonths, hsame⟩⟩
  · have hadd : 12 * fullYear time.getUTCFullYear + time.getUTCMonth = time.month := by omega
    obtain ⟨start, hstart, hms, hsame⟩ := hstart time.day (by rw [hadd, ← hday]) hbounds
    exact ⟨start, hstart, hms, Or.inl ⟨fun hsmall => hlarge ((twoDigitYear_iff time).mpr hsmall),
      hsame⟩⟩

variable {time : TimeValue}

theorem month_of_dateUTC {year month : Int} (htime : dateUTC year month 1 = some time) :
    time.month = 12 * fullYear year + month /\ time.ms = monthStart time.month * 86400000 := by
  have hday := day_of_dateUTC htime
  have hms := dateUTC_eq_some_iff.mp htime
  have hstart : time.day = monthStart (12 * fullYear year + month) := by omega
  have hmonth : time.month = 12 * fullYear year + month := by
    rw [TimeValue.month, hstart, monthOf_monthStart]
  refine ⟨hmonth, ?_⟩
  rw [hmonth, hms]
  omega

/-- 999 weeks in either direction stay within what a `Date` holds. -/
def WithinReach (day : Int) : Prop := -100000000 + 6993 ≤ day /\ day + 6993 ≤ 100000000

variable {precision : Precision} {start : Int}

theorem exists_result (hheld : (timeClip start).isSome = true)
    (hend : endOf start precision ≠ some none) : ∃ event, result start precision = .ok event := by
  obtain ⟨hnone | hnone, -⟩ | ⟨time, -, ⟨-, hresult⟩ | ⟨later, -, hresult⟩⟩ :=
    result_cases start precision
  · rw [hnone] at hheld
    cases hheld
  · exact absurd hnone hend
  · exact ⟨_, hresult⟩
  · exact ⟨_, hresult⟩

theorem exists_result_day (hheld : (timeClip start).isSome = true) :
    ∃ event, result start .day = .ok event := exists_result hheld nofun

theorem timeClip_isSome (time : TimeValue) : (timeClip time.ms).isSome = true := by
  rw [timeClip_ms]
  rfl

variable {n : Int}

theorem exists_result_months (hn : 1 ≤ n /\ n ≤ 12)
    (hend : endOf time.ms precision = some (addUtcMonths time n))
    (hnext : monthStart (time.month + n) ≤ 100000000) :
    ∃ event, result time.ms precision = .ok event := by
  obtain ⟨later, hlater⟩ := (exists_addUtcMonths_iff time hn).mpr hnext
  refine exists_result (timeClip_isSome time) ?_
  rw [hend, hlater]
  exact nofun

theorem endOf_month (time : TimeValue) : endOf time.ms .month = some (addUtcMonths time 1) := by
  rw [endOf, timeClip_ms]
  rfl

theorem endOf_year (time : TimeValue) : endOf time.ms .year = some (addUtcMonths time 12) := by
  rw [endOf, timeClip_ms]
  rfl

theorem result_month (hmonth : time.month < 120000) :
    ∃ event, result time.ms .month = .ok event := by
  have hnext := @monthStart_le (time.month + 1) 120000 (by omega)
  have hconstant : monthStart 120000 = 2932897 := by decide
  exact exists_result_months (by decide) (endOf_month time) (by omega)

theorem result_year (hmonth : time.month < 119988) : ∃ event, result time.ms .year = .ok event := by
  have hnext := @monthStart_le (time.month + 12) 120000 (by omega)
  have hconstant : monthStart 120000 = 2932897 := by decide
  exact exists_result_months (by decide) (endOf_year time) (by omega)

variable {ref : TimeValue}

theorem startOfUtcDay_reach (hreach : WithinReach ref.day) : ∃ start,
    startOfUtcDay ref = some start /\ start.ms = start.day * 86400000 /\
      WithinReach start.day := by
  obtain ⟨start, hstart, hms, ⟨-, hsame⟩ | ⟨hsmall, hmoved⟩⟩ := startOfUtcDay_cases ref
  · exact ⟨start, hstart, hms, hsame ▸ hreach⟩
  · have hdate := ref.getUTCDate_pos
    have hdate' := ref.getUTCDate_le
    have hlow := @monthStart_le 22800 (ref.month + 22800) (by omega)
    have hhigh := @monthStart_le (ref.month + 22800) 24000 (by omega)
    have hconstants : monthStart 22800 = -25567 /\ monthStart 24000 = 10957 := by decide
    exact ⟨start, hstart, hms, by rw [WithinReach]; omega⟩

theorem result_day (hreach : WithinReach ref.day) {days start : Int}
    (hdays : -6993 ≤ days /\ days ≤ 6993)
    (hstart : ((startOfUtcDay ref).map fun time => time.ms + days * 86400000) = some start) :
    ∃ event, result start .day = .ok event := by
  obtain ⟨time, htime, hms, hlow, hhigh⟩ := startOfUtcDay_reach hreach
  rw [htime, Option.map_some, Option.some_inj] at hstart
  refine exists_result_day (timeClip_isSome_iff.mpr ?_)
  omega

theorem result_week (hreach : WithinReach ref.day) {n start : Int} (hn : -1 ≤ n /\ n ≤ 1)
    (hstart : ((startOfUtcWeek ref).map fun time => time + n * 7 * 86400000) = some start) :
    ∃ event, result start .week = .ok event := by
  obtain ⟨time, htime, hms, hlow, hhigh⟩ := startOfUtcDay_reach hreach
  have hweekday : 0 ≤ ref.getUTCDay /\ ref.getUTCDay ≤ 6 := by
    rw [TimeValue.getUTCDay, weekday]
    omega
  simp only [startOfUtcWeek, htime, Option.map_some, Option.some_inj] at hstart
  have hheld : (timeClip start).isSome = true := by
    rw [timeClip_isSome_iff]
    split at hstart <;> omega
  have hlater : (timeClip (start + 7 * 86400000)).isSome = true := by
    rw [timeClip_isSome_iff]
    split at hstart <;> omega
  refine exists_result hheld fun hnone => ?_
  rw [Option.some_inj.mp hnone] at hlater
  cases hlater

theorem month_le_of_reach (hreach : WithinReach ref.day) {months : Int} (hmonths : months ≤ 36) :
    monthStart (ref.month + months) ≤ 100000000 := by
  have hday := ref.day_eq
  have hdate := ref.getUTCDate_pos
  have hbound := (monthStart_add ref.month 36).2
  have hle := @monthStart_le (ref.month + months) (ref.month + (36 : Nat)) (by omega)
  have hhigh := hreach.2
  omega

theorem result_monthAt {ref time : TimeValue} (hreach : WithinReach ref.day) (hn : n ≤ 1)
    (htime : addUtcMonths ref n = some time) : ∃ event, result time.ms .month = .ok event := by
  obtain ⟨hmonth, -⟩ := month_of_dateUTC htime
  have hyear := ref.month_eq
  obtain ⟨hsmall, hfull⟩ | ⟨-, hfull⟩ := fullYear_cases ref.getUTCFullYear
  · have hof := ref.getUTCMonth_bounds
    exact result_month (by omega)
  · have hadd : time.month + 1 = ref.month + (n + 1) := by omega
    refine exists_result_months (by decide) (endOf_month time) ?_
    rw [hadd]
    exact month_le_of_reach hreach (by omega)

theorem result_yearAt {ref time : TimeValue} (hreach : WithinReach ref.day) (hn : n ≤ 1)
    (htime : yearStartUtc (ref.getUTCFullYear + n) = some time) :
    ∃ event, result time.ms .year = .ok event := by
  obtain ⟨hmonth, -⟩ := month_of_dateUTC htime
  have hyear := ref.month_eq
  have hof := ref.getUTCMonth_bounds
  obtain ⟨hsmall, hfull⟩ | ⟨-, hfull⟩ := fullYear_cases (ref.getUTCFullYear + n)
  · exact result_year (by omega)
  · have hadd : time.month + 12 = ref.month + (12 * n + 12 - ref.getUTCMonth) := by omega
    refine exists_result_months (by decide) (endOf_year time) ?_
    rw [hadd]
    exact month_le_of_reach hreach (by omega)

theorem ofDate_eq {date : Option TimeValue} {kind precision : Precision}
    (heq : some (Placed.ofDate date kind) = some ⟨some start, precision⟩) :
    ∃ time, date = some time /\ start = time.ms /\ precision = kind := by
  injection heq with heq
  injection heq with hms hkind
  obtain ⟨time, hdate, rfl⟩ := Option.map_eq_some_iff.mp hms
  exact ⟨time, hdate, rfl, hkind.symm⟩

theorem fullYear_le {year bound : Int} (hyear : year ≤ bound) (hbound : 1999 ≤ bound) :
    fullYear year ≤ bound := by
  obtain ⟨hsmall, hfull⟩ | ⟨-, hfull⟩ := fullYear_cases year <;> omega

theorem exists_writtenMonth {y m : Int} (hy : 0 ≤ y /\ y ≤ 9999) (hm : 0 ≤ m /\ m ≤ 11) :
    ∃ time, dateUTC y m 1 = some time /\ time.month = 12 * fullYear y + m := by
  have hhigh := fullYear_le hy.2 (by decide)
  have hlow : 0 ≤ fullYear y := by obtain ⟨hsmall, hfull⟩ | ⟨-, hfull⟩ := fullYear_cases y <;> omega
  have hstart := @monthStart_le 0 (12 * fullYear y + m) (by omega)
  have hend := @monthStart_le (12 * fullYear y + m) 120000 (by omega)
  have hconstants : monthStart 0 = -719528 /\ monthStart 120000 = 2932897 := by decide
  obtain ⟨time, htime⟩ := (@exists_dateUTC_iff y m 1).mpr (by omega)
  exact ⟨time, htime, (month_of_dateUTC htime).1⟩

variable {expression : Expression}

theorem result_of_reach (hreach : WithinReach ref.day) (hbounded : expression.Bounded)
    (hplaced : placed ref expression = some ⟨some start, precision⟩) :
    ∃ event, result start precision = .ok event := by
  cases expression with
  | date y m d =>
    obtain ⟨date, -, hmade⟩ := Option.map_eq_some_iff.mp hplaced
    cases hmade
    exact exists_result_day (timeClip_isSome date)
  | month y m =>
    rw [placed] at hplaced
    split at hplaced
    · rename_i hmonths
      obtain ⟨time, htime, rfl, rfl⟩ := ofDate_eq hplaced
      have hmonth := (month_of_dateUTC htime).1
      have hbound : y < 10000 := hbounded
      have hyear := @fullYear_le y 9999 (by omega) (by decide)
      exact result_month (by omega)
    · cases hplaced
  | year y =>
    rw [placed] at hplaced
    split at hplaced
    · rename_i hyears
      obtain ⟨time, htime, rfl, rfl⟩ := ofDate_eq hplaced
      have hmonth := (month_of_dateUTC htime).1
      have hyear := @fullYear_le y 2200 (by omega) (by decide)
      exact result_year (by omega)
    · cases hplaced
  | dayAt offset =>
    injection hplaced with hplaced
    injection hplaced with hstart hprecision
    subst hprecision
    have hoffset : -2 ≤ offset /\ offset ≤ 2 := hbounded
    exact result_day hreach (by omega) hstart
  | shifted n unit =>
    have hn : -999 ≤ n /\ n ≤ 999 := hbounded
    cases unit with
    | day =>
      injection hplaced with hplaced
      injection hplaced with hstart hprecision
      subst hprecision
      exact result_day hreach (by omega) hstart
    | week =>
      injection hplaced with hplaced
      injection hplaced with hstart hprecision
      subst hprecision
      exact @result_day ref hreach (n * 7) start (by omega) hstart
    | month =>
      obtain ⟨time, -, rfl, rfl⟩ := ofDate_eq hplaced
      exact exists_result_day (timeClip_isSome time)
    | year =>
      obtain ⟨time, -, rfl, rfl⟩ := ofDate_eq hplaced
      exact exists_result_day (timeClip_isSome time)
  | weekAt n =>
    injection hplaced with hplaced
    injection hplaced with hstart hprecision
    subst hprecision
    exact result_week hreach hbounded hstart
  | monthAt n =>
    obtain ⟨time, htime, rfl, rfl⟩ := ofDate_eq hplaced
    exact result_monthAt hreach hbounded.2 htime
  | yearAt n =>
    obtain ⟨time, htime, rfl, rfl⟩ := ofDate_eq hplaced
    exact result_yearAt hreach hbounded.2 htime

theorem throws_of_not_reach (hreach : ¬ WithinReach ref.day) : ∃ n start,
    (n = 999 \/ n = -999) /\ placed ref (.shifted n .week) = some ⟨some start, .day⟩ /\
      result start .day = .error "Invalid time value" := by
  rw [WithinReach] at hreach
  have hbounds := ref.day_bounds
  obtain ⟨time, htime, hms, ⟨-, hsame⟩ | ⟨hsmall, -⟩⟩ := startOfUtcDay_cases ref
  · have hplaced : ∀ n : Int, placed ref (.shifted n .week) =
        some ⟨some (time.ms + n * 7 * 86400000), .day⟩ := by
      intro n
      rw [placed, shift, htime]
      rfl
    have hthrows : ∀ n : Int,
        ¬ (-100000000 ≤ ref.day + n * 7 /\ ref.day + n * 7 ≤ 100000000) ->
        result (time.ms + n * 7 * 86400000) .day = .error "Invalid time value" := by
      intro n hout
      refine result_throws (Or.inl ?_)
      rw [timeClip, dif_neg]
      omega
    by_cases hlate : 100000000 < ref.day + 6993
    · exact ⟨999, _, .inl rfl, hplaced 999, hthrows 999 (by omega)⟩
    · exact ⟨-999, _, .inr rfl, hplaced (-999), hthrows (-999) (by omega)⟩
  · -- The years read otherwise are far from both ends.
    have hin := inMonth_monthOf ref.day
    have hlow := @monthStart_le 0 (monthOf ref.day) hsmall.1
    have hhigh := @monthStart_le (monthOf ref.day + 1) 1200 (Int.add_le_add_right hsmall.2 1)
    have hconstants : monthStart 0 = -719528 /\ monthStart 1200 = -683003 := by decide
    have hstart := hin.1
    have hend := hin.2
    omega

theorem lt_addUtcMonths {time later : TimeValue} (hn : 1 ≤ n)
    (hlater : addUtcMonths time n = some later) : time.ms < later.ms := by
  have hms := dateUTC_eq_some_iff.mp hlater
  have hmonth := time.month_eq
  have hend : time.day < monthStart (time.month + 1) := (inMonth_monthOf time.day).2
  have hle := @monthStart_le (time.month + 1)
    (12 * fullYear time.getUTCFullYear + (time.getUTCMonth + n)) (by
      obtain ⟨-, hfull⟩ | ⟨-, hfull⟩ := fullYear_cases time.getUTCFullYear <;> omega)
  rw [TimeValue.day] at hend
  omega

theorem lt_endOf {later : TimeValue} (hlater : endOf start precision = some (some later)) :
    start < later.ms := by
  cases precision with
  | week =>
    have hms := timeClip_eq_some_iff.mp (Option.some_inj.mp hlater)
    omega
  | month =>
    obtain ⟨time, htime, hadd⟩ := Option.bind_eq_some_iff.mp (Option.some_inj.mp hlater)
    rw [← timeClip_eq_some_iff.mp htime]
    exact lt_addUtcMonths (by decide) hadd
  | year =>
    obtain ⟨time, htime, hadd⟩ := Option.bind_eq_some_iff.mp (Option.some_inj.mp hlater)
    rw [← timeClip_eq_some_iff.mp htime]
    exact lt_addUtcMonths (by decide) hadd
  | day => cases hlater
  | minute => cases hlater

def IsUnit (first next : Int) : Precision -> Prop
  | .week => weekday first = 1 /\ next = first + 7
  | .month => exists month, first = monthStart month /\ next = monthStart (month + 1)
  | .year => exists year, first = monthStart (12 * year) /\ next = monthStart (12 * (year + 1))
  | .day | .minute => False

def SpansUnit (start : JsString) (finish : Option JsString) (precision : Precision) : Prop :=
  finish = none /\ (precision = .day \/ precision = .minute) \/
    ∃ (time later : TimeValue) (first next : Int), start = time.toISOString /\
      finish = some later.toISOString /\ time.ms = first * 86400000 /\
      later.ms = next * 86400000 /\ IsUnit first next precision

def EndsLater (start : JsString) (finish : Option JsString) : Prop :=
  finish = none \/ ∃ time later : TimeValue, start = time.toISOString /\
    finish = some later.toISOString /\ time.ms < later.ms

variable {event : Event}

theorem result_endsLater (hresult : result start precision = .ok event) :
    EndsLater event.eventTime event.eventTimeEnd := by
  obtain ⟨-, hthrows⟩ | ⟨time, htime, ⟨-, hopen⟩ | ⟨later, hlater, hclosed⟩⟩ :=
    result_cases start precision
  · rw [hthrows] at hresult
    cases hresult
  · rw [hopen] at hresult
    cases hresult
    exact .inl rfl
  · rw [hclosed] at hresult
    cases hresult
    refine Or.inr ⟨time, later, rfl, rfl, ?_⟩
    rw [timeClip_eq_some_iff.mp htime]
    exact lt_endOf hlater

theorem result_precision (hresult : result start precision = .ok event) :
    event.precision = precision := by
  obtain ⟨-, hthrows⟩ | ⟨time, htime, ⟨-, hopen⟩ | ⟨later, hlater, hclosed⟩⟩ :=
    result_cases start precision
  · rw [hthrows] at hresult
    cases hresult
  · rw [hopen] at hresult
    cases hresult
    rfl
  · rw [hclosed] at hresult
    cases hresult
    rfl

theorem result_spansUnit {start first next : Int} {finish : Option TimeValue}
    (hresult : result start precision = .ok event) (hstart : start = first * 86400000)
    (hend : endOf start precision = some finish)
    (hnext : ∀ later, finish = some later -> later.ms = next * 86400000)
    (hunit : IsUnit first next precision) :
    SpansUnit event.eventTime event.eventTimeEnd precision := by
  obtain ⟨-, hthrows⟩ | ⟨time, htime, ⟨hopen, -⟩ | ⟨later, hlater, hclosed⟩⟩ :=
    result_cases start precision
  · rw [hthrows] at hresult
    cases hresult
  · rw [hopen] at hend
    cases hend
  · rw [hclosed] at hresult
    cases hresult
    rw [hlater, Option.some_inj] at hend
    refine Or.inr ⟨time, later, first, next, rfl, rfl, ?_, hnext later hend.symm, hunit⟩
    rw [timeClip_eq_some_iff.mp htime, hstart]

theorem result_spansDay (hresult : result start .day = .ok event) :
    SpansUnit event.eventTime event.eventTimeEnd .day := by
  obtain ⟨-, hthrows⟩ | ⟨time, htime, ⟨-, hopen⟩ | ⟨later, hlater, -⟩⟩ := result_cases start .day
  · rw [hthrows] at hresult
    cases hresult
  · rw [hopen] at hresult
    cases hresult
    exact Or.inl ⟨rfl, .inl rfl⟩
  · cases hlater

theorem result_spansMonths (hresult : result time.ms precision = .ok event)
    (hfirst : time.ms = monthStart time.month * 86400000)
    (hyear : ¬ (0 ≤ time.month /\ time.month ≤ 1199))
    (hend : endOf time.ms precision = some (addUtcMonths time n))
    (hunit : IsUnit (monthStart time.month) (monthStart (time.month + n)) precision) :
    SpansUnit event.eventTime event.eventTimeEnd precision := by
  refine result_spansUnit hresult hfirst hend (fun later hlater => ?_) hunit
  have hday := day_of_addUtcMonths (fun hsmall => hyear ((twoDigitYear_iff time).mp hsmall)) hlater
  have hms := dateUTC_eq_some_iff.mp hlater
  have hsame := day_of_dateUTC hlater
  rw [hms, ← hday, hsame]

theorem fullYear_large (year : Int) : ¬ (0 ≤ fullYear year /\ fullYear year ≤ 99) := by
  obtain ⟨hsmall, hfull⟩ | ⟨hlarge, hfull⟩ := fullYear_cases year <;> omega

theorem monthStartUtc_spans {y m : Int} (hm : 0 ≤ m /\ m ≤ 11)
    (htime : monthStartUtc y m = some time) (hresult : result time.ms .month = .ok event) :
    SpansUnit event.eventTime event.eventTimeEnd .month := by
  obtain ⟨hmonth, hms⟩ := month_of_dateUTC htime
  have hlarge := fullYear_large y
  exact result_spansMonths hresult hms (by omega) (endOf_month time) ⟨time.month, rfl, rfl⟩

theorem yearStartUtc_spans {y : Int} (htime : yearStartUtc y = some time)
    (hresult : result time.ms .year = .ok event) :
    SpansUnit event.eventTime event.eventTimeEnd .year := by
  obtain ⟨hmonth, hms⟩ := month_of_dateUTC htime
  have hlarge := fullYear_large y
  refine result_spansMonths hresult hms (by omega) (endOf_year time) ⟨fullYear y, ?_, ?_⟩
  · rw [hmonth, Int.add_zero]
  · rw [hmonth, Int.add_zero, Int.mul_add, Int.mul_one]

/-- The references by which every expression spans its unit: not of the years read otherwise,
nor of the months next to them. -/
def ReadsYears (ref : TimeValue) : Prop := ¬ (-1 ≤ ref.month /\ ref.month ≤ 1200)

theorem weekAt_spans (hyears : ReadsYears ref) {n start : Int}
    (hstart : ((startOfUtcWeek ref).map fun time => time + n * 7 * 86400000) = some start)
    (hresult : result start .week = .ok event) :
    SpansUnit event.eventTime event.eventTimeEnd .week := by
  rw [ReadsYears] at hyears
  obtain ⟨time, htime, hms, ⟨-, hsame⟩ | ⟨hsmall, -⟩⟩ := startOfUtcDay_cases ref
  · have hweekday : ref.getUTCDay = (ref.day + 4) % 7 := rfl
    simp only [startOfUtcWeek, htime, Option.map_some, Option.some_inj] at hstart
    obtain ⟨first, hfirst, hmonday⟩ : ∃ first, start = first * 86400000 /\
        weekday first = 1 := by
      refine ⟨start / 86400000, ?_, ?_⟩
      · split at hstart <;> omega
      · rw [weekday]
        split at hstart <;> omega
    refine result_spansUnit hresult hfirst rfl (fun later hlater => ?_) ⟨hmonday, rfl⟩
    rw [timeClip_eq_some_iff.mp hlater, hfirst, Int.add_mul]
  · omega

theorem monthAt_spans {ref time : TimeValue} (hyears : ReadsYears ref) (hn : -1 ≤ n /\ n ≤ 1)
    (htime : addUtcMonths ref n = some time) (hresult : result time.ms .month = .ok event) :
    SpansUnit event.eventTime event.eventTimeEnd .month := by
  rw [ReadsYears] at hyears
  obtain ⟨hmonth, hms⟩ := month_of_dateUTC htime
  have hyear := ref.month_eq
  have htwo := twoDigitYear_iff ref
  obtain ⟨hsmall, -⟩ | ⟨-, hfull⟩ := fullYear_cases ref.getUTCFullYear
  · omega
  · exact result_spansMonths hresult hms (by omega) (endOf_month time) ⟨time.month, rfl, rfl⟩

theorem result_spans (hyears : ReadsYears ref) (hbounded : expression.Bounded)
    (hplaced : placed ref expression = some ⟨some start, precision⟩)
    (hresult : result start precision = .ok event) :
    SpansUnit event.eventTime event.eventTimeEnd precision := by
  cases expression with
  | date y m d =>
    obtain ⟨date, -, hmade⟩ := Option.map_eq_some_iff.mp hplaced
    cases hmade
    exact result_spansDay hresult
  | month y m =>
    rw [placed] at hplaced
    split at hplaced
    · rename_i hmonths
      obtain ⟨time, htime, rfl, rfl⟩ := ofDate_eq hplaced
      exact monthStartUtc_spans hmonths htime hresult
    · cases hplaced
  | year y =>
    rw [placed] at hplaced
    split at hplaced
    · obtain ⟨time, htime, rfl, rfl⟩ := ofDate_eq hplaced
      exact yearStartUtc_spans htime hresult
    · cases hplaced
  | dayAt offset =>
    injection hplaced with hplaced
    injection hplaced with hstart hprecision
    subst hprecision
    exact result_spansDay hresult
  | shifted n unit =>
    have hday : precision = .day := by
      cases unit <;> exact (congrArg Placed.precision (Option.some_inj.mp hplaced)).symm
    subst hday
    exact result_spansDay hresult
  | weekAt n =>
    injection hplaced with hplaced
    injection hplaced with hstart hprecision
    subst hprecision
    exact weekAt_spans hyears hstart hresult
  | monthAt n =>
    obtain ⟨time, htime, rfl, rfl⟩ := ofDate_eq hplaced
    exact monthAt_spans hyears hbounded htime hresult
  | yearAt n =>
    obtain ⟨time, htime, rfl, rfl⟩ := ofDate_eq hplaced
    exact yearStartUtc_spans htime hresult

theorem monthStart_centuries {month : Int} (hsmall : 0 ≤ month /\ month ≤ 1199) :
    monthStart (month + 22800) = monthStart month + 693960 \/
      monthStart (month + 22800) = monthStart month + 693961 := by
  have hyear : (month + 22800 - 2) / 12 = (month - 2) / 12 + 1900 /\
      (month + 22800 - 2) % 12 = (month - 2) % 12 := by omega
  have hbounds : -1 ≤ (month - 2) / 12 /\ (month - 2) / 12 ≤ 99 := by omega
  simp only [monthStart, hyear]
  generalize (month - 2) / 12 = year at *
  generalize (month - 2) % 12 = of at *
  omega

theorem spansUnit_closed {time later : TimeValue}
    (hspans : SpansUnit time.toISOString (some later.toISOString) precision) :
    ∃ first next, time.ms = first * 86400000 /\ later.ms = next * 86400000 /\
      IsUnit first next precision := by
  rcases hspans with ⟨hnone, -⟩ | ⟨start, finish, first, next, hstart, hfinish, hrest⟩
  · cases hnone
  · rw [toISOString_injective hstart, toISOString_injective (Option.some_inj.mp hfinish)]
    exact ⟨first, next, hrest⟩

def Misses (ref : TimeValue) (expression : Expression) : Prop :=
  ∃ start precision event, placed ref expression = some ⟨some start, precision⟩ /\
    result start precision = .ok event /\
    ¬ SpansUnit event.eventTime event.eventTimeEnd precision

theorem weekAt_misses (hsmall : 0 ≤ ref.month /\ ref.month ≤ 1199) : Misses ref (.weekAt 0) := by
  obtain ⟨time, htime, hms, ⟨hlarge, -⟩ | ⟨-, hmoved⟩⟩ := startOfUtcDay_cases ref
  · exact absurd hsmall hlarge
  have hday := ref.day_eq
  have hdate := ref.getUTCDate_pos
  have hdate' := ref.getUTCDate_le
  have hshift := monthStart_centuries hsmall
  have hweekday : ref.getUTCDay = (ref.day + 4) % 7 := rfl
  have hlow := @monthStart_le 22800 (ref.month + 22800) (by omega)
  have hhigh := @monthStart_le (ref.month + 22800) 24000 (by omega)
  have hconstants : monthStart 22800 = -25567 /\ monthStart 24000 = 10957 := by decide
  obtain ⟨first, hfirst, hmonday, hinside⟩ : ∃ first,
      ((startOfUtcWeek ref).map fun time => time + 0 * 7 * 86400000) =
        some (first * 86400000) /\ weekday first ≠ 1 /\ -100000 ≤ first /\ first ≤ 100000 := by
    simp only [startOfUtcWeek, htime, Option.map_some, Option.some_inj]
    refine ⟨time.day + if ref.getUTCDay = 0 then -6 else 1 - ref.getUTCDay, ?_, ?_, ?_⟩
    · rw [hms]
      omega
    · rw [weekday]
      split <;> omega
    · split <;> omega
  obtain ⟨start, hstart⟩ := Option.isSome_iff_exists.mp
    (@timeClip_isSome_iff (first * 86400000) |>.mpr (by omega))
  obtain ⟨later, hlater⟩ := Option.isSome_iff_exists.mp
    (@timeClip_isSome_iff (first * 86400000 + 7 * 86400000) |>.mpr (by omega))
  refine ⟨first * 86400000, .week, _, ?_, result_closed hstart (congrArg some hlater), ?_⟩
  · rw [placed, hfirst]
  · intro hspans
    obtain ⟨monday, next, hsame, -, hunit⟩ := spansUnit_closed hspans
    rw [timeClip_eq_some_iff.mp hstart] at hsame
    have hfirst : first = monday := by omega
    exact hmonday (hfirst ▸ hunit.1)

theorem monthAt_misses (hlarge : ¬ (0 ≤ ref.month /\ ref.month ≤ 1199))
    (hsmall : 0 ≤ ref.month + n /\ ref.month + n ≤ 1199) : Misses ref (.monthAt n) := by
  have hyear := ref.month_eq
  have hread : fullYear ref.getUTCFullYear = ref.getUTCFullYear :=
    if_neg fun htwo => hlarge ((twoDigitYear_iff ref).mp htwo)
  have hadd : 12 * fullYear ref.getUTCFullYear + (ref.getUTCMonth + n) = ref.month + n := by omega
  have hlow := @monthStart_le 0 (ref.month + n) hsmall.1
  have hhigh := @monthStart_le (ref.month + n) 1199 hsmall.2
  have hconstants : monthStart 0 = -719528 /\ monthStart 1199 = -683034 := by decide
  obtain ⟨time, htime⟩ := exists_dateUTC_iff.mpr
    (show -100000000 ≤ monthStart (12 * fullYear ref.getUTCFullYear + (ref.getUTCMonth + n)) +
        1 - 1 /\ monthStart (12 * fullYear ref.getUTCFullYear + (ref.getUTCMonth + n)) + 1 - 1 ≤
          100000000 by
      rw [hadd]
      omega)
  obtain ⟨hmonth, hms⟩ := month_of_dateUTC htime
  rw [hadd] at hmonth
  have htwo : 0 ≤ time.getUTCFullYear /\ time.getUTCFullYear ≤ 99 :=
    (twoDigitYear_iff time).mpr (hmonth.symm ▸ hsmall)
  have hnext := @monthStart_le (time.month + 1) 1200 (by omega)
  have hnext' : monthStart 1200 = -683003 := by decide
  obtain ⟨later, hlater⟩ := (@exists_addUtcMonths_iff time 1 (by decide)).mpr (by omega)
  have hend : endOf time.ms .month = some (some later) := by rw [endOf_month, hlater]
  refine ⟨time.ms, .month, _, ?_, result_closed (timeClip_ms time) hend, ?_⟩
  · rw [placed, addUtcMonths_eq, htime]
    rfl
  · intro hspans
    obtain ⟨first, next, hstart, hfinish, month, hfirst, hlast⟩ := spansUnit_closed hspans
    have hsame : month = time.month := by
      have hday : time.day = first := day_of_ms hstart
      rw [TimeValue.month, hday, hfirst, monthOf_monthStart]
    have hms' := dateUTC_eq_some_iff.mp hlater
    have hfull : fullYear time.getUTCFullYear = 1900 + time.getUTCFullYear := if_pos htwo
    have hof := time.month_eq
    have hfar := @monthStart_le 1201 (12 * fullYear time.getUTCFullYear + (time.getUTCMonth + 1))
      (by omega)
    have hlt := @monthStart_lt (time.month + 1) 1201 (by omega)
    rw [hsame] at hlast
    omega

theorem exists_misses (hyears : ¬ ReadsYears ref) :
    Misses ref (.weekAt 0) \/ Misses ref (.monthAt 1) \/ Misses ref (.monthAt (-1)) := by
  have hyears := not_not.mp hyears
  by_cases hsmall : 0 ≤ ref.month /\ ref.month ≤ 1199
  · exact .inl (weekAt_misses hsmall)
  · by_cases hearly : ref.month < 0
    · exact .inr (.inl (monthAt_misses hsmall (by omega)))
    · exact .inr (.inr (monthAt_misses hsmall (by omega)))

end AnchorMind.Write.EventRanges
