import AnchorMind.Write.EventRanges

/-!
# The times of a fragment

A write gives the time something was said, and the event's start and end, or leaves the
event to its text.  What cannot be read is dropped with a warning.  `toISOString` throws
where a computed time is beyond what a `Date` holds.
-/

namespace AnchorMind.Write.WorldTimes

open Kernel.Backtracking Kernel.Backtracking.Matcher Dates.TimeValues
  Text.JsonText EventExpressions EventTimes EventRanges

/-- `^(\d{4})$` -/
def explicitYear : Pattern Nat := do
  atStart
  let year <- digits 4 4
  atEnd
  pure year

/-- `^(\d{4})-(\d{1,2})$` -/
def explicitMonth : Pattern (Nat × Int) := do
  atStart
  let year <- digits 4 4
  word "-"
  let month <- digits 1 2
  atEnd
  pure (year, month - 1)

/-- `^(\d{4})-(\d{1,2})-(\d{1,2})$` -/
def explicitDate : Pattern (Nat × Int × Nat) := do
  atStart
  let year <- digits 4 4
  word "-"
  let month <- digits 1 2
  word "-"
  let date <- digits 1 2
  atEnd
  pure (year, month - 1, date)

/-- `^\d{4}-\d{1,2}-\d{1,2}[T\s]\d{1,2}:\d{2}` -/
def explicitTime : Pattern PUnit := do
  atStart
  let _ <- digits 4 4
  word "-"
  let _ <- digits 1 2
  word "-"
  let _ <- digits 1 2
  let _ <- symbol fun unit => isOneOf "T" unit || isSpace unit
  let _ <- digits 1 2
  word ":"
  let _ <- digits 2 2
  pure ⟨⟩

/-- The result that starts on a date; a `Date` that holds no time throws. -/
def resultAt (date : Option TimeValue) (precision : Precision) :
    Except String (Option Event) :=
  match date with
  | some date => (result date.ms precision).map some
  | none => .error "Invalid time value"

def parseExplicitEventTime (reader : DateReader) (raw : JsString) (ref : TimeValue) :
    Except String (Option Event) :=
  let s := trim raw
  match explicitYear.first s with
  | some y => if 1900 ≤ y ∧ y ≤ 2200 then resultAt (yearStartUtc y) .year else .ok none
  | none =>
    match explicitMonth.first s with
    | some (y, m) => if 0 ≤ m ∧ m ≤ 11 then resultAt (monthStartUtc y m) .month else .ok none
    | none =>
      match explicitDate.first s with
      | some (y, m, d) => (utcDate y m d).elim (.ok none) fun date => resultAt (some date) .day
      | none =>
        if (explicitTime.first s).isSome then
          match reader.read s with
          | some time => .ok (some ⟨time.toISOString, none, .minute⟩)
          | none => .ok none
        else
          match collect s ref with
          | [] => .ok none
          | hit :: _ => (result hit.start hit.precision).map some

inductive Argument where
  | undefined
  | null
  | text (value : JsString)
  | other
  deriving DecidableEq

structure Params where
  mentionTime : Argument
  eventTime : Argument
  eventTimeEnd : Argument

inductive Warning where
  | mentionTimeInvalid
  | eventTimeInvalid
  | eventTimeEndInvalid
  deriving DecidableEq

structure EventFields where
  eventTime : Option JsString
  eventTimeEnd : Option JsString
  precision : Option Precision

structure Resolved where
  mentionTime : Option JsString
  event : EventFields
  warnings : List Warning

def isGiven : Argument -> Bool
  | .undefined | .null => false
  | .text value => value ≠ []
  | .other => true

/-- The time of `new Date(value)`, for a text. -/
def timeOf (reader : DateReader) : Argument -> Option TimeValue
  | .text value => reader.read value
  | _ => none

def parseMentionTime (reader : DateReader) (value : Argument) : Option JsString × List Warning :=
  if isGiven value then
    match timeOf reader value with
    | some time => (some time.toISOString, [])
    | none => (none, [.mentionTimeInvalid])
  else (none, [])

def resolveEvent (reader : DateReader) (value : Argument) (content : JsString) (ref : TimeValue)
    (extract : Bool) : Except String (Option Event × List Warning) :=
  if isGiven value then do
    let event <- match value with
      | .text raw => parseExplicitEventTime reader raw ref
      | _ => .ok none
    pure (event, if event.isSome then [] else [.eventTimeInvalid])
  else if extract then do
    let event <- extractEventTime content ref
    pure (event, [])
  else .ok (none, [])

def validEnd (reader : DateReader) (value : Argument) (eventTime : Option JsString) :
    Option JsString :=
  match timeOf reader value, eventTime.bind reader.read with
  | some finish, some start => if start.ms < finish.ms then some finish.toISOString else none
  | _, _ => none

def refMs (reader : DateReader) (mention : Option JsString) (now : TimeValue) : TimeValue :=
  match mention with
  | some text => (reader.read text).getD now
  | none => now

def eventFields : Option Event -> EventFields
  | some event => ⟨some event.eventTime, event.eventTimeEnd, some event.precision⟩
  | none => ⟨none, none, none⟩

def withEnd (reader : DateReader) (value : Argument) (resolved : Resolved) : Resolved :=
  if isGiven value then
    match validEnd reader value resolved.event.eventTime with
    | some finish => { resolved with event := { resolved.event with eventTimeEnd := some finish } }
    | none => { resolved with warnings := resolved.warnings ++ [.eventTimeEndInvalid] }
  else resolved

def resolveWorldTime (reader : DateReader) (params : Params) (content : JsString)
    (extract : Bool) (now : TimeValue) : Except String Resolved := do
  let (mention, warnings) := parseMentionTime reader params.mentionTime
  let (event, eventWarnings) <-
    resolveEvent reader params.eventTime content (refMs reader mention now) extract
  pure (withEnd reader params.eventTimeEnd
    ⟨mention, eventFields event, warnings ++ eventWarnings⟩)

structure Changes where
  mentionTime : Option JsString
  event : Option EventFields
  warnings : List Warning

def amendWorldTime (reader : DateReader) (params : Params) (now : TimeValue) :
    Except String Changes :=
  if params.mentionTime = .undefined ∧ params.eventTime = .undefined ∧
      params.eventTimeEnd = .undefined then .ok ⟨none, none, []⟩
  else do
    let resolved <- resolveWorldTime reader params [] false now
    pure ⟨resolved.mentionTime,
      if resolved.event.eventTime.isSome then some resolved.event else none, resolved.warnings⟩

/-- What reading or extracting an event can come to: nothing, a time to the minute, a year, a
month or a date that is written out, or an expression placed by the reference. -/
inductive Outcome (ref : TimeValue) : Except String (Option Event) -> Prop where
  | nothing : Outcome ref (.ok none)
  | minute (time : TimeValue) : Outcome ref (.ok (some ⟨time.toISOString, none, .minute⟩))
  | year (y : Nat) (hyears : 1900 ≤ y /\ y ≤ 2200) :
      Outcome ref (resultAt (yearStartUtc y) .year)
  | month (y : Nat) (m : Int) (hyear : y < 10000) (hmonths : 0 ≤ m /\ m ≤ 11) :
      Outcome ref (resultAt (monthStartUtc y m) .month)
  | date (date : TimeValue) : Outcome ref (resultAt (some date) .day)
  | expression {text : JsString} {start : Int} {precision : Precision}
      (hplaced : PlacedAt text ref start precision) :
      Outcome ref ((result start precision).map some)

theorem extractEventTime_outcome (content : JsString) (ref : TimeValue) :
    Outcome ref (extractEventTime content ref) := by
  rcases extractEventTime_cases content ref with hnone | ⟨start, precision, hplaced, hresult⟩
  · rw [hnone]
    exact .nothing
  · rw [hresult]
    exact .expression hplaced

theorem explicitMonth_year {s : JsString} {y : Nat} {m : Int}
    (hmonth : explicitMonth.first s = some (y, m)) : y < 10000 := by
  have hyields : Yields explicitMonth fun read => read.1 < 10000 :=
    Yields.next fun _ => (digits_yields (Nat.le_refl 4)).bind fun year hyear =>
      Yields.next fun _ => Yields.next fun _ => Yields.next fun _ => Yields.pure hyear
  exact hyields.first hmonth

theorem parseExplicitEventTime_outcome (reader : DateReader) (raw : JsString) (ref : TimeValue) :
    Outcome ref (parseExplicitEventTime reader raw ref) := by
  rw [parseExplicitEventTime]
  split
  · split
    · rename_i hyears
      exact .year _ hyears
    · exact .nothing
  split
  · rename_i hmonth
    split
    · rename_i hmonths
      exact .month _ _ (explicitMonth_year hmonth) hmonths
    · exact .nothing
  split
  · rename_i y m d hdate
    cases utcDate y m d with
    | none => exact .nothing
    | some date => exact .date date
  split
  · split
    · exact .minute _
    · exact .nothing
  · split
    · exact .nothing
    · rename_i hit rest hhits
      exact .expression (placedAt_of_mem (hhits ▸ List.mem_cons_self))

theorem resolveEvent_outcome (reader : DateReader) (value : Argument) (content : JsString)
    (ref : TimeValue) (extract : Bool) :
    ∃ (outcome : Except String (Option Event)) (warnings : Option Event -> List Warning),
      Outcome ref outcome /\
      resolveEvent reader value content ref extract =
        outcome.map fun event => (event, warnings event) := by
  rw [resolveEvent]
  split
  · cases value with
    | text raw => exact ⟨_, _, parseExplicitEventTime_outcome reader raw ref, rfl⟩
    | _ => exact ⟨_, fun _ => [.eventTimeInvalid], .nothing, rfl⟩
  · split
    · exact ⟨_, fun _ => [], extractEventTime_outcome content ref, rfl⟩
    · exact ⟨_, fun _ => [], .nothing, rfl⟩

def reference (reader : DateReader) (mention : Argument) (now : TimeValue) : TimeValue :=
  refMs reader (parseMentionTime reader mention).1 now

theorem resolveWorldTime_outcome (reader : DateReader) (params : Params) (content : JsString)
    (extract : Bool) (now : TimeValue) :
    ∃ (outcome : Except String (Option Event)) (mention : Option JsString)
        (warnings : Option Event -> List Warning),
      Outcome (reference reader params.mentionTime now) outcome /\
      resolveWorldTime reader params content extract now = outcome.map fun event =>
        withEnd reader params.eventTimeEnd ⟨mention, eventFields event, warnings event⟩ := by
  obtain ⟨outcome, warnings, houtcome, hevent⟩ := resolveEvent_outcome reader params.eventTime
    content (reference reader params.mentionTime now) extract
  refine ⟨outcome, (parseMentionTime reader params.mentionTime).1,
    fun event => (parseMentionTime reader params.mentionTime).2 ++ warnings event, houtcome, ?_⟩
  change (resolveEvent reader params.eventTime content
    (reference reader params.mentionTime now) extract).bind _ = _
  rw [hevent]
  cases outcome with
  | error message => rfl
  | ok event => rfl

theorem resolveWorldTime_extract (reader : DateReader) (mention : Argument) (content : JsString)
    (now : TimeValue) : ∃ (said : Option JsString) (warnings : List Warning),
      resolveWorldTime reader ⟨mention, .undefined, .undefined⟩ content true now =
        (extractEventTime content (reference reader mention now)).map fun event =>
          ⟨said, eventFields event, warnings⟩ := by
  refine ⟨(parseMentionTime reader mention).1, (parseMentionTime reader mention).2 ++ [], ?_⟩
  change ((extractEventTime content (reference reader mention now)).bind _).bind _ = _
  cases extractEventTime content (reference reader mention now) with
  | error message => rfl
  | ok event => rfl

variable {outcome : Except String (Option Event)} {ref : TimeValue}

theorem Outcome.returns (hreach : WithinReach ref.day) (houtcome : Outcome ref outcome) :
    ∃ event, outcome = .ok event := by
  have hmap : ∀ {result : Except String Event}, (∃ event, result = .ok event) ->
      ∃ event, result.map some = .ok event := by
    rintro _ ⟨event, rfl⟩
    exact ⟨some event, rfl⟩
  cases houtcome with
  | nothing => exact ⟨_, rfl⟩
  | minute time => exact ⟨_, rfl⟩
  | year y hyears =>
    obtain ⟨time, htime, hmonth⟩ := @exists_writtenMonth y 0 (by omega) (by decide)
    have hyear := @fullYear_le y 2200 (by omega) (by decide)
    change ∃ event, resultAt (dateUTC y 0 1) .year = .ok event
    rw [htime]
    exact hmap (result_year (by omega))
  | month y m hyear hmonths =>
    obtain ⟨time, htime, hmonth⟩ := @exists_writtenMonth y m (by omega) hmonths
    have hyear := @fullYear_le y 9999 (by omega) (by decide)
    change ∃ event, resultAt (dateUTC y m 1) .month = .ok event
    rw [htime]
    exact hmap (result_month (by omega))
  | date date => exact hmap (exists_result_day (timeClip_isSome date))
  | expression hplaced =>
    obtain ⟨found, hfound, hplace⟩ := hplaced
    exact hmap (result_of_reach hreach (expressions_bounded hfound) hplace)

variable {reader : DateReader} {now : TimeValue}

theorem resolveWorldTime_returns {params : Params}
    (hreach : WithinReach (reference reader params.mentionTime now).day) (content : JsString)
    (extract : Bool) :
    ∃ resolved, resolveWorldTime reader params content extract now = .ok resolved := by
  obtain ⟨outcome, mention, warnings, houtcome, hresolve⟩ :=
    resolveWorldTime_outcome reader params content extract now
  obtain ⟨event, rfl⟩ := houtcome.returns hreach
  exact ⟨_, hresolve⟩

theorem amendWorldTime_returns {params : Params}
    (hreach : WithinReach (reference reader params.mentionTime now).day) :
    ∃ changes, amendWorldTime reader params now = .ok changes := by
  rw [amendWorldTime]
  split
  · exact ⟨_, rfl⟩
  · obtain ⟨resolved, hresolve⟩ := resolveWorldTime_returns hreach [] false
    rw [hresolve]
    exact ⟨_, rfl⟩

theorem expressions_weeks : ∀ n : Int, n = 999 \/ n = -999 ->
    ∃ (content : JsString) (found : Match Expression),
      expressions (content.take scanLimit) = [found] /\ found.value = .shifted n .week := by
  have hlater : expressions ((ofString "999주 후").take scanLimit) =
      [⟨0, 6, .shifted 999 .week⟩] := by decide +kernel
  have hearlier : expressions ((ofString "999주 전").take scanLimit) =
      [⟨0, 6, .shifted (-999) .week⟩] := by decide +kernel
  rintro n (rfl | rfl)
  · exact ⟨ofString "999주 후", ⟨0, 6, .shifted 999 .week⟩, hlater, rfl⟩
  · exact ⟨ofString "999주 전", ⟨0, 6, .shifted (-999) .week⟩, hearlier, rfl⟩

/-- The calls by a reference return, whatever else they are given, exactly when the reference is
999 weeks from both ends of what a `Date` holds. -/
theorem world_times_return_iff (reader : DateReader) (mention : Argument) (now : TimeValue) :
    ((∀ content eventTime eventTimeEnd extract, ∃ resolved, resolveWorldTime reader
          ⟨mention, eventTime, eventTimeEnd⟩ content extract now = .ok resolved) /\
        ∀ eventTime eventTimeEnd, ∃ changes, amendWorldTime reader
          ⟨mention, eventTime, eventTimeEnd⟩ now = .ok changes) <->
      WithinReach (reference reader mention now).day := by
  constructor
  · rintro ⟨hresolve, -⟩
    by_contra hreach
    obtain ⟨n, start, hn, hplaced, hthrows⟩ := throws_of_not_reach hreach
    obtain ⟨content, found, hsingle, hvalue⟩ := expressions_weeks n hn
    obtain ⟨resolved, hresolved⟩ := hresolve content .undefined .undefined true
    obtain ⟨said, warnings, hextract⟩ := resolveWorldTime_extract reader mention content now
    have hhit : hitOf (reference reader mention now) found =
        some ⟨found.index, found.length, start, .day⟩ := by
      rw [hitOf, hvalue, hplaced]
      rfl
    rw [hextract, extractEventTime_single hsingle, hhit, Option.elim_some, hthrows] at hresolved
    cases hresolved
  · intro hreach
    refine ⟨fun content eventTime eventTimeEnd extract => ?_, fun eventTime eventTimeEnd => ?_⟩
    · exact resolveWorldTime_returns hreach content extract
    · exact amendWorldTime_returns hreach

theorem reference_text {value : JsString} {time : TimeValue} (hvalue : value ≠ [])
    (hread : reader.read value = some time) (now : TimeValue) :
    reference reader (.text value) now = time := by
  have hgiven : isGiven (.text value) = true := decide_eq_true hvalue
  rw [reference, parseMentionTime, if_pos hgiven, timeOf, hread, refMs, reader.read_toISOString,
    Option.getD_some]

theorem reference_isoReader (time now : TimeValue) :
    reference isoReader (.text time.toISOString) now = time := by
  refine reference_text (fun hempty => ?_) (isoReader.read_toISOString time) now
  have hread := isoReader.read_toISOString time
  have hnone : (isoReader.read []).isNone = true := by decide +kernel
  rw [hempty] at hread
  rw [hread] at hnone
  cases hnone

/-- +275760-09-13, the last time a `Date` holds -/
def lastTime : TimeValue := ⟨8640000000000000, by decide⟩

/-- No text of the day after the last is given out. -/
theorem tomorrow_throws :
    resolveWorldTime isoReader ⟨.text lastTime.toISOString, .undefined, .undefined⟩
      (ofString "내일") true lastTime = .error "Invalid time value" := by
  have hsingle : expressions ((ofString "내일").take scanLimit) = [⟨0, 2, .dayAt 1⟩] := by
    decide +kernel
  obtain ⟨said, warnings, hextract⟩ := resolveWorldTime_extract isoReader
    (.text lastTime.toISOString) (ofString "내일") lastTime
  have hplaced : placed lastTime (.dayAt 1) = some ⟨some (8640000000000000 + 86400000), .day⟩ := by
    obtain ⟨start, hstart, hms, ⟨-, hsame⟩ | ⟨hsmall, -⟩⟩ := startOfUtcDay_cases lastTime
    · have hlast : lastTime.day = 100000000 := by decide
      rw [placed, hstart, Option.map_some, hms, hsame, hlast]
      rfl
    · exact absurd hsmall.2 (by decide +kernel)
  have hhit : hitOf lastTime ⟨0, 2, .dayAt 1⟩ =
      some ⟨0, 2, 8640000000000000 + 86400000, .day⟩ := by
    rw [hitOf, hplaced]
    rfl
  have hthrows : result (8640000000000000 + 86400000) .day = .error "Invalid time value" :=
    result_throws (.inl rfl)
  rw [hextract, reference_isoReader, extractEventTime_single hsingle, hhit, Option.elim_some,
    hthrows]
  rfl

def EventFields.EndsLater (fields : EventFields) : Prop :=
  match fields.eventTime with
  | some start => EventRanges.EndsLater start fields.eventTimeEnd
  | none => fields.eventTimeEnd = none

def EventFields.SpansUnit (fields : EventFields) : Prop :=
  match fields.eventTime, fields.precision with
  | some start, some precision => EventRanges.SpansUnit start fields.eventTimeEnd precision
  | _, _ => fields.eventTimeEnd = none

def WellTimed (reader : DateReader) (given : Argument) (fields : EventFields) : Prop :=
  fields.EndsLater /\
    ((isGiven given = true -> validEnd reader given fields.eventTime = none) -> fields.SpansUnit)

theorem resultAt_ok {date : Option TimeValue} {precision : Precision} {event : Event}
    (hok : resultAt date precision = .ok (some event)) :
    ∃ time, date = some time /\ result time.ms precision = .ok event := by
  cases date with
  | none => cases hok
  | some time =>
    refine ⟨time, rfl, ?_⟩
    change (result time.ms precision).map some = .ok (some event) at hok
    cases hresult : result time.ms precision with
    | error message =>
      rw [hresult] at hok
      cases hok
    | ok other =>
      rw [hresult] at hok
      cases hok
      rfl

theorem map_ok {outcome : Except String Event} {event : Event}
    (hok : outcome.map some = .ok (some event)) : outcome = .ok event := by
  cases outcome with
  | error message => cases hok
  | ok other =>
    cases hok
    rfl

theorem Outcome.event {event : Event} (houtcome : Outcome ref outcome)
    (hok : outcome = .ok (some event)) :
    (∃ time : TimeValue, event = ⟨time.toISOString, none, .minute⟩) \/
      ∃ start precision, result start precision = .ok event := by
  cases houtcome with
  | nothing => cases hok
  | minute time =>
    cases hok
    exact Or.inl ⟨time, rfl⟩
  | year y hyears =>
    obtain ⟨time, -, hresult⟩ := resultAt_ok hok
    exact Or.inr ⟨_, _, hresult⟩
  | month y m hyear hmonths =>
    obtain ⟨time, -, hresult⟩ := resultAt_ok hok
    exact Or.inr ⟨_, _, hresult⟩
  | date date =>
    obtain ⟨time, -, hresult⟩ := resultAt_ok hok
    exact Or.inr ⟨_, _, hresult⟩
  | expression hplaced => exact Or.inr ⟨_, _, map_ok hok⟩

theorem Outcome.endsLater {event : Event} (houtcome : Outcome ref outcome)
    (hok : outcome = .ok (some event)) :
    EventRanges.EndsLater event.eventTime event.eventTimeEnd := by
  rcases houtcome.event hok with ⟨time, rfl⟩ | ⟨start, precision, hresult⟩
  · exact .inl rfl
  · exact result_endsLater hresult

theorem Outcome.isTime {event : Event} (houtcome : Outcome ref outcome)
    (hok : outcome = .ok (some event)) :
    ∃ time : TimeValue, event.eventTime = time.toISOString := by
  rcases houtcome.event hok with ⟨time, rfl⟩ | ⟨start, precision, hresult⟩
  · exact ⟨time, rfl⟩
  · obtain ⟨-, hthrows⟩ | ⟨time, -, ⟨-, hopen⟩ | ⟨later, -, hclosed⟩⟩ :=
      result_cases start precision
    · rw [hthrows] at hresult
      cases hresult
    · rw [hopen] at hresult
      cases hresult
      exact ⟨time, rfl⟩
    · rw [hclosed] at hresult
      cases hresult
      exact ⟨time, rfl⟩

theorem Outcome.spansUnit (hyears : ReadsYears ref) {event : Event} (houtcome : Outcome ref outcome)
    (hok : outcome = .ok (some event)) :
    EventRanges.SpansUnit event.eventTime event.eventTimeEnd event.precision := by
  cases houtcome with
  | nothing => cases hok
  | minute time =>
    cases hok
    exact Or.inl ⟨rfl, .inr rfl⟩
  | year y _ =>
    obtain ⟨time, htime, hresult⟩ := resultAt_ok hok
    rw [result_precision hresult]
    exact yearStartUtc_spans htime hresult
  | month y m _ hmonths =>
    obtain ⟨time, htime, hresult⟩ := resultAt_ok hok
    rw [result_precision hresult]
    exact monthStartUtc_spans hmonths htime hresult
  | date date =>
    obtain ⟨time, htime, hresult⟩ := resultAt_ok hok
    rw [result_precision hresult]
    exact result_spansDay hresult
  | expression hplaced =>
    obtain ⟨found, hfound, hplace⟩ := hplaced
    have hresult := map_ok hok
    rw [result_precision hresult]
    exact result_spans hyears (expressions_bounded hfound) hplace hresult

theorem withEnd_cases (reader : DateReader) (given : Argument) (resolved : Resolved) :
    (isGiven given = true /\ ∃ finish,
        validEnd reader given resolved.event.eventTime = some finish /\
        (withEnd reader given resolved).event =
          { resolved.event with eventTimeEnd := some finish }) \/
      (withEnd reader given resolved).event = resolved.event := by
  rw [withEnd]
  split
  · rename_i hgiven
    split
    · rename_i finish hvalid
      exact Or.inl ⟨hgiven, finish, hvalid, rfl⟩
    · exact .inr rfl
  · exact .inr rfl

theorem validEnd_later {given : Argument} {time : TimeValue} {finish : JsString}
    (hvalid : validEnd reader given (some time.toISOString) = some finish) :
    EventRanges.EndsLater time.toISOString (some finish) := by
  rw [validEnd, Option.bind_some, reader.read_toISOString] at hvalid
  split at hvalid
  · rename_i later start hlater hstart
    cases hstart
    split at hvalid
    · rename_i hlt
      cases hvalid
      exact Or.inr ⟨time, later, rfl, rfl, hlt⟩
    · cases hvalid
  · cases hvalid

variable {event : Option Event}

theorem withEnd_endsLater (houtcome : Outcome ref outcome) (hok : outcome = .ok event)
    (given : Argument) (mention : Option JsString) (warnings : List Warning) :
    (withEnd reader given ⟨mention, eventFields event, warnings⟩).event.EndsLater := by
  obtain ⟨-, finish, hvalid, hfields⟩ | hfields :=
    withEnd_cases reader given ⟨mention, eventFields event, warnings⟩
  · rw [hfields]
    cases event with
    | none =>
      rw [validEnd] at hvalid
      split at hvalid
      · rename_i hnone
        cases hnone
      · cases hvalid
    | some event =>
      obtain ⟨time, htime⟩ := houtcome.isTime hok
      change validEnd reader given (some event.eventTime) = some finish at hvalid
      change EventRanges.EndsLater event.eventTime (some finish)
      rw [htime] at hvalid
      rw [htime]
      exact validEnd_later hvalid
  · rw [hfields]
    cases event with
    | none => rfl
    | some event => exact houtcome.endsLater hok

variable {fields : EventFields}

theorem withEnd_spansUnit (hyears : ReadsYears ref) (houtcome : Outcome ref outcome)
    (hok : outcome = .ok event) {given : Argument} {mention : Option JsString}
    {warnings : List Warning}
    (hfields : (withEnd reader given ⟨mention, eventFields event, warnings⟩).event = fields)
    (hderived : isGiven given = true -> validEnd reader given fields.eventTime = none) :
    fields.SpansUnit := by
  obtain ⟨hgiven, finish, hvalid, htaken⟩ | hkept :=
    withEnd_cases reader given ⟨mention, eventFields event, warnings⟩
  · have hnone := hderived hgiven
    rw [← hfields, htaken] at hnone
    rw [hnone] at hvalid
    cases hvalid
  · rw [← hfields, hkept]
    cases event with
    | none => rfl
    | some event => exact houtcome.spansUnit hyears hok

theorem resolveWorldTime_wellTimed (params : Params) {content : JsString} {extract : Bool}
    {resolved : Resolved} (hyears : ReadsYears (reference reader params.mentionTime now))
    (hok : resolveWorldTime reader params content extract now = .ok resolved) :
    WellTimed reader params.eventTimeEnd resolved.event := by
  obtain ⟨outcome, mention, warnings, houtcome, hresolve⟩ :=
    resolveWorldTime_outcome reader params content extract now
  rw [hresolve] at hok
  cases outcome with
  | error message => cases hok
  | ok event =>
    cases hok
    exact ⟨withEnd_endsLater houtcome rfl _ _ _, withEnd_spansUnit hyears houtcome rfl rfl⟩

theorem amendWorldTime_wellTimed (params : Params) {changes : Changes}
    (hyears : ReadsYears (reference reader params.mentionTime now))
    (hok : amendWorldTime reader params now = .ok changes) (hevent : changes.event = some fields) :
    WellTimed reader params.eventTimeEnd fields := by
  rw [amendWorldTime] at hok
  split at hok
  · cases hok
    cases hevent
  · cases hresolve : resolveWorldTime reader params [] false now with
    | error message =>
      rw [hresolve] at hok
      cases hok
    | ok resolved =>
      rw [hresolve] at hok
      cases hok
      change (if resolved.event.eventTime.isSome then some resolved.event else none) =
        some fields at hevent
      split at hevent
      · cases hevent
        exact resolveWorldTime_wellTimed params hyears hresolve
      · cases hevent

theorem not_wellTimed_of_misses {mention : Argument} {content : JsString} {found : Match Expression}
    (hsingle : expressions (content.take scanLimit) = [found])
    (hmisses : Misses (reference reader mention now) found.value) : ∃ resolved,
      resolveWorldTime reader ⟨mention, .undefined, .undefined⟩ content true now = .ok resolved /\
        ¬ WellTimed reader .undefined resolved.event := by
  obtain ⟨start, precision, event, hplaced, hresult, hmissed⟩ := hmisses
  obtain ⟨said, warnings, hextract⟩ := resolveWorldTime_extract reader mention content now
  have hhit : hitOf (reference reader mention now) found =
      some ⟨found.index, found.length, start, precision⟩ := by
    rw [hitOf, hplaced]
    rfl
  refine ⟨⟨said, eventFields (some event), warnings⟩, ?_, ?_⟩
  · rw [hextract, extractEventTime_single hsingle, hhit, Option.elim_some, hresult]
    rfl
  · rintro ⟨-, hspans⟩
    have hspans := hspans fun heq => by cases heq
    change EventRanges.SpansUnit event.eventTime event.eventTimeEnd event.precision at hspans
    rw [result_precision hresult] at hspans
    exact hmissed hspans

/-- The fields of every call by a reference are well timed exactly when the reference is neither
of the years 0 to 99 nor of the month before them or the month after. -/
theorem world_times_wellTimed_iff (reader : DateReader) (mention : Argument) (now : TimeValue) :
    ((∀ content eventTime eventTimeEnd extract resolved, resolveWorldTime reader
          ⟨mention, eventTime, eventTimeEnd⟩ content extract now = .ok resolved ->
        WellTimed reader eventTimeEnd resolved.event) /\
      ∀ eventTime eventTimeEnd changes fields, amendWorldTime reader
          ⟨mention, eventTime, eventTimeEnd⟩ now = .ok changes ->
        changes.event = some fields -> WellTimed reader eventTimeEnd fields) <->
      ReadsYears (reference reader mention now) := by
  constructor
  · rintro ⟨hresolve, -⟩
    by_contra hyears
    have hweek : expressions ((ofString "이번 주").take scanLimit) =
        [⟨0, 4, .weekAt 0⟩] := by decide +kernel
    have hnext : expressions ((ofString "다음 달").take scanLimit) =
        [⟨0, 4, .monthAt 1⟩] := by decide +kernel
    have hlast : expressions ((ofString "지난달").take scanLimit) =
        [⟨0, 3, .monthAt (-1)⟩] := by decide +kernel
    rcases exists_misses hyears with hmisses | hmisses | hmisses
    · obtain ⟨resolved, hok, hnot⟩ := not_wellTimed_of_misses hweek hmisses
      exact hnot (hresolve _ _ _ _ resolved hok)
    · obtain ⟨resolved, hok, hnot⟩ := not_wellTimed_of_misses hnext hmisses
      exact hnot (hresolve _ _ _ _ resolved hok)
    · obtain ⟨resolved, hok, hnot⟩ := not_wellTimed_of_misses hlast hmisses
      exact hnot (hresolve _ _ _ _ resolved hok)
  · intro hyears
    constructor
    · intro content eventTime eventTimeEnd extract resolved hok
      exact resolveWorldTime_wellTimed ⟨mention, eventTime, eventTimeEnd⟩ hyears hok
    · intro eventTime eventTimeEnd changes fields hok hevent
      exact amendWorldTime_wellTimed ⟨mention, eventTime, eventTimeEnd⟩ hyears hok hevent

/-- 0100-01-15 -/
def januaryOf100 : TimeValue := ⟨-682989 * 86400000, by decide⟩

/-- The month before January of the year 100 ends in the twentieth century. -/
theorem lastMonth_misses : ∃ resolved, resolveWorldTime isoReader
      ⟨.text januaryOf100.toISOString, .undefined, .undefined⟩ (ofString "지난달") true
        januaryOf100 = .ok resolved /\
    ¬ WellTimed isoReader .undefined resolved.event := by
  have hlast : expressions ((ofString "지난달").take scanLimit) =
      [⟨0, 3, .monthAt (-1)⟩] := by decide +kernel
  refine not_wellTimed_of_misses hlast ?_
  rw [reference_isoReader]
  exact monthAt_misses (by decide +kernel) (by decide +kernel)

end AnchorMind.Write.WorldTimes
