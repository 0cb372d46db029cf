import AnchorMind.Kernel.Elapsing

/-!
# The sliding-window rate limiter

Hits of a key are kept in the order they came.  Old ones are dropped from the
front when the key is asked for admission and when the limiter is cleaned up,
and only skipped when it is peeked at.  Under a clock that never goes back the
limiter answers as a log of all admitted calls would.
-/

namespace AnchorMind.Limits.RateLimiter

open Kernel.SlidingLog List

structure Options where
  windowMs : Int := 60000
  maxRequests : Nat := 120

abbrev Buckets (Key : Type*) := Key -> Option (List Int)

def noBuckets {Key : Type*} : Buckets Key := fun _ => none

def shiftOld (cutoff : Int) (hits : List Int) : List Int := hits.dropWhile fun t => t ≤ cutoff

section

variable {Key : Type*} [DecidableEq Key] (options : Options)

def allow (now : Int) (key : Key) (buckets : Buckets Key) : Bool × Buckets Key :=
  let cutoff := now - options.windowMs
  let hits := shiftOld cutoff ((buckets key).getD [])
  if options.maxRequests ≤ hits.length then (false, Function.update buckets key (some hits))
  else (true, Function.update buckets key (some (hits ++ [now])))

def peek (now : Int) (key : Key) (buckets : Buckets Key) : Bool :=
  match buckets key with
  | none => true
  | some hits =>
    let cutoff := now - options.windowMs
    decide (hits.countP (fun t => cutoff < t) < options.maxRequests)

def cleanup (now : Int) (buckets : Buckets Key) : Buckets Key := fun key =>
  match buckets key with
  | none => none
  | some hits =>
    let live := shiftOld (now - options.windowMs) hits
    if live.length = 0 then none else some live

inductive Call (Key : Type*) where
  | allow (key : Key)
  | peek (key : Key)
  | cleanup
  deriving DecidableEq

structure Event (Key : Type*) where
  time : Int
  call : Call Key
  answer : Option Bool

def perform (now : Int) (call : Call Key) (buckets : Buckets Key) :
    Option Bool × Buckets Key :=
  match call with
  | .allow key =>
    let (answer, buckets) := allow options now key buckets
    (some answer, buckets)
  | .peek key => (some (peek options now key buckets), buckets)
  | .cleanup => (none, cleanup options now buckets)

def run : List (Int × Call Key) -> Buckets Key -> List (Event Key) × Buckets Key
  | [], buckets => ([], buckets)
  | (time, call) :: rest, buckets =>
    let (answer, buckets) := perform options time call buckets
    let (events, buckets) := run rest buckets
    (⟨time, call, answer⟩ :: events, buckets)

def allowedTimes (key : Key) (events : List (Event Key)) : List Int :=
  events.filterMap fun event =>
    if event.call = .allow key ∧ event.answer = some true then some event.time else none

end

abbrev Log (Key : Type*) := Key -> List Int

section

variable {Key : Type*} [DecidableEq Key] (options : Options)

def idealAnswer (now : Int) (call : Call Key) (log : Log Key) : Option Bool :=
  match call with
  | .allow key => some (admits options.windowMs options.maxRequests (log key) now)
  | .peek key => some (admits options.windowMs options.maxRequests (log key) now)
  | .cleanup => none

def idealLog (now : Int) (call : Call Key) (log : Log Key) : Log Key :=
  match call with
  | .allow key =>
    Function.update log key (record options.windowMs options.maxRequests (log key) now)
  | .peek _ => log
  | .cleanup => log

def idealRun : List (Int × Call Key) -> Log Key -> List (Event Key)
  | [], _ => []
  | (time, call) :: rest, log =>
    ⟨time, call, idealAnswer options time call log⟩ ::
      idealRun rest (idealLog options time call log)

end

section

variable {Key : Type*} {options : Options} {clock now : Int} {buckets : Buckets Key}
  {log : Log Key}

def hitsOf (buckets : Buckets Key) (key : Key) : List Int := (buckets key).getD []

structure Represents (options : Options) (clock : Int) (buckets : Buckets Key) (log : Log Key) :
    Prop where
  sorted : ∀ key, (hitsOf buckets key).Pairwise (· ≤ ·)
  past : ∀ key t, t ∈ hitsOf buckets key -> t ≤ clock
  sameLive : ∀ key, live options.windowMs clock (hitsOf buckets key) =
    live options.windowMs clock (log key)

theorem shiftOld_eq {hits : List Int} (hsorted : hits.Pairwise (· ≤ ·)) (window now : Int) :
    shiftOld (now - window) hits = live window now hits := by
  induction hits with
  | nil => rfl
  | cons t hits ih =>
    obtain ⟨hfirst, hrest⟩ := pairwise_cons.mp hsorted
    by_cases hold : t ≤ now - window
    · rw [shiftOld, dropWhile_cons_of_pos (by simpa using hold), live,
        filter_cons_of_neg (by simpa using hold)]
      exact ih hrest
    · rw [shiftOld, dropWhile_cons_of_neg (by simpa using hold), live]
      refine (filter_eq_self.mpr fun other hother => ?_).symm
      rcases mem_cons.mp hother with rfl | hother
      · exact decide_eq_true (not_le.mp hold)
      · exact decide_eq_true ((not_le.mp hold).trans_le (hfirst other hother))

theorem noBuckets_represents : Represents options clock (noBuckets : Buckets Key) fun _ => [] :=
  ⟨fun _ => Pairwise.nil, fun _ _ => nofun, fun _ => rfl⟩

theorem Represents.later (hrep : Represents options clock buckets log) (hle : clock ≤ now) :
    Represents options now buckets log :=
  ⟨hrep.sorted, fun key t ht => (hrep.past key t ht).trans hle,
    fun key => live_congr hle (hrep.sameLive key)⟩

theorem Represents.shiftOld_eq_live (hrep : Represents options now buckets log) (key : Key) :
    shiftOld (now - options.windowMs) (hitsOf buckets key) =
      live options.windowMs now (log key) := by
  rw [shiftOld_eq (hrep.sorted key), hrep.sameLive key]

theorem Represents.peek_eq (hrep : Represents options now buckets log)
    (hlimit : 1 ≤ options.maxRequests) (key : Key) :
    peek options now key buckets =
      admits options.windowMs options.maxRequests (log key) now := by
  have hlive := hrep.sameLive key
  unfold peek
  cases hbucket : buckets key with
  | none =>
    rw [hitsOf, hbucket] at hlive
    rw [admits, ← hlive]
    exact (decide_eq_true hlimit).symm
  | some hits =>
    rw [hitsOf, hbucket] at hlive
    have hcount : hits.countP (fun t => now - options.windowMs < t) =
        (live options.windowMs now hits).length := countP_eq_length_filter
    rw [admits, ← hlive]
    dsimp only [Option.getD_some]
    rw [hcount]

theorem Represents.of_cleanup (hrep : Represents options now buckets log) :
    Represents options now (cleanup options now buckets) log := by
  have hhits : ∀ key, hitsOf (cleanup options now buckets) key =
      live options.windowMs now (hitsOf buckets key) := by
    intro key
    rw [← shiftOld_eq (hrep.sorted key), hitsOf, hitsOf, cleanup]
    cases hbucket : buckets key with
    | none => rfl
    | some hits =>
      dsimp only [Option.getD_some]
      split
      · rename_i hempty
        exact (eq_nil_of_length_eq_zero hempty).symm
      · rfl
  refine ⟨fun key => ?_, fun key t ht => ?_, fun key => ?_⟩
  · rw [hhits]
    exact (hrep.sorted key).sublist filter_sublist
  · rw [hhits] at ht
    exact hrep.past key t (mem_filter.mp ht).1
  · rw [hhits, live_live, hrep.sameLive key]

variable [DecidableEq Key]

theorem Represents.update (hrep : Represents options now buckets log) (key : Key)
    {hits entries : List Int} (hsorted : hits.Pairwise (· ≤ ·)) (hpast : ∀ t ∈ hits, t ≤ now)
    (hlive : live options.windowMs now hits = live options.windowMs now entries) :
    Represents options now (Function.update buckets key (some hits))
      (Function.update log key entries) := by
  have hhits : ∀ other, hitsOf (Function.update buckets key (some hits)) other =
      if other = key then hits else hitsOf buckets other := by
    intro other
    by_cases hsame : other = key
    · rw [if_pos hsame, hitsOf, hsame, Function.update_self]
      rfl
    · rw [if_neg hsame, hitsOf, Function.update_of_ne hsame]
      rfl
  refine ⟨fun other => ?_, fun other t ht => ?_, fun other => ?_⟩
  · rw [hhits]
    split
    · exact hsorted
    · exact hrep.sorted other
  · rw [hhits] at ht
    split at ht
    · exact hpast t ht
    · exact hrep.past other t ht
  · rw [hhits]
    split
    · rename_i hsame
      rw [hsame, Function.update_self]
      exact hlive
    · rename_i hother
      rw [Function.update_of_ne hother]
      exact hrep.sameLive other

/-- Asking for admission answers from the log and is recorded in both. -/
theorem Represents.allow_spec (hrep : Represents options now buckets log) (key : Key) :
    (allow options now key buckets).1 =
        admits options.windowMs options.maxRequests (log key) now /\
      Represents options now (allow options now key buckets).2
        (idealLog options now (.allow key) log) := by
  have hhits : shiftOld (now - options.windowMs) ((buckets key).getD []) =
      live options.windowMs now (log key) := hrep.shiftOld_eq_live key
  have hsorted : (live options.windowMs now (log key)).Pairwise (· ≤ ·) := by
    rw [← hrep.sameLive key]
    exact (hrep.sorted key).sublist filter_sublist
  have hpast : ∀ t ∈ live options.windowMs now (log key), t ≤ now := by
    intro t ht
    rw [← hrep.sameLive key] at ht
    exact hrep.past key t (mem_filter.mp ht).1
  rw [allow, hhits, idealLog, record]
  by_cases hfull : options.maxRequests ≤ (live options.windowMs now (log key)).length
  · have hrefused : admits options.windowMs options.maxRequests (log key) now = false :=
      decide_eq_false (not_lt.mpr hfull)
    rw [if_pos hfull, hrefused, if_neg Bool.false_ne_true]
    exact ⟨rfl, hrep.update key hsorted hpast (live_live _ _ _)⟩
  · have hadmitted : admits options.windowMs options.maxRequests (log key) now = true :=
      decide_eq_true (not_le.mp hfull)
    rw [if_neg hfull, hadmitted, if_pos rfl]
    refine ⟨rfl, hrep.update key ?_ (fun t ht => ?_) ?_⟩
    · refine pairwise_append.mpr ⟨hsorted, pairwise_singleton _ now, ?_⟩
      intro t ht last hlast
      exact mem_singleton.mp hlast ▸ hpast t ht
    · rcases mem_append.mp ht with ht | ht
      · exact hpast t ht
      · exact (mem_singleton.mp ht).le
    · rw [live_append, live_append, live_live]

theorem Represents.perform_spec (hrep : Represents options now buckets log)
    (hlimit : 1 ≤ options.maxRequests) (call : Call Key) :
    (perform options now call buckets).1 = idealAnswer options now call log /\
      Represents options now (perform options now call buckets).2
        (idealLog options now call log) := by
  cases call with
  | allow key =>
    obtain ⟨hanswer, hafter⟩ := hrep.allow_spec key
    exact ⟨congrArg some hanswer, hafter⟩
  | peek key => exact ⟨congrArg some (hrep.peek_eq hlimit key), hrep⟩
  | cleanup => exact ⟨rfl, hrep.of_cleanup⟩

/-- A sequence of calls under a clock that never goes back. -/
def InOrder (calls : List (Int × Call Key)) : Prop :=
  calls.Pairwise fun earlier later => earlier.1 ≤ later.1

variable {calls : List (Int × Call Key)}

theorem run_spec (hlimit : 1 ≤ options.maxRequests) (horder : InOrder calls)
    (hfuture : ∀ call ∈ calls, clock ≤ call.1) (hrep : Represents options clock buckets log) :
    (run options calls buckets).1 = idealRun options calls log /\
      ∀ later, clock ≤ later -> (∀ call ∈ calls, call.1 ≤ later) ->
        ∃ finalLog, Represents options later (run options calls buckets).2 finalLog := by
  induction calls generalizing clock buckets log with
  | nil => exact ⟨rfl, fun later hle _ => ⟨log, hrep.later hle⟩⟩
  | cons first calls ih =>
    obtain ⟨time, call⟩ := first
    obtain ⟨hnext, hrest⟩ := pairwise_cons.mp horder
    have htime : clock ≤ time := hfuture (time, call) mem_cons_self
    obtain ⟨hanswer, hafter⟩ := (hrep.later htime).perform_spec hlimit call
    obtain ⟨hevents, hstands⟩ := ih hrest hnext hafter
    refine ⟨?_, fun later _ hcalls => ?_⟩
    · rw [run, idealRun, ← hanswer, ← hevents]
    · exact hstands later (hcalls (time, call) mem_cons_self)
        fun other hother => hcalls other (mem_cons_of_mem _ hother)

theorem run_from_start (hlimit : 1 ≤ options.maxRequests) (horder : InOrder calls) :
    (run options calls noBuckets).1 = idealRun options calls (fun _ => []) /\
      ∀ later, (∀ call ∈ calls, call.1 ≤ later) ->
        ∃ finalLog, Represents options later (run options calls noBuckets).2 finalLog := by
  cases calls with
  | nil => exact ⟨rfl, fun _ _ => ⟨_, noBuckets_represents⟩⟩
  | cons first calls =>
    have hfuture : ∀ call ∈ first :: calls, first.1 ≤ call.1 := by
      intro call hcall
      rcases mem_cons.mp hcall with rfl | hcall
      · exact le_refl _
      · exact (pairwise_cons.mp horder).1 call hcall
    obtain ⟨hevents, hstands⟩ := run_spec hlimit horder hfuture noBuckets_represents
    exact ⟨hevents, fun later hcalls =>
      hstands later (hcalls first mem_cons_self) hcalls⟩

end

section

variable {Key : Type*} [DecidableEq Key] {options : Options}

theorem allowedTimes_cons (key : Key) (event : Event Key) (events : List (Event Key)) :
    allowedTimes key (event :: events) = allowedTimes key [event] ++ allowedTimes key events := by
  rw [allowedTimes, ← singleton_append, filterMap_append]
  rfl

theorem idealLog_eq (now : Int) (call : Call Key) (log : Log Key) (key : Key) :
    idealLog options now call log key =
      log key ++ allowedTimes key [⟨now, call, idealAnswer options now call log⟩] := by
  cases call with
  | allow other =>
    by_cases hsame : key = other
    · subst hsame
      cases hadmits : admits options.windowMs options.maxRequests (log key) now <;>
        simp [idealLog, allowedTimes, idealAnswer, record, hadmits]
    · have hne : other ≠ key := fun heq => hsame heq.symm
      simp [idealLog, allowedTimes, hsame, hne]
  | peek other => simp [idealLog, allowedTimes]
  | cleanup => simp [idealLog, allowedTimes]

variable {log : Log Key}

theorem idealLog_bounded (hbounded : ∀ key, Bounded options.windowMs options.maxRequests (log key))
    (now : Int) (call : Call Key) (key : Key) :
    Bounded options.windowMs options.maxRequests (idealLog options now call log key) := by
  cases call with
  | allow other =>
    rw [idealLog]
    by_cases hsame : key = other
    · rw [hsame, Function.update_self]
      exact (hbounded other).record now
    · rw [Function.update_of_ne hsame]
      exact hbounded key
  | peek other => exact hbounded key
  | cleanup => exact hbounded key

theorem idealRun_bounded (calls : List (Int × Call Key))
    (hbounded : ∀ key, Bounded options.windowMs options.maxRequests (log key)) (key : Key) :
    Bounded options.windowMs options.maxRequests
      (log key ++ allowedTimes key (idealRun options calls log)) := by
  induction calls generalizing log with
  | nil => simpa [idealRun, allowedTimes] using hbounded key
  | cons first calls ih =>
    have hrest := ih (idealLog_bounded hbounded first.1 first.2)
    rw [idealLog_eq, append_assoc] at hrest
    rwa [idealRun, allowedTimes_cons]

variable {before rest : List (Event Key)}

theorem idealRun_answer {calls : List (Int × Call Key)} {event : Event Key}
    (hsplit : idealRun options calls log = before ++ event :: rest) :
    event.answer = idealAnswer options event.time event.call
      fun key => log key ++ allowedTimes key before := by
  induction calls generalizing log before with
  | nil => simp [idealRun] at hsplit
  | cons first calls ih =>
    rw [idealRun] at hsplit
    cases before with
    | nil =>
      obtain ⟨hevent, -⟩ := cons.inj hsplit
      rw [← hevent]
      simp [allowedTimes]
    | cons earlier before =>
      obtain ⟨hevent, htail⟩ := cons.inj hsplit
      rw [ih htail, ← hevent]
      congr 1
      funext key
      rw [idealLog_eq, append_assoc, ← allowedTimes_cons]

theorem idealRun_filter (calls : List (Int × Call Key)) (log : Log Key) :
    idealRun options (calls.filter fun call => call.2 ≠ .cleanup) log =
      (idealRun options calls log).filter fun event => event.call ≠ .cleanup := by
  induction calls generalizing log with
  | nil => rfl
  | cons first calls ih =>
    obtain ⟨time, call⟩ := first
    have hcons : idealRun options ((time, call) :: calls) log =
        ⟨time, call, idealAnswer options time call log⟩ ::
          idealRun options calls (idealLog options time call log) := rfl
    by_cases hclean : call = .cleanup
    · subst hclean
      rw [filter_cons_of_neg (by simp), hcons, filter_cons_of_neg (by simp)]
      exact ih log
    · rw [filter_cons_of_pos (by simpa using hclean), hcons,
        filter_cons_of_pos (by simpa using hclean), idealRun, ih]

theorem idealRun_times (calls : List (Int × Call Key)) (log : Log Key) :
    (idealRun options calls log).map Event.time = calls.map Prod.fst := by
  induction calls generalizing log with
  | nil => rfl
  | cons first calls ih => rw [idealRun, map_cons, map_cons, ih]

theorem mem_allowedTimes {key : Key} {events : List (Event Key)} {t : Int}
    (ht : t ∈ allowedTimes key events) : ∃ event ∈ events, event.time = t := by
  obtain ⟨event, hevent, htime⟩ := mem_filterMap.mp ht
  exact ⟨event, hevent, (Option.ite_none_right_eq_some.mp htime).2 |> Option.some.inj⟩

theorem refused_full {calls : List (Int × Call Key)} (horder : InOrder calls) {key : Key}
    {refused : Event Key}
    (hsplit : idealRun options calls (fun _ => []) = before ++ refused :: rest)
    (hcall : refused.call = .allow key) (hanswer : refused.answer = some false) :
    options.maxRequests ≤ ((allowedTimes key before).filter fun t =>
      refused.time - options.windowMs < t ∧ t ≤ refused.time).length := by
  have hideal := idealRun_answer hsplit
  rw [hanswer, hcall] at hideal
  have hfull : options.maxRequests ≤
      (live options.windowMs refused.time (allowedTimes key before)).length :=
    not_lt.mp (of_decide_eq_false (Option.some.inj hideal).symm)
  have hpast : ∀ t ∈ allowedTimes key before, t ≤ refused.time := by
    intro t ht
    obtain ⟨event, hevent, rfl⟩ := mem_allowedTimes ht
    have htimes : ((before ++ refused :: rest).map Event.time).Pairwise (· ≤ ·) := by
      rw [← hsplit, idealRun_times, pairwise_map]
      exact horder
    rw [map_append, pairwise_append] at htimes
    exact htimes.2.2 _ (mem_map_of_mem hevent) _
      (mem_map_of_mem mem_cons_self)
  refine hfull.trans_eq (congrArg length (filter_congr fun t ht => ?_))
  simp [hpast t ht]

end

/-- The limiter under a clock that never goes back, from the start: no half-open
window holds more than the limit, a refusal means a full window, peeking answers
as asking would, and cleaning up changes no answer. -/
theorem rateLimiter_sound {Key : Type*} [DecidableEq Key] (options : Options)
    (hlimit : 1 ≤ options.maxRequests) (calls : List (Int × Call Key)) (horder : InOrder calls) :
    let events := (run options calls noBuckets).1
    let buckets := (run options calls noBuckets).2
    (∀ key, Bounded options.windowMs options.maxRequests (allowedTimes key events)) /\
      (∀ key before refused rest, events = before ++ refused :: rest ->
        refused.call = .allow key -> refused.answer = some false ->
        options.maxRequests ≤ ((allowedTimes key before).filter fun t =>
          refused.time - options.windowMs < t ∧ t ≤ refused.time).length) /\
      (∀ now key, (∀ call ∈ calls, call.1 ≤ now) ->
        peek options now key buckets = (allow options now key buckets).1) /\
      (run options (calls.filter fun call => call.2 ≠ .cleanup) noBuckets).1 =
        events.filter fun event => event.call ≠ .cleanup := by
  obtain ⟨hevents, hstands⟩ := run_from_start hlimit horder
  dsimp only
  rw [hevents]
  refine ⟨fun key => ?_, fun key before refused rest hsplit hcall hanswer => ?_,
    fun now key hcalls => ?_, ?_⟩
  · exact idealRun_bounded calls (fun _ => bounded_nil _ _) key
  · exact refused_full horder hsplit hcall hanswer
  · obtain ⟨finalLog, hrep⟩ := hstands now hcalls
    rw [hrep.peek_eq hlimit key, (hrep.allow_spec key).1]
  · have hkept : InOrder (calls.filter fun call => call.2 ≠ .cleanup) :=
      horder.sublist filter_sublist
    rw [(run_from_start hlimit hkept).1, idealRun_filter]

def twoCalls : Options := { windowMs := 10, maxRequests := 2 }

def fourCalls : List (Int × Call String) :=
  [(0, .allow "a"), (3, .allow "a"), (6, .allow "a"), (20, .cleanup), (21, .allow "a")]

theorem fourCalls_inOrder : InOrder fourCalls := by simp [InOrder, fourCalls]

/-- The refused call, the full window before it, and the same answers without the
cleanup. -/
theorem rateLimiter_refuses_third :
    ((run twoCalls fourCalls noBuckets).1.map Event.answer =
        [some true, some true, some false, none, some true]) /\
      Bounded 10 2 (allowedTimes "a" (run twoCalls fourCalls noBuckets).1) /\
      (run twoCalls (fourCalls.filter fun call => call.2 ≠ .cleanup) noBuckets).1 =
        (run twoCalls fourCalls noBuckets).1.filter fun event => event.call ≠ .cleanup := by
  obtain ⟨hbounded, -, -, hcleanup⟩ :=
    rateLimiter_sound twoCalls (by decide) fourCalls fourCalls_inOrder
  exact ⟨by decide +kernel, hbounded "a", hcleanup⟩

end AnchorMind.Limits.RateLimiter
