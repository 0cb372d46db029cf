import AnchorMind.Kernel.Elapsing

/-!
# The circuit breaker of a provider

The breaker counts recent failures and keeps the provider closed off for a while
once they reach a threshold.  Its state lives in two Redis keys or in a map of
the process; both are modelled for one provider, with the clock as an argument.
Times are milliseconds, and a time survives its passage through Redis as text.
-/

namespace AnchorMind.Llm.CircuitBreaker

open Kernel.ExpiringKey List

/-- The settings with the ranges the configuration asks for. -/
structure Limits where
  failureThreshold : Int
  openDuration : Int
  failureWindow : Int
  threshold_pos : 1 <= failureThreshold
  duration_nonneg : 0 <= openDuration
  window_pos : 1 <= failureWindow

namespace Limits

variable (limits : Limits)

/-- `Math.ceil((OPEN_DURATION_MS + FAILURE_WINDOW_MS) / 1000) + 60`. -/
def ttlSeconds : Int :=
  -((-(limits.openDuration + limits.failureWindow)) / 1000) + 60

def ttl : Int := limits.ttlSeconds * 1000

theorem window_lt_ttl : limits.failureWindow < limits.ttl := by
  have hduration := limits.duration_nonneg
  unfold ttl ttlSeconds
  omega

theorem duration_le_ttl : limits.openDuration <= limits.ttl := by
  have hwindow := limits.window_pos
  unfold ttl ttlSeconds
  omega

theorem ttl_pos : 0 < limits.ttl := by
  have hwindow := limits.window_pos
  have hless := limits.window_lt_ttl
  omega

def recent (failures : List Int) (now : Int) : List Int :=
  failures.filter fun failure => decide (now - limits.failureWindow <= failure)

theorem recent_append (front back : List Int) (now : Int) :
    limits.recent (front ++ back) now = limits.recent front now ++ limits.recent back now :=
  filter_append ..

theorem recent_now (now : Int) : limits.recent [now] now = [now] := by
  have hwindow := limits.window_pos
  have hin : now - limits.failureWindow <= now := by omega
  refine filter_eq_self.mpr fun failure hmem => ?_
  rw [mem_singleton.mp hmem]
  exact decide_eq_true hin

theorem recent_recent (failures : List Int) {now later : Int} (hforward : now <= later) :
    limits.recent (limits.recent failures now) later = limits.recent failures later := by
  unfold recent
  rw [filter_filter]
  refine filter_congr fun failure _ => ?_
  rw [<- Bool.decide_and, decide_eq_decide]
  omega

theorem recent_eq_nil {failures : List Int} {now : Int}
    (hold : ∀ failure ∈ failures, failure < now - limits.failureWindow) :
    limits.recent failures now = [] := by
  refine filter_eq_nil_iff.mpr fun failure hmem => ?_
  have hless := hold failure hmem
  rw [decide_eq_true_eq]
  omega

end Limits

structure Redis where
  failures : Key (List Int)
  openedAt : Key Int

def redisIsOpen (limits : Limits) (now : Int) (redis : Redis) : Redis × Bool :=
  match get redis.openedAt now with
  | none => (redis, false)
  | some openedAt =>
    if limits.openDuration <= now - openedAt then ({ redis with openedAt := none }, false)
    else (redis, true)

def redisRecordFailure (limits : Limits) (now : Int) (redis : Redis) : Redis :=
  let failures := expire (rpush redis.failures now now) limits.ttl now
  let raw := (get failures now).getD []
  if limits.failureThreshold <= (limits.recent raw now).length then
    { failures := failures, openedAt := setex now limits.ttl now }
  else { redis with failures := failures }

def redisRecordSuccess (_redis : Redis) : Redis := { failures := none, openedAt := none }

def redisReset (_redis : Redis) : Redis := { failures := none, openedAt := none }

structure MemEntry where
  failures : List Int
  openedAt : Option Int

/-- The provider's place in the map. -/
abbrev Memory := Option MemEntry

def getMemState (memory : Memory) : MemEntry :=
  memory.getD { failures := [], openedAt := none }

def memIsOpen (limits : Limits) (now : Int) (memory : Memory) : Memory × Bool :=
  let entry := getMemState memory
  match entry.openedAt with
  | none => (some entry, false)
  | some openedAt =>
    if limits.openDuration <= now - openedAt then
      (some { entry with openedAt := none }, false)
    else (some entry, true)

def memRecordFailure (limits : Limits) (now : Int) (memory : Memory) : Memory :=
  let entry := getMemState memory
  let failures := limits.recent entry.failures now ++ [now]
  if limits.failureThreshold <= failures.length then
    some { failures := failures, openedAt := some now }
  else some { entry with failures := failures }

def memRecordSuccess (_memory : Memory) : Memory := some { failures := [], openedAt := none }

def memReset (_memory : Memory) : Memory := none

inductive Event where
  | recordFailure
  | recordSuccess
  | reset
  | isOpen
  | advance (elapsed : Nat)
  deriving DecidableEq

/-- What each `isOpen` of a run against Redis answers. -/
def redisAnswers (limits : Limits) (now : Int) (redis : Redis) : List Event -> List Bool
  | [] => []
  | .recordFailure :: events => redisAnswers limits now (redisRecordFailure limits now redis) events
  | .recordSuccess :: events => redisAnswers limits now (redisRecordSuccess redis) events
  | .reset :: events => redisAnswers limits now (redisReset redis) events
  | .isOpen :: events =>
    let (redis, answer) := redisIsOpen limits now redis
    answer :: redisAnswers limits now redis events
  | .advance elapsed :: events => redisAnswers limits (now + elapsed) redis events

/-- What each `isOpen` of a run against the map answers. -/
def memAnswers (limits : Limits) (now : Int) (memory : Memory) : List Event -> List Bool
  | [] => []
  | .recordFailure :: events => memAnswers limits now (memRecordFailure limits now memory) events
  | .recordSuccess :: events => memAnswers limits now (memRecordSuccess memory) events
  | .reset :: events => memAnswers limits now (memReset memory) events
  | .isOpen :: events =>
    let (memory, answer) := memIsOpen limits now memory
    answer :: memAnswers limits now memory events
  | .advance elapsed :: events => memAnswers limits (now + elapsed) memory events

structure SameFailures (limits : Limits) (now : Int) (recorded : Key (List Int))
    (failures : List Int) : Prop where
  recent_eq :
    limits.recent ((recorded.map Entry.value).getD []) now = limits.recent failures now
  aged : ∀ entry, recorded = some entry ->
    ∃ deadline, entry.deadline = some deadline /\
      ∀ failure ∈ entry.value,
        failure <= now /\ failure + limits.ttl <= deadline

/--
An opening Redis still shows is the one of the map, and an opening only the map
remembers has lasted its time.
-/
structure SameOpening (limits : Limits) (now : Int) (recorded : Key Int)
    (openedAt : Option Int) : Prop where
  shown : ∀ time, get recorded now = some time -> openedAt = some time
  remembered : ∀ time, openedAt = some time ->
    get recorded now = some time \/ limits.openDuration <= now - time
  aged : ∀ entry, recorded = some entry ->
    entry.deadline = some (entry.value + limits.ttl)

structure Agree (limits : Limits) (now : Int) (redis : Redis) (memory : Memory) : Prop where
  failures : SameFailures limits now redis.failures (getMemState memory).failures
  openedAt : SameOpening limits now redis.openedAt (getMemState memory).openedAt

variable {limits : Limits} {now : Int} {redis : Redis} {memory : Memory}

namespace SameFailures

variable {recorded : Key (List Int)} {failures : List Int}

theorem empty : SameFailures limits now none [] :=
  ⟨rfl, fun _ hentry => by cases hentry⟩

section

variable (hsame : SameFailures limits now recorded failures)
include hsame

theorem advance {later : Int} (hforward : now <= later) :
    SameFailures limits later recorded failures := by
  constructor
  · rw [<- limits.recent_recent _ hforward, hsame.recent_eq, limits.recent_recent _ hforward]
  · intro entry hentry
    obtain ⟨deadline, hdeadline, hages⟩ := hsame.aged entry hentry
    refine ⟨deadline, hdeadline, fun failure hmem => ?_⟩
    obtain ⟨hpast, hage⟩ := hages failure hmem
    exact ⟨hpast.trans hforward, hage⟩

/-- When the list has expired, everything recorded in it has left the window. -/
theorem recent_get :
    limits.recent ((get recorded now).getD []) now = limits.recent failures now := by
  rw [<- hsame.recent_eq]
  cases recorded with
  | none => rfl
  | some entry =>
    obtain ⟨deadline, hdeadline, hages⟩ := hsame.aged entry rfl
    rw [get_some]
    rcases Classical.em (now < deadline) with hlive | hexpired
    · simp [Entry.liveAt, hdeadline, hlive]
    · have hgone : limits.recent entry.value now = [] := by
        refine limits.recent_eq_nil fun failure hmem => ?_
        have hage := (hages failure hmem).2
        have hless := limits.window_lt_ttl
        omega
      simp only [Entry.liveAt, hdeadline, hexpired, decide_false, Bool.false_eq_true,
        if_false, Option.getD_none, Option.map_some, Option.getD_some, hgone]
      rfl

theorem get_le {failure : Int} (hmem : failure ∈ (get recorded now).getD []) : failure <= now := by
  cases recorded with
  | none => simp at hmem
  | some entry =>
    obtain ⟨deadline, hdeadline, hages⟩ := hsame.aged entry rfl
    rw [get_some] at hmem
    split at hmem
    · exact (hages failure hmem).1
    · simp at hmem

theorem push :
    SameFailures limits now (expire (rpush recorded now now) limits.ttl now)
      (limits.recent failures now ++ [now]) := by
  rw [expire_rpush]
  constructor
  · simp only [setex, Option.map_some, Option.getD_some]
    rw [limits.recent_append, limits.recent_append, hsame.recent_get,
      limits.recent_recent _ (Int.le_refl now)]
  · rintro entry hentry
    cases hentry
    refine ⟨now + limits.ttl, rfl, fun failure hmem => ?_⟩
    rcases mem_append.mp hmem with hold | hnew
    · have hpast := hsame.get_le hold
      omega
    · rw [mem_singleton.mp hnew]
      omega

theorem recent_push :
    limits.recent ((get (expire (rpush recorded now now) limits.ttl now) now).getD []) now =
      limits.recent failures now ++ [now] := by
  have hlive : now < now + limits.ttl := by
    have hpos := limits.ttl_pos
    omega
  rw [expire_rpush, get_setex, if_pos hlive, Option.getD_some, limits.recent_append,
    hsame.recent_get, limits.recent_now]

end

end SameFailures

namespace SameOpening

variable {recorded : Key Int} {openedAt : Option Int}

theorem closed : SameOpening limits now none none := by
  constructor
  · intro time hget
    cases hget
  · intro time hopened
    cases hopened
  · intro entry hentry
    cases hentry

theorem opened : SameOpening limits now (setex now limits.ttl now) (some now) := by
  have hlive : now < now + limits.ttl := by
    have hpos := limits.ttl_pos
    omega
  constructor
  · intro time hget
    rwa [get_setex, if_pos hlive] at hget
  · intro time hopened
    exact .inl (by rw [get_setex, if_pos hlive, hopened])
  · rintro entry hentry
    cases hentry
    rfl

theorem advance (hsame : SameOpening limits now recorded openedAt) {later : Int}
    (hforward : now <= later) : SameOpening limits later recorded openedAt := by
  constructor
  · intro time hget
    exact hsame.shown time (get_of_later hforward hget)
  · intro time hopened
    rcases hsame.remembered time hopened with hget | helapsed
    · cases recorded with
      | none => cases hget
      | some entry =>
        have hdeadline := hsame.aged entry rfl
        rw [get_some] at hget ⊢
        simp only [Entry.liveAt, hdeadline, decide_eq_true_eq] at hget ⊢
        split at hget
        · cases hget
          rcases Classical.em (later < entry.value + limits.ttl) with hlive | hexpired
          · exact .inl (if_pos hlive)
          · have hduration := limits.duration_le_ttl
            right
            omega
        · cases hget
    · right
      omega
  · exact hsame.aged

end SameOpening

namespace Agree

theorem initial : Agree limits now { failures := none, openedAt := none } none :=
  ⟨.empty, .closed⟩

section

variable (hagree : Agree limits now redis memory)
include hagree

theorem advance (elapsed : Nat) : Agree limits (now + elapsed) redis memory :=
  ⟨hagree.failures.advance (by omega), hagree.openedAt.advance (by omega)⟩

theorem recordFailure :
    Agree limits now (redisRecordFailure limits now redis)
      (memRecordFailure limits now memory) := by
  have hpushed := hagree.failures.push
  simp only [redisRecordFailure, memRecordFailure, hagree.failures.recent_push]
  split
  · exact ⟨hpushed, .opened⟩
  · exact ⟨hpushed, hagree.openedAt⟩

omit hagree in
theorem recordSuccess : Agree limits now (redisRecordSuccess redis) (memRecordSuccess memory) :=
  ⟨.empty, .closed⟩

omit hagree in
theorem reset : Agree limits now (redisReset redis) (memReset memory) :=
  ⟨.empty, .closed⟩

theorem isOpen :
    (redisIsOpen limits now redis).2 = (memIsOpen limits now memory).2 /\
      Agree limits now (redisIsOpen limits now redis).1 (memIsOpen limits now memory).1 := by
  unfold redisIsOpen memIsOpen
  cases hget : get redis.openedAt now with
  | some time =>
    have hopened := hagree.openedAt.shown time hget
    simp only [hopened]
    split
    · exact ⟨rfl, hagree.failures, .closed⟩
    · exact ⟨rfl, hagree.failures, hagree.openedAt⟩
  | none =>
    cases hopened : (getMemState memory).openedAt with
    | none =>
      simp only [hopened, true_and]
      exact ⟨hagree.failures, hagree.openedAt⟩
    | some time =>
      have helapsed : limits.openDuration <= now - time := by
        rcases hagree.openedAt.remembered time hopened with hshown | helapsed
        · rw [hget] at hshown
          cases hshown
        · exact helapsed
      simp only [hopened, if_pos helapsed, true_and]
      refine ⟨hagree.failures, ?_⟩
      constructor
      · intro other hother
        rw [hget] at hother
        cases hother
      · intro other hother
        cases hother
      · exact hagree.openedAt.aged

theorem answers (events : List Event) :
    redisAnswers limits now redis events = memAnswers limits now memory events := by
  induction events generalizing now redis memory with
  | nil => rfl
  | cons event events ih =>
    cases event with
    | recordFailure => exact ih hagree.recordFailure
    | recordSuccess => exact ih recordSuccess
    | reset => exact ih reset
    | isOpen =>
      obtain ⟨hanswer, hafter⟩ := hagree.isOpen
      simp only [redisAnswers, memAnswers]
      rw [hanswer, ih hafter]
    | advance elapsed => exact ih (hagree.advance elapsed)

end

end Agree

/--
From a fresh start, whatever is recorded and however the clock advances, every
question whether the provider is closed off gets the same answer from both.
-/
theorem answers_agree (limits : Limits) (now : Int) (events : List Event) :
    redisAnswers limits now { failures := none, openedAt := none } events =
      memAnswers limits now none events :=
  Agree.initial.answers events

end AnchorMind.Llm.CircuitBreaker
