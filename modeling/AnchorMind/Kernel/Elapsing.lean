import Mathlib.Algebra.Order.Ring.Basic

/-!
# A log of admitted instants

An instant is admitted while fewer than a limit of the earlier ones lie in the
window that ends with it.  Then no half-open window of that length ever holds
more than the limit, wherever it starts.
-/

namespace AnchorMind.Kernel.SlidingLog

open List

/-- The instants of a log in the window that ends at `now`. -/
def live (window now : Int) (log : List Int) : List Int :=
  log.filter fun t => now - window < t

def admits (window : Int) (limit : Nat) (log : List Int) (now : Int) : Bool :=
  decide ((live window now log).length < limit)

def record (window : Int) (limit : Nat) (log : List Int) (now : Int) : List Int :=
  if admits window limit log now then log ++ [now] else log

theorem live_append (window now : Int) (log other : List Int) :
    live window now (log ++ other) = live window now log ++ live window now other :=
  filter_append log other

theorem live_live (window now : Int) (log : List Int) :
    live window now (live window now log) = live window now log := by
  rw [live, live, filter_filter]
  simp only [Bool.and_self]

/-- The instants in the half-open window that starts at `start`. -/
def within (start window : Int) (log : List Int) : List Int :=
  log.filter fun t => start ≤ t ∧ t < start + window

def Bounded (window : Int) (limit : Nat) (log : List Int) : Prop :=
  ∀ start, (within start window log).length ≤ limit

theorem bounded_nil (window : Int) (limit : Nat) : Bounded window limit [] :=
  fun _ => Nat.zero_le limit

theorem within_length_le_live {start window now : Int} (hnow : now < start + window)
    (log : List Int) : (within start window log).length ≤ (live window now log).length := by
  rw [within, live, ← countP_eq_length_filter, ← countP_eq_length_filter]
  refine countP_mono_left fun t _ ht => ?_
  have hmem := of_decide_eq_true ht
  exact decide_eq_true (by omega)

theorem Bounded.record {window : Int} {limit : Nat} {log : List Int}
    (hbounded : Bounded window limit log) (now : Int) :
    Bounded window limit (record window limit log now) := by
  intro start
  unfold SlidingLog.record
  split
  · rename_i hadmits
    have hlive := of_decide_eq_true hadmits
    rw [within, filter_append, length_append]
    by_cases hin : start ≤ now ∧ now < start + window
    · have hle := within_length_le_live hin.2 log
      rw [within] at hle
      rw [filter_cons_of_pos (by simpa using hin), filter_nil, length_singleton]
      omega
    · rw [filter_cons_of_neg (by simpa using hin), filter_nil, length_nil]
      exact hbounded start
  · exact hbounded start

theorem live_congr {window now later : Int} (hle : now ≤ later) {log other : List Int}
    (hsame : live window now log = live window now other) :
    live window later log = live window later other := by
  have hcut : ∀ entries, live window later (live window now entries) =
      live window later entries := by
    intro entries
    rw [live, live, live, filter_filter]
    refine filter_congr fun t _ => ?_
    by_cases ht : later - window < t
    · have hearly : now - window < t := by omega
      simp [ht, hearly]
    · simp [ht]
  rw [← hcut log, hsame, hcut other]

end AnchorMind.Kernel.SlidingLog

/-!
# A store key with an expiry time

One key of a key-value store whose keys may carry a deadline.  From the deadline
on the key reads as absent, whatever is still recorded under it, and a push to
an absent key starts a new list without a deadline.
-/

namespace AnchorMind.Kernel.ExpiringKey

structure Entry (Value : Type*) where
  value : Value
  deadline : Option Int

abbrev Key (Value : Type*) := Option (Entry Value)

variable {Value Item : Type*}

def Entry.liveAt (entry : Entry Value) (now : Int) : Bool :=
  match entry.deadline with
  | some deadline => decide (now < deadline)
  | none => true

def live (key : Key Value) (now : Int) : Key Value :=
  key.filter fun entry => entry.liveAt now

/-- What a read at `now` finds. -/
def get (key : Key Value) (now : Int) : Option Value :=
  (live key now).map Entry.value

def setex (value : Value) (ttl now : Int) : Key Value :=
  some { value := value, deadline := some (now + ttl) }

def expire (key : Key Value) (ttl now : Int) : Key Value :=
  (live key now).map fun entry => { entry with deadline := some (now + ttl) }

def rpush (key : Key (List Item)) (item : Item) (now : Int) : Key (List Item) :=
  match live key now with
  | some entry => some { entry with value := entry.value ++ [item] }
  | none => some { value := [item], deadline := none }

@[simp] theorem live_none (now : Int) : live (none : Key Value) now = none := rfl

theorem live_some (entry : Entry Value) (now : Int) :
    live (some entry) now = if entry.liveAt now then some entry else none := rfl

theorem get_eq (key : Key Value) (now : Int) : get key now = (live key now).map Entry.value := rfl

@[simp] theorem get_none (now : Int) : get (none : Key Value) now = none := rfl

theorem get_some {entry : Entry Value} {now : Int} :
    get (some entry) now = if entry.liveAt now then some entry.value else none := by
  rw [get_eq, live_some]
  split <;> rfl

@[simp] theorem get_setex (value : Value) {ttl now later : Int} :
    get (setex value ttl now) later = if later < now + ttl then some value else none := by
  simp [setex, get_some, Entry.liveAt]

theorem live_rpush (key : Key (List Item)) (item : Item) (now : Int) :
    live (rpush key item now) now = rpush key item now := by
  unfold rpush
  cases hlive : live key now with
  | none => simp [live_some, Entry.liveAt]
  | some entry =>
    have hkept : entry.liveAt now = true := (Option.filter_eq_some_iff.mp hlive).2
    exact if_pos hkept

theorem get_of_later {key : Key Value} {now later : Int} {value : Value} (hforward : now <= later)
    (hget : get key later = some value) : get key now = some value := by
  cases key with
  | none => simp at hget
  | some entry =>
    rw [get_some] at hget ⊢
    cases hdeadline : entry.deadline with
    | none => simpa [Entry.liveAt, hdeadline] using hget
    | some deadline =>
      simp only [Entry.liveAt, hdeadline, decide_eq_true_eq] at hget ⊢
      split at hget
      · rw [if_pos (by omega), hget]
      · cases hget

theorem expire_rpush (key : Key (List Item)) (item : Item) (ttl now : Int) :
    expire (rpush key item now) ttl now =
      setex ((get key now).getD [] ++ [item]) ttl now := by
  rw [expire, live_rpush, get_eq]
  unfold rpush
  cases live key now <;> rfl

end AnchorMind.Kernel.ExpiringKey

/-!
# Decay down to a floor

A value decays by a factor that turns sums of times into products, and never below a floor.
Decaying in steps and decaying at once give the same value, so a value that is stored with
the time of its last step can be read at any later time.
-/

namespace AnchorMind.Kernel.FlooredDecay

variable {Number : Type*} [CommRing Number] [LinearOrder Number] [IsStrictOrderedRing Number]

structure Factors (Number : Type*) [CommRing Number] [LinearOrder Number] where
  factor : Number -> Number
  factor_add : ∀ first second, factor (first + second) = factor first * factor second
  factor_nonneg : ∀ elapsed, 0 ≤ factor elapsed
  factor_le_one : ∀ elapsed, 0 ≤ elapsed -> factor elapsed ≤ 1

variable (factors : Factors Number) {floor : Number}

def decayed (floor value elapsed : Number) : Number := max floor (value * factors.factor elapsed)

theorem decayed_decayed (hfloor : 0 ≤ floor) (value first : Number) {second : Number}
    (hsecond : 0 ≤ second) :
    decayed factors floor (decayed factors floor value first) second =
      decayed factors floor value (first + second) := by
  have hlow : floor * factors.factor second ≤ floor :=
    mul_le_of_le_one_right hfloor (factors.factor_le_one second hsecond)
  unfold decayed
  rw [max_mul_of_nonneg _ _ (factors.factor_nonneg second), ← max_assoc, max_eq_left hlow,
    factors.factor_add, mul_assoc]

structure Stored (Number : Type*) where
  value : Number
  since : Number

def reading (floor : Number) (stored : Stored Number) (now : Number) : Number :=
  decayed factors floor stored.value (now - stored.since)

def store (floor : Number) (stored : Stored Number) (now : Number) : Stored Number :=
  ⟨reading factors floor stored now, now⟩

theorem reading_store (hfloor : 0 ≤ floor) {stored : Stored Number} {now later : Number}
    (hlater : now ≤ later) :
    reading factors floor (store factors floor stored now) later =
      reading factors floor stored later := by
  unfold reading store reading
  rw [decayed_decayed factors hfloor _ _ (sub_nonneg.mpr hlater), sub_add_sub_comm,
    add_comm now later, add_sub_add_right_eq_sub]

end AnchorMind.Kernel.FlooredDecay
