import Mathlib.Data.List.Nodup
import AnchorMind.Kernel.Transition

/-!
# The provider semaphore

A semaphore limits how many calls a provider serves at once.  A call that finds
no free slot waits in a queue until a release hands it a slot or its timer
rejects it.  The clients' side records which calls hold a slot, in which order
calls came and were served, and which have given their slot back.
-/

namespace AnchorMind.Llm.Semaphore

open Kernel.Transition List

/-- The closure variables of `createSemaphore`; a waiter is named by its call. -/
structure State (Call : Type*) where
  limit : Int
  active : Int
  waiters : List Call

variable {Call : Type*}

def createSemaphore (limit : Int) : State Call where
  limit := limit
  active := 0
  waiters := []

/-- The semaphore after `acquire`, and whether the promise is resolved at once. -/
def acquire (semaphore : State Call) (call : Call) : State Call × Bool :=
  if semaphore.active < semaphore.limit then
    ({ semaphore with active := semaphore.active + 1 }, true)
  else ({ semaphore with waiters := semaphore.waiters ++ [call] }, false)

/-- The timer's callback: the waiter leaves the queue if it is still there. -/
def expire [DecidableEq Call] (semaphore : State Call) (call : Call) : State Call :=
  { semaphore with waiters := semaphore.waiters.erase call }

/-- The semaphore after `release`, and the waiter whose promise is resolved. -/
def release (semaphore : State Call) : State Call × Option Call :=
  match semaphore.waiters with
  | waiter :: rest => ({ semaphore with waiters := rest }, some waiter)
  | [] => ({ semaphore with active := semaphore.active - 1 }, none)

structure Clients (Call : Type*) where
  semaphore : State Call
  arrived : List Call
  served : List Call
  holders : List Call
  released : List Call

inductive Event (Call : Type*) where
  | acquire (call : Call)
  | timeout (call : Call)
  | release (call : Call)
  deriving DecidableEq

section

variable {Call : Type*} [DecidableEq Call]

def Clients.initial (limit : Int) : Clients Call where
  semaphore := createSemaphore limit
  arrived := []
  served := []
  holders := []
  released := []

/-- The calls whose promise is resolved now hold a slot. -/
def Clients.serve (clients : Clients Call) (calls : List Call) : Clients Call :=
  { clients with
    served := clients.served ++ calls
    holders := clients.holders ++ calls }

def step (clients : Clients Call) : Event Call -> Option (Clients Call)
  | .acquire call =>
    if call ∈ clients.arrived then none
    else
      let (semaphore, granted) := acquire clients.semaphore call
      let arrived := { clients with
        semaphore := semaphore
        arrived := clients.arrived ++ [call] }
      some (arrived.serve (if granted then [call] else []))
  | .timeout call => some { clients with semaphore := expire clients.semaphore call }
  | .release call =>
    if call ∈ clients.holders then
      let (semaphore, next) := release clients.semaphore
      let left := { clients with
        semaphore := semaphore
        holders := clients.holders.erase call
        released := clients.released ++ [call] }
      some (left.serve next.toList)
    else none

def system (limit : Int) : System (Clients Call) (Event Call) where
  start := fun clients => clients = Clients.initial limit
  step := fun before event after => step before event = some after

/--
Slots and callers agree: as many holders as active slots and no more than the
limit, waiters only when every slot is held, every slot given out once and
either still held or given back, and service in the order of arrival.
-/
structure Consistent (limit : Int) (clients : Clients Call) : Prop where
  limit_eq : clients.semaphore.limit = limit
  count : (clients.holders.length : Int) = clients.semaphore.active
  bounded : clients.semaphore.active <= limit
  full : clients.semaphore.waiters ≠ [] -> clients.semaphore.active = limit
  distinct : clients.arrived.Nodup
  ordered : (clients.served ++ clients.semaphore.waiters).Sublist clients.arrived
  accounted : clients.served.Perm (clients.released ++ clients.holders)

namespace Consistent

variable {limit : Int} {clients after : Clients Call}

omit [DecidableEq Call] in
theorem initial (hlimit : 0 <= limit) :
    Consistent limit (Clients.initial limit : Clients Call) where
  limit_eq := rfl
  count := rfl
  bounded := hlimit
  full := fun hwaiting => absurd rfl hwaiting
  distinct := nodup_nil
  ordered := Sublist.slnil
  accounted := Perm.nil

omit [DecidableEq Call] in
theorem acquire_free (hconsistent : Consistent limit clients) {call : Call}
    (hnew : call ∉ clients.arrived) (hfree : clients.semaphore.active < clients.semaphore.limit) :
    Consistent limit
      ({ clients with
          semaphore :=
            { clients.semaphore with active := clients.semaphore.active + 1 }
          arrived := clients.arrived ++ [call] }.serve [call]) := by
  have hlimit := hconsistent.limit_eq
  have hnobody : clients.semaphore.waiters = [] := by
    rcases Classical.em (clients.semaphore.waiters = []) with hnone | hwaiting
    · exact hnone
    · have hfull := hconsistent.full hwaiting
      omega
  have horder := hconsistent.ordered
  rw [hnobody, append_nil] at horder
  constructor
  · exact hlimit
  · have hcount := hconsistent.count
    simp [Clients.serve, hcount]
  · simp only [Clients.serve]
    omega
  · intro hwaiting
    exact absurd hnobody hwaiting
  · exact nodup_append.mpr ⟨hconsistent.distinct, nodup_singleton call, by
      rintro other hother last hlast rfl
      rw [mem_singleton.mp hlast] at hother
      exact hnew hother⟩
  · simpa [Clients.serve, hnobody] using horder.append (Sublist.refl [call])
  · simpa [Clients.serve] using hconsistent.accounted.append_right [call]

omit [DecidableEq Call] in
/-- A call that finds every slot held joins the end of the queue. -/
theorem acquire_full (hconsistent : Consistent limit clients) {call : Call}
    (hnew : call ∉ clients.arrived)
    (hfull : Not (clients.semaphore.active < clients.semaphore.limit)) :
    Consistent limit
      ({ clients with
          semaphore :=
            { clients.semaphore with waiters := clients.semaphore.waiters ++ [call] }
          arrived := clients.arrived ++ [call] }.serve []) := by
  have hlimit := hconsistent.limit_eq
  have hbounded := hconsistent.bounded
  constructor
  · exact hlimit
  · simpa [Clients.serve] using hconsistent.count
  · exact hbounded
  · intro _
    simp only [Clients.serve]
    omega
  · exact nodup_append.mpr ⟨hconsistent.distinct, nodup_singleton call, by
      rintro other hother last hlast rfl
      rw [mem_singleton.mp hlast] at hother
      exact hnew hother⟩
  · have horder := hconsistent.ordered.append (Sublist.refl [call])
    simpa [Clients.serve, append_assoc] using horder
  · simpa [Clients.serve] using hconsistent.accounted

theorem expire (hconsistent : Consistent limit clients) (call : Call) :
    Consistent limit { clients with semaphore := Semaphore.expire clients.semaphore call } := by
  constructor
  · exact hconsistent.limit_eq
  · exact hconsistent.count
  · exact hconsistent.bounded
  · intro hwaiting
    refine hconsistent.full ?_
    intro hnone
    exact hwaiting (by simp [Semaphore.expire, hnone])
  · exact hconsistent.distinct
  · have herased := (erase_sublist (a := call) (l := clients.semaphore.waiters))
    exact ((Sublist.refl clients.served).append herased).trans hconsistent.ordered
  · exact hconsistent.accounted

variable {call : Call}

theorem returned (hconsistent : Consistent limit clients) (hholds : call ∈ clients.holders) :
    clients.served.Perm ((clients.released ++ [call]) ++ clients.holders.erase call) := by
  have hback : clients.holders.Perm ([call] ++ clients.holders.erase call) :=
    perm_cons_erase hholds
  have hmoved := hback.append_left clients.released
  rw [<- append_assoc] at hmoved
  exact hconsistent.accounted.trans hmoved

theorem release_handoff (hconsistent : Consistent limit clients) {waiter : Call} {rest : List Call}
    (hholds : call ∈ clients.holders) (hqueue : clients.semaphore.waiters = waiter :: rest) :
    Consistent limit
      ({ clients with
          semaphore := { clients.semaphore with waiters := rest }
          holders := clients.holders.erase call
          released := clients.released ++ [call] }.serve [waiter]) := by
  constructor
  · exact hconsistent.limit_eq
  · have hcount := hconsistent.count
    have hsome := length_pos_of_mem hholds
    have hless := length_erase_of_mem hholds
    simp only [Clients.serve, length_append, length_singleton, hless]
    omega
  · exact hconsistent.bounded
  · intro _
    exact hconsistent.full (by simp [hqueue])
  · exact hconsistent.distinct
  · simpa [Clients.serve, hqueue] using hconsistent.ordered
  · have hback := (hconsistent.returned hholds).append_right [waiter]
    simpa [Clients.serve, append_assoc] using hback

theorem release_free (hconsistent : Consistent limit clients) (hholds : call ∈ clients.holders)
    (hqueue : clients.semaphore.waiters = []) :
    Consistent limit
      ({ clients with
          semaphore :=
            { clients.semaphore with
              active := clients.semaphore.active - 1
              waiters := [] }
          holders := clients.holders.erase call
          released := clients.released ++ [call] }.serve []) := by
  have hbounded := hconsistent.bounded
  constructor
  · exact hconsistent.limit_eq
  · have hcount := hconsistent.count
    have hsome := length_pos_of_mem hholds
    have hless := length_erase_of_mem hholds
    simp only [Clients.serve, append_nil, hless]
    omega
  · simp only [Clients.serve]
    omega
  · intro hwaiting
    exact absurd rfl hwaiting
  · exact hconsistent.distinct
  · simpa [Clients.serve, hqueue] using hconsistent.ordered
  · simpa [Clients.serve, append_assoc] using hconsistent.returned hholds

theorem step (hconsistent : Consistent limit clients) {event : Event Call}
    (hstep : Semaphore.step clients event = some after) : Consistent limit after := by
  cases event with
  | acquire call =>
    rcases Classical.em (call ∈ clients.arrived) with hold | hnew
    · simp [Semaphore.step, hold] at hstep
    rcases Classical.em (clients.semaphore.active < clients.semaphore.limit) with hfree | hfull
    · simp only [Semaphore.step, hnew, if_false, acquire, hfree, if_true] at hstep
      cases hstep
      exact hconsistent.acquire_free hnew hfree
    · simp only [Semaphore.step, hnew, if_false, acquire, hfull] at hstep
      cases hstep
      exact hconsistent.acquire_full hnew hfull
  | timeout call =>
    simp only [Semaphore.step] at hstep
    cases hstep
    exact hconsistent.expire call
  | release call =>
    rcases Classical.em (call ∈ clients.holders) with hholds | hnot
    · cases hqueue : clients.semaphore.waiters with
      | nil =>
        simp only [Semaphore.step, hholds, if_true, Semaphore.release, hqueue] at hstep
        cases hstep
        exact hconsistent.release_free hholds hqueue
      | cons waiter rest =>
        simp only [Semaphore.step, hholds, if_true, Semaphore.release, hqueue] at hstep
        cases hstep
        exact hconsistent.release_handoff hholds hqueue
    · simp [Semaphore.step, hnot] at hstep

end Consistent

theorem consistent_of_reachable {limit : Int} (hlimit : 0 <= limit) {clients : Clients Call}
    (hreach : (system limit).Reachable clients) : Consistent limit clients := by
  refine System.Reachable.invariant ?_ ?_ hreach
  · rintro origin rfl
    exact .initial hlimit
  · intro before event after _ hconsistent hstep
    exact hconsistent.step hstep

end

/-- One slot, two calls waiting for it, and the timer of the first of them. -/
def contended : List (Event Nat) :=
  [.acquire 1, .acquire 2, .acquire 3, .timeout 2, .release 1]

end AnchorMind.Llm.Semaphore
