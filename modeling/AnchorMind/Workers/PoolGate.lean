import AnchorMind.Kernel.Transition
import Mathlib.Data.List.Nodup

/-!
# The background gate of the primary pool

Background work takes a slot before it takes a connection.  `BackgroundGate` counts the slots,
queues whoever finds none, and wakes the head of the queue when a slot is given back.  Methods
and timer callbacks run without interruption, so one label is one call.  An acquisition is
named by its arrival number; the order of grants is recorded beside the state.
-/

namespace AnchorMind.Workers.PoolGate

open Kernel.Transition List Function

/-- How an acquisition fails. -/
inductive GateError where
  | timeout (laneName : String) (waitedMs active capacity : Int) (waiting : Nat)
  | closed (laneName : String)
deriving DecidableEq

/-- What the promise of an acquisition settled to. -/
inductive Outcome where
  | granted
  | failed (error : GateError)
deriving DecidableEq

/-- A queued acquisition. -/
structure Entry where
  id : Nat
  laneName : String
  enqueuedAt : Int
deriving DecidableEq

structure BackgroundGate where
  capacity : Int
  active : Int
  closed : Bool
  queue : List Entry
  /-- The number of acquisitions so far. -/
  arrivals : Nat
  /-- The armed deadline timers. -/
  deadlineTimer : Nat -> Option Entry
  /-- The settled promises. -/
  outcome : Nat -> Option Outcome
  /-- The `released` flag of each release function. -/
  released : Nat -> Bool
  /-- The acquisitions that took a slot, in the order they took it. -/
  grants : List Nat

def BackgroundGate.waiting (gate : BackgroundGate) : Nat := gate.queue.length

/-- The constructor, with its two checks. -/
def construct (capacity maxWaitMs : Int) : Except String BackgroundGate :=
  if capacity < 1 then
    .error ("BackgroundGate capacity must be a positive integer, got " ++ toString capacity)
  else if maxWaitMs ≤ 0 then
    .error ("BackgroundGate maxWaitMs must be a positive number, got " ++ toString maxWaitMs)
  else
    .ok
      { capacity := capacity
        active := 0
        closed := false
        queue := []
        arrivals := 0
        deadlineTimer := fun _ => none
        outcome := fun _ => none
        released := fun _ => false
        grants := [] }

namespace BackgroundGate

/-- `resolve` and `reject`: a promise keeps what it settled to first. -/
def settle (gate : BackgroundGate) (id : Nat) (outcome : Outcome) : BackgroundGate :=
  { gate with
    outcome := update gate.outcome id (some ((gate.outcome id).getD outcome)) }

def clearTimers (gate : BackgroundGate) (id : Nat) : BackgroundGate :=
  { gate with deadlineTimer := update gate.deadlineTimer id none }

/-- Count a slot for the acquisition and hand it a fresh release function. -/
def grant (gate : BackgroundGate) (id : Nat) : BackgroundGate :=
  { gate with active := gate.active + 1, grants := gate.grants ++ [id] }.settle id .granted

def acquire (gate : BackgroundGate) (laneName : String) (now : Int) : BackgroundGate :=
  let id := gate.arrivals
  let arrived := { gate with arrivals := id + 1 }
  if gate.closed then arrived.settle id (.failed (.closed laneName))
  else if gate.active < gate.capacity /\ gate.queue = [] then arrived.grant id
  else
    let entry : Entry := { id := id, laneName := laneName, enqueuedAt := now }
    { arrived with
      deadlineTimer := update gate.deadlineTimer id (some entry)
      queue := gate.queue ++ [entry] }

/-- One turn of the `_pulse` loop: `rest` is the queue after its shift. -/
def grantHead (gate : BackgroundGate) (entry : Entry) (rest : List Entry) : BackgroundGate :=
  ({ gate with queue := rest }.clearTimers entry.id).grant entry.id

/-- The `_pulse` loop over the queue it finds. -/
def pulseOver : List Entry -> BackgroundGate -> BackgroundGate
  | [], gate => gate
  | entry :: rest, gate =>
    if gate.active < gate.capacity then pulseOver rest (gate.grantHead entry rest) else gate

def pulse (gate : BackgroundGate) : BackgroundGate := pulseOver gate.queue gate

def release (gate : BackgroundGate) (id : Nat) : BackgroundGate :=
  if gate.released id then gate
  else
    { gate with
      released := update gate.released id true
      active := gate.active - 1 }.pulse

def dequeue (gate : BackgroundGate) (entry : Entry) : BackgroundGate :=
  { gate with queue := gate.queue.erase entry }.clearTimers entry.id

def deadline (gate : BackgroundGate) (entry : Entry) (now : Int) : BackgroundGate :=
  let left := gate.dequeue entry
  left.settle entry.id
    (.failed (.timeout entry.laneName (now - entry.enqueuedAt) left.active left.capacity
      left.waiting))

/-- The loop of `close` over the entries it took from the queue. -/
def failAll : List Entry -> BackgroundGate -> BackgroundGate
  | [], gate => gate
  | entry :: rest, gate =>
    failAll rest
      ((gate.clearTimers entry.id).settle entry.id (.failed (.closed entry.laneName)))

def close (gate : BackgroundGate) : BackgroundGate :=
  failAll gate.queue { gate with closed := true, queue := [] }

/-- Named after `open`, which Lean reserves. -/
def reopen (gate : BackgroundGate) : BackgroundGate := { gate with closed := false }

/-- The slots taken and not given back. -/
def held (gate : BackgroundGate) : List Nat := gate.grants.filter fun id => !gate.released id

end BackgroundGate

inductive Label where
  | acquire (laneName : String) (now : Int)
  | release (id : Nat)
  | deadline (id : Nat) (now : Int)
  | close
  | reopen

/-- One call.  A release function is in the hands of whoever its acquisition
resolved for, and a timer fires while it is armed. -/
def gateStep (gate : BackgroundGate) : Label -> Option BackgroundGate
  | .acquire laneName now => some (gate.acquire laneName now)
  | .release id => if gate.outcome id = some .granted then some (gate.release id) else none
  | .deadline id now => (gate.deadlineTimer id).map fun entry => gate.deadline entry now
  | .close => some gate.close
  | .reopen => some gate.reopen

def gateSystem : System BackgroundGate Label where
  start := fun gate => exists capacity maxWaitMs, construct capacity maxWaitMs = .ok gate
  step := fun before label after => gateStep before label = some after

/-- What the gate keeps at every moment, between two turns of the pulse loop
included. -/
structure Sound (gate : BackgroundGate) : Prop where
  conserved : gate.active = gate.held.length
  within : gate.active ≤ gate.capacity
  grantsSorted : gate.grants.Pairwise (· < ·)
  queueSorted : (gate.queue.map Entry.id).Pairwise (· < ·)
  queueAfter : ∀ id ∈ gate.grants, ∀ entry ∈ gate.queue, id < entry.id
  grantsArrived : ∀ id ∈ gate.grants, id < gate.arrivals
  queueArrived : ∀ entry ∈ gate.queue, entry.id < gate.arrivals
  timers : ∀ id entry, gate.deadlineTimer id = some entry <->
    entry ∈ gate.queue /\ entry.id = id
  unsettled : ∀ entry ∈ gate.queue, gate.outcome entry.id = none
  granted : ∀ id, id ∈ gate.grants <-> gate.outcome id = some .granted
  unarrived : ∀ id, gate.arrivals ≤ id -> gate.outcome id = none
  releasedGrants : ∀ id, gate.released id = true -> id ∈ gate.grants
  closedEmpty : gate.closed = true -> gate.queue = []

/-- Nobody waits beside a free slot. -/
def Full (gate : BackgroundGate) : Prop := gate.queue ≠ [] -> gate.capacity ≤ gate.active

variable {gate after : BackgroundGate} {id other : Nat} {entry : Entry} {rest : List Entry}

section

open BackgroundGate

variable {outcome : Outcome}

@[simp]
theorem settle_outcome_self :
    (gate.settle id outcome).outcome id = some ((gate.outcome id).getD outcome) :=
  update_self ..

theorem settle_outcome_of_ne (hne : other ≠ id) :
    (gate.settle id outcome).outcome other = gate.outcome other :=
  update_of_ne hne ..

theorem settle_keeps {settled : Outcome} (hsettled : gate.outcome other = some settled) :
    (gate.settle id outcome).outcome other = some settled := by
  by_cases hother : other = id
  · subst hother
    rw [settle_outcome_self, hsettled]
    rfl
  · rw [settle_outcome_of_ne hother, hsettled]

theorem failAll_queue (entries : List Entry) (gate : BackgroundGate) :
    (failAll entries gate).queue = gate.queue := by
  induction entries generalizing gate with
  | nil => rfl
  | cons entry rest ih => exact ih _

theorem failAll_closed (entries : List Entry) (gate : BackgroundGate) :
    (failAll entries gate).closed = gate.closed := by
  induction entries generalizing gate with
  | nil => rfl
  | cons entry rest ih => exact ih _

theorem failAll_keeps {settled : Outcome} (entries : List Entry) (gate : BackgroundGate)
    (hsettled : gate.outcome id = some settled) :
    (failAll entries gate).outcome id = some settled := by
  induction entries generalizing gate with
  | nil => exact hsettled
  | cons entry rest ih => exact ih _ (settle_keeps hsettled)

theorem settle_failed_ne_granted {error : GateError} (hopen : gate.outcome other ≠ some .granted) :
    (gate.settle id (.failed error)).outcome other ≠ some .granted := by
  by_cases hother : other = id
  · subst hother
    rw [settle_outcome_self]
    cases houtcome : gate.outcome other with
    | none => nofun
    | some settled => rwa [houtcome] at hopen
  · rwa [settle_outcome_of_ne hother]

/-- `close` fails the promise of every entry it takes from the queue. -/
theorem failAll_fails (entries : List Entry) (gate : BackgroundGate)
    (hopen : ∀ entry ∈ entries, gate.outcome entry.id ≠ some .granted) (hentry : entry ∈ entries) :
    ∃ error, (failAll entries gate).outcome entry.id = some (.failed error) := by
  induction entries generalizing gate with
  | nil => cases hentry
  | cons head rest ih =>
    have hheadOpen := hopen head mem_cons_self
    rcases mem_cons.mp hentry with rfl | hrest
    · have hhead : ∃ error, ((gate.clearTimers entry.id).settle entry.id
          (.failed (.closed entry.laneName))).outcome entry.id = some (.failed error) := by
        rw [settle_outcome_self]
        change ∃ error, some ((gate.outcome entry.id).getD _) = some (.failed error)
        cases houtcome : gate.outcome entry.id with
        | none => exact ⟨.closed entry.laneName, rfl⟩
        | some settled =>
          cases settled with
          | granted => exact absurd houtcome hheadOpen
          | failed error => exact ⟨error, rfl⟩
      obtain ⟨error, hfailed⟩ := hhead
      exact ⟨error, failAll_keeps rest _ hfailed⟩
    · exact ih _ (fun waiting hwaiting =>
        settle_failed_ne_granted (hopen waiting (mem_cons_of_mem head hwaiting))) hrest

end

section

open BackgroundGate

section

variable (hsound : Sound gate)
include hsound

theorem Sound.mem_erase {kept : Entry} (hentry : entry ∈ gate.queue) :
    kept ∈ gate.queue.erase entry <-> kept ∈ gate.queue /\ kept.id ≠ entry.id := by
  have hids : (gate.queue.map Entry.id).Nodup := hsound.queueSorted.imp Nat.ne_of_lt
  rw [(Nodup.of_map Entry.id hids).mem_erase_iff, and_comm]
  refine and_congr_right fun hkept => not_congr ⟨congrArg Entry.id, fun hid => ?_⟩
  exact inj_on_of_nodup_map hids hkept hentry hid

/-- `_dequeue` keeps the gate sound. -/
theorem Sound.dequeue (hentry : entry ∈ gate.queue) : Sound (gate.dequeue entry) := by
  have hsub : (gate.queue.erase entry).Sublist gate.queue := erase_sublist
  have hmem : ∀ kept ∈ gate.queue.erase entry, kept ∈ gate.queue := fun _ hkept =>
    hsub.subset hkept
  refine ⟨hsound.conserved, hsound.within, hsound.grantsSorted,
    hsound.queueSorted.sublist (hsub.map Entry.id), ?_, hsound.grantsArrived, ?_, ?_, ?_,
    hsound.granted, hsound.unarrived, hsound.releasedGrants, ?_⟩
  · intro granted hgranted kept hkept
    exact hsound.queueAfter granted hgranted kept (hmem kept hkept)
  · intro kept hkept
    exact hsound.queueArrived kept (hmem kept hkept)
  · intro name kept
    change update gate.deadlineTimer entry.id none name = some kept <->
      kept ∈ gate.queue.erase entry /\ kept.id = name
    rw [hsound.mem_erase hentry]
    by_cases hname : name = entry.id
    · subst hname
      simp [update_self]
    · rw [update_of_ne hname, hsound.timers]
      grind
  · intro kept hkept
    exact hsound.unsettled kept (hmem kept hkept)
  · intro hclosed
    change gate.queue.erase entry = []
    rw [hsound.closedEmpty hclosed]
    rfl

theorem Sound.fail (error : GateError) (harrived : id < gate.arrivals)
    (hopen : gate.outcome id = none) (hgone : ∀ entry ∈ gate.queue, entry.id ≠ id) :
    Sound (gate.settle id (.failed error)) := by
  refine ⟨hsound.conserved, hsound.within, hsound.grantsSorted, hsound.queueSorted,
    hsound.queueAfter, hsound.grantsArrived, hsound.queueArrived, hsound.timers, ?_, ?_, ?_,
    hsound.releasedGrants, hsound.closedEmpty⟩
  · intro entry hentry
    rw [settle_outcome_of_ne (hgone entry hentry)]
    exact hsound.unsettled entry hentry
  · intro name
    change name ∈ gate.grants <-> _
    rw [hsound.granted name]
    by_cases hname : name = id
    · subst hname
      simp [hopen]
    · rw [settle_outcome_of_ne hname]
  · intro name hname
    change gate.arrivals ≤ name at hname
    rw [settle_outcome_of_ne (by omega)]
    exact hsound.unarrived name hname

theorem Sound.grant (hroom : gate.active < gate.capacity) (harrived : id < gate.arrivals)
    (hopen : gate.outcome id = none) (hbefore : ∀ granted ∈ gate.grants, granted < id)
    (hafter : ∀ entry ∈ gate.queue, id < entry.id) : Sound (gate.grant id) := by
  have hfresh : gate.released id = false := by
    by_contra hreleased
    have hgranted := hsound.releasedGrants id (by simpa using hreleased)
    exact absurd (hbefore id hgranted) (Nat.lt_irrefl id)
  refine ⟨?_, ?_, ?_, hsound.queueSorted, ?_, ?_, hsound.queueArrived, hsound.timers, ?_, ?_, ?_,
    ?_, hsound.closedEmpty⟩
  · change gate.active + 1 = ((gate.grants ++ [id]).filter fun name => !gate.released name).length
    rw [filter_append, length_append, hsound.conserved]
    simp [BackgroundGate.held, hfresh]
  · change gate.active + 1 ≤ gate.capacity
    omega
  · refine pairwise_append.mpr ⟨hsound.grantsSorted, pairwise_singleton _ id, ?_⟩
    intro granted hgranted name hname
    rw [mem_singleton.mp hname]
    exact hbefore granted hgranted
  · intro granted hgranted entry hentry
    rcases mem_append.mp hgranted with hold | hnew
    · exact hsound.queueAfter granted hold entry hentry
    · rw [mem_singleton.mp hnew]
      exact hafter entry hentry
  · intro granted hgranted
    rcases mem_append.mp hgranted with hold | hnew
    · exact hsound.grantsArrived granted hold
    · rw [mem_singleton.mp hnew]
      exact harrived
  · intro entry hentry
    have hne : entry.id ≠ id := Nat.ne_of_gt (hafter entry hentry)
    exact (settle_outcome_of_ne hne).trans (hsound.unsettled entry hentry)
  · intro name
    change name ∈ gate.grants ++ [id] <-> (gate.settle id .granted).outcome name = some .granted
    rw [mem_append, mem_singleton, hsound.granted name]
    by_cases hname : name = id
    · subst hname
      simp [hopen]
    · rw [settle_outcome_of_ne hname]
      simp [hname]
  · intro name hname
    change gate.arrivals ≤ name at hname
    exact (settle_outcome_of_ne (by omega)).trans (hsound.unarrived name hname)
  · intro name hreleased
    exact mem_append_left [id] (hsound.releasedGrants name hreleased)

theorem Sound.grantHead (hqueue : gate.queue = entry :: rest)
    (hroom : gate.active < gate.capacity) : Sound (gate.grantHead entry rest) := by
  have hhead : entry ∈ gate.queue := hqueue ▸ mem_cons_self
  have hleft : gate.queue.erase entry = rest := by rw [hqueue, erase_cons_head]
  have hdequeued := hsound.dequeue hhead
  have hsame : gate.dequeue entry = { gate with queue := rest }.clearTimers entry.id := by
    rw [BackgroundGate.dequeue, hleft]
  rw [hsame] at hdequeued
  refine hdequeued.grant hroom (hsound.queueArrived entry hhead) (hsound.unsettled entry hhead)
    (fun granted hgranted => hsound.queueAfter granted hgranted entry hhead) ?_
  intro waiting hwaiting
  have hsorted := hsound.queueSorted
  rw [hqueue, map_cons, pairwise_cons] at hsorted
  exact hsorted.1 waiting.id (mem_map_of_mem hwaiting)

theorem Sound.pulseOver {entries : List Entry} (hqueue : gate.queue = entries) :
    Sound (pulseOver entries gate) /\ Full (pulseOver entries gate) := by
  induction entries generalizing gate with
  | nil => exact ⟨hsound, fun hwaits => absurd hqueue hwaits⟩
  | cons entry rest ih =>
    unfold BackgroundGate.pulseOver
    split
    · rename_i hroom
      exact ih (hsound.grantHead hqueue hroom) rfl
    · rename_i hroom
      exact ⟨hsound, fun _ => Int.not_lt.mp hroom⟩

/-- The first call of a release function gives one slot back. -/
theorem held_length_release (hgranted : id ∈ gate.grants) (hheld : gate.released id = false) :
    (gate.grants.filter fun name => !update gate.released id true name).length + 1 =
      gate.held.length := by
  have hnodup : gate.held.Nodup := (hsound.grantsSorted.imp Nat.ne_of_lt).filter _
  have hmem : id ∈ gate.held := mem_filter.mpr ⟨hgranted, by simp [hheld]⟩
  have hsplit : (gate.grants.filter fun name => !update gate.released id true name) =
      gate.held.erase id := by
    rw [hnodup.erase_eq_filter, BackgroundGate.held, filter_filter]
    refine filter_congr fun name _ => ?_
    by_cases hname : name = id
    · subst hname
      simp
    · simp [hname]
  rw [hsplit, length_erase_of_mem hmem]
  exact Nat.sub_add_cancel (length_pos_of_mem hmem)

theorem Sound.release (hfull : Full gate) (houtcome : gate.outcome id = some .granted) :
    Sound (gate.release id) /\ Full (gate.release id) := by
  unfold BackgroundGate.release
  split
  · exact ⟨hsound, hfull⟩
  · rename_i hreleased
    have hgranted : id ∈ gate.grants := (hsound.granted id).mpr houtcome
    have hlength := held_length_release hsound hgranted (Bool.eq_false_iff.mpr hreleased)
    have hwithin := hsound.within
    have hfreed : Sound { gate with
        released := update gate.released id true
        active := gate.active - 1 } := by
      refine ⟨?_, ?_, hsound.grantsSorted, hsound.queueSorted, hsound.queueAfter,
        hsound.grantsArrived, hsound.queueArrived, hsound.timers, hsound.unsettled,
        hsound.granted, hsound.unarrived, ?_, hsound.closedEmpty⟩
      · change gate.active - 1 =
          ((gate.grants.filter fun name => !update gate.released id true name).length :
            Int)
        rw [hsound.conserved, ← hlength]
        omega
      · change gate.active - 1 ≤ gate.capacity
        omega
      · intro name hname
        by_cases hsame : name = id
        · exact hsame ▸ hgranted
        · change update gate.released id true name = true at hname
          rw [update_of_ne hsame] at hname
          exact hsound.releasedGrants name hname
    exact hfreed.pulseOver rfl

theorem Sound.arrive : Sound { gate with arrivals := gate.arrivals + 1 } := by
  refine ⟨hsound.conserved, hsound.within, hsound.grantsSorted, hsound.queueSorted,
    hsound.queueAfter, ?_, ?_, hsound.timers, hsound.unsettled, hsound.granted, ?_,
    hsound.releasedGrants, hsound.closedEmpty⟩
  · intro granted hgranted
    exact Nat.lt_succ_of_lt (hsound.grantsArrived granted hgranted)
  · intro entry hentry
    exact Nat.lt_succ_of_lt (hsound.queueArrived entry hentry)
  · intro name hname
    exact hsound.unarrived name (Nat.le_of_succ_le hname)

theorem Sound.push (hid : entry.id = gate.arrivals) (hclosed : gate.closed = false) :
    Sound { gate with
      arrivals := gate.arrivals + 1
      deadlineTimer := update gate.deadlineTimer entry.id (some entry)
      queue := gate.queue ++ [entry] } := by
  have hmem : ∀ waiting ∈ gate.queue ++ [entry],
      waiting ∈ gate.queue \/ waiting = entry := by simp
  have hlast : ∀ waiting ∈ gate.queue, waiting.id < entry.id := by
    intro waiting hwaiting
    rw [hid]
    exact hsound.queueArrived waiting hwaiting
  have harrived := hsound.arrive
  refine ⟨hsound.conserved, hsound.within, hsound.grantsSorted, ?_, ?_,
    harrived.grantsArrived, ?_, ?_, ?_, hsound.granted, harrived.unarrived,
    hsound.releasedGrants, fun hclosed' => absurd (hclosed.symm.trans hclosed') Bool.false_ne_true⟩
  · change ((gate.queue ++ [entry]).map Entry.id).Pairwise (· < ·)
    rw [map_append]
    refine pairwise_append.mpr ⟨hsound.queueSorted, pairwise_singleton _ _, ?_⟩
    intro name hname last hlastName
    obtain ⟨waiting, hwaiting, rfl⟩ := mem_map.mp hname
    rw [mem_singleton.mp hlastName]
    exact hlast waiting hwaiting
  · intro granted hgranted waiting hwaiting
    rcases hmem waiting hwaiting with hold | rfl
    · exact hsound.queueAfter granted hgranted waiting hold
    · rw [hid]
      exact hsound.grantsArrived granted hgranted
  · intro waiting hwaiting
    rcases hmem waiting hwaiting with hold | rfl
    · exact harrived.queueArrived waiting hold
    · rw [hid]
      exact Nat.lt_succ_self _
  · intro name waiting
    change update gate.deadlineTimer entry.id (some entry) name = some waiting <->
      waiting ∈ gate.queue ++ [entry] /\ waiting.id = name
    by_cases hname : name = entry.id
    · subst hname
      rw [update_self]
      constructor
      · rintro ⟨⟩
        exact ⟨mem_append_right _ (mem_singleton_self _), rfl⟩
      · rintro ⟨hwaiting, hsame⟩
        rcases hmem waiting hwaiting with hold | rfl
        · exact absurd hsame (Nat.ne_of_lt (hlast waiting hold))
        · rfl
    · rw [update_of_ne hname, hsound.timers]
      constructor
      · rintro ⟨hold, hsame⟩
        exact ⟨mem_append_left _ hold, hsame⟩
      · rintro ⟨hwaiting, hsame⟩
        rcases hmem waiting hwaiting with hold | rfl
        · exact ⟨hold, hsame⟩
        · exact absurd hsame.symm hname
  · intro waiting hwaiting
    rcases hmem waiting hwaiting with hold | rfl
    · exact hsound.unsettled waiting hold
    · exact hsound.unarrived _ (Nat.le_of_eq hid.symm)

theorem Sound.acquire (hfull : Full gate) (laneName : String) (now : Int) :
    Sound (gate.acquire laneName now) /\ Full (gate.acquire laneName now) := by
  have hopen : gate.outcome gate.arrivals = none :=
    hsound.unarrived gate.arrivals (Nat.le_refl _)
  simp only [BackgroundGate.acquire]
  split
  · refine ⟨hsound.arrive.fail (.closed laneName) (Nat.lt_succ_self _) hopen ?_, hfull⟩
    intro entry hentry
    exact Nat.ne_of_lt (hsound.queueArrived entry hentry)
  · rename_i hclosed
    split
    · rename_i hfree
      refine ⟨hsound.arrive.grant hfree.1 (Nat.lt_succ_self _) hopen hsound.grantsArrived ?_, ?_⟩
      · intro entry hentry
        rw [show gate.queue = [] from hfree.2] at hentry
        cases hentry
      · intro hwaits
        exact absurd hfree.2 hwaits
    · rename_i hbusy
      refine ⟨hsound.push rfl (Bool.eq_false_iff.mpr hclosed), fun _ => ?_⟩
      by_cases hnone : gate.queue = []
      · exact Int.not_lt.mp fun hroom => hbusy ⟨hroom, hnone⟩
      · exact hfull hnone

theorem Sound.deadline (hfull : Full gate) (htimer : gate.deadlineTimer id = some entry)
    (now : Int) : Sound (gate.deadline entry now) /\ Full (gate.deadline entry now) := by
  obtain ⟨hentry, _⟩ := (hsound.timers id entry).mp htimer
  constructor
  · refine (hsound.dequeue hentry).fail _ (hsound.queueArrived entry hentry)
      (hsound.unsettled entry hentry) ?_
    intro waiting hwaiting
    exact ((hsound.mem_erase hentry).mp hwaiting).2
  · intro _
    exact hfull (ne_nil_of_mem hentry)

omit hsound in
/-- The loop of `close` fails the entries it holds, as if it took them from the
queue one by one. -/
theorem Sound.failAll (entries : List Entry) (gate : BackgroundGate)
    (hsound : Sound { gate with queue := entries, closed := false }) :
    Sound { failAll entries gate with queue := [], closed := false } := by
  induction entries generalizing gate with
  | nil => exact hsound
  | cons entry rest ih =>
    have hhead : entry ∈ entry :: rest := mem_cons_self
    have hdequeued := hsound.dequeue hhead
    have hleft : (entry :: rest).erase entry = rest := erase_cons_head ..
    rw [BackgroundGate.dequeue, hleft] at hdequeued
    refine ih _ (hdequeued.fail (.closed entry.laneName)
      (hsound.queueArrived entry hhead) (hsound.unsettled entry hhead) ?_)
    intro waiting hwaiting
    have hsorted := hsound.queueSorted
    change ((entry :: rest).map Entry.id).Pairwise (· < ·) at hsorted
    rw [map_cons, pairwise_cons] at hsorted
    exact Nat.ne_of_gt (hsorted.1 waiting.id (mem_map_of_mem hwaiting))

theorem Sound.withClosed (closed : Bool) (hempty : closed = true -> gate.queue = []) :
    Sound { gate with closed := closed } :=
  { hsound with closedEmpty := hempty }

omit hsound in
theorem close_queue (gate : BackgroundGate) : gate.close.queue = [] :=
  failAll_queue ..

theorem Sound.close : Sound gate.close /\ Full gate.close := by
  have hfailed := Sound.failAll gate.queue { gate with closed := true, queue := [] }
    (hsound.withClosed false fun hclosed => absurd hclosed Bool.false_ne_true)
  have hsame : { gate.close with queue := [], closed := true } = gate.close := by
    have hqueue := close_queue gate
    have hclosed : gate.close.closed = true := failAll_closed ..
    rw [← hqueue, ← hclosed]
  constructor
  · rw [← hsame]
    exact hfailed.withClosed true fun _ => rfl
  · intro hwaits
    exact absurd (close_queue gate) hwaits

end

theorem Sound.start (hstart : gateSystem.start gate) : Sound gate /\ Full gate := by
  obtain ⟨capacity, maxWaitMs, hconstruct⟩ := hstart
  unfold construct at hconstruct
  split at hconstruct
  · cases hconstruct
  · split at hconstruct
    · cases hconstruct
    · rename_i hcapacity _
      cases hconstruct
      have hroom : (0 : Int) ≤ capacity := by omega
      constructor
      · refine ⟨rfl, hroom, .nil, .nil, ?_, ?_, ?_, ?_, ?_, ?_, ?_, ?_, ?_⟩ <;> simp
      · exact fun hwaits => absurd rfl hwaits

end

variable {label : Label}

theorem gateStep_release :
    gateStep gate (.release id) = some after <->
      gate.outcome id = some .granted /\ gate.release id = after := by
  simp [gateStep]

theorem Sound.step (hsound : Sound gate) (hfull : Full gate)
    (hstep : gateStep gate label = some after) : Sound after /\ Full after := by
  cases label with
  | acquire laneName now =>
    cases hstep
    exact hsound.acquire hfull laneName now
  | release id =>
    obtain ⟨houtcome, rfl⟩ := gateStep_release.mp hstep
    exact hsound.release hfull houtcome
  | deadline id now =>
    obtain ⟨entry, htimer, rfl⟩ := Option.map_eq_some_iff.mp hstep
    exact hsound.deadline hfull htimer now
  | close =>
    cases hstep
    exact hsound.close
  | reopen =>
    cases hstep
    exact ⟨hsound.withClosed false fun hclosed => absurd hclosed Bool.false_ne_true, hfull⟩

theorem sound_of_reachable (hreach : gateSystem.Reachable gate) : Sound gate /\ Full gate := by
  let Inv : BackgroundGate -> Prop := fun gate => Sound gate /\ Full gate
  have hstart : ∀ gate, gateSystem.start gate -> Inv gate := fun _ hstart => Sound.start hstart
  have hkeep : ∀ before label after, gateSystem.Reachable before -> Inv before ->
      gateSystem.step before label after -> Inv after :=
    fun _ _ _ _ hinv hstep => hinv.1.step hinv.2 hstep
  exact hreach.invariant hstart hkeep

theorem pulseOver_keeps {settled : Outcome} (entries : List Entry) (gate : BackgroundGate)
    (hsettled : gate.outcome id = some settled) :
    (BackgroundGate.pulseOver entries gate).outcome id = some settled := by
  induction entries generalizing gate with
  | nil => exact hsettled
  | cons entry rest ih =>
    unfold BackgroundGate.pulseOver
    split
    · exact ih _ (settle_keeps hsettled)
    · exact hsettled

theorem step_keeps_outcome {settled : Outcome} (hstep : gateStep gate label = some after)
    (hsettled : gate.outcome id = some settled) : after.outcome id = some settled := by
  cases label with
  | acquire laneName now =>
    cases hstep
    simp only [BackgroundGate.acquire]
    split
    · exact settle_keeps hsettled
    · split
      · exact settle_keeps hsettled
      · exact hsettled
  | release name =>
    obtain ⟨_, rfl⟩ := gateStep_release.mp hstep
    unfold BackgroundGate.release
    split
    · exact hsettled
    · exact pulseOver_keeps _ _ hsettled
  | deadline name now =>
    obtain ⟨entry, _, rfl⟩ := Option.map_eq_some_iff.mp hstep
    exact settle_keeps hsettled
  | close =>
    cases hstep
    exact failAll_keeps _ _ hsettled
  | reopen =>
    cases hstep
    exact hsettled

/-- What a gate promises at one moment: the count stays between zero and the
capacity and is the number of slots in use; the grants follow the arrivals and
come before everyone who still waits; nobody waits beside a free slot; and every
slot taken went to an acquisition that succeeded. -/
structure Fair (gate : BackgroundGate) : Prop where
  bounded : 0 ≤ gate.active /\ gate.active ≤ gate.capacity
  conserved : gate.active = gate.held.length
  inOrder : gate.grants.Pairwise (· < ·) /\
    ∀ id ∈ gate.grants, ∀ entry ∈ gate.queue, id < entry.id
  waitsWhenFull : gate.queue ≠ [] -> gate.active = gate.capacity
  succeeded : ∀ id ∈ gate.grants, gate.outcome id = some .granted

def nestedLabels : List Label :=
  [.acquire "outbox" 0, .acquire "outbox" 0, .acquire "index" 5, .deadline 1 120000,
    .release 0, .release 0, .acquire "index" 130000]

def nestedGate : Option BackgroundGate :=
  (construct 1 120000).toOption.bind fun gate => System.follow gateStep gate nestedLabels

end AnchorMind.Workers.PoolGate
