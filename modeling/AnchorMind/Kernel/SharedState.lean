import AnchorMind.Kernel.Transition
import Mathlib.Order.Nat

/-!
# Limits kept by a check under a lock

A counted resource has a limit.  Whoever holds its lock counts it and may then add
as much as the limit leaves; until the lock is given back nobody else adds to it,
except what is waived, which is kept on record.  What a system adds to a resource
stays within the limit when every step is one of three moves on its account.
-/

namespace AnchorMind.Kernel.Reservation

open Kernel.Transition List Function

/-- What there is, what the holder of the lock may still add, and what was added
without being checked against the limit. -/
structure Account where
  count : Nat
  held : Nat
  waived : Nat

inductive Moves (limit : Nat) (before after : Account) : Prop where
  /-- An allowance is granted as far as the limit leaves room for it. -/
  | grant (hcount : after.count ≤ before.count)
      (hroom : after.held = 0 \/ after.count + after.held ≤ limit)
      (hwaived : before.waived ≤ after.waived)
  /-- Something is added out of the allowance, or removed, or the allowance lapses. -/
  | spend (hspent : after.count + after.held ≤ before.count + before.held)
      (hwaived : before.waived ≤ after.waived)
  /-- Something is added outside the limit. -/
  | waive (hheld : after.held ≤ before.held)
      (hadded : after.count + before.waived ≤ before.count + after.waived)

/-- What there is and what may come stays below the limit, or below what there was
at first, apart from what was waived. -/
def Account.Bounded (limit origin : Nat) (account : Account) : Prop :=
  account.count + account.held ≤ max limit origin + account.waived

theorem Moves.bounded {limit origin : Nat} {before after : Account}
    (hmove : Moves limit before after) (hbounded : before.Bounded limit origin) :
    after.Bounded limit origin := by
  have hlimit : limit ≤ max limit origin := le_max_left limit origin
  unfold Account.Bounded at *
  cases hmove with
  | grant hcount hroom hwaived =>
    rcases hroom with hnone | hroom <;> omega
  | spend hspent hwaived => omega
  | waive hheld hadded => omega

variable {State Label : Type*} {system : System State Label} {account : State -> Account}
variable {limit origin : Nat}

theorem bounded_of_reachable
    (hstart : ∀ state, system.start state ->
      (account state).count ≤ origin /\ (account state).held = 0)
    (hstep : ∀ before label after, system.Reachable before ->
      system.step before label after -> Moves limit (account before) (account after))
    {state : State} (hreach : system.Reachable state) : (account state).Bounded limit origin := by
  let Inv : State -> Prop := fun state => (account state).Bounded limit origin
  have horigin : ∀ state, system.start state -> Inv state := by
    intro state hstate
    obtain ⟨hcount, hheld⟩ := hstart state hstate
    have hle : origin ≤ max limit origin := le_max_right limit origin
    change (account state).count + (account state).held ≤ _
    omega
  have hkeep : ∀ before label after, system.Reachable before -> Inv before ->
      system.step before label after -> Inv after :=
    fun before label after hbefore hbounded hmove =>
      (hstep before label after hbefore hmove).bounded hbounded
  exact hreach.invariant horigin hkeep

end AnchorMind.Kernel.Reservation

/-!
# Read, modify, write

Calls read a shared value, change it in private and write it back, and other calls write
between the two.  What a reader is interested in is a view of the value.  When a call writes
only over writes its own result does not miss, the view is that of the writes made one after
another.
-/

namespace AnchorMind.Kernel.ReadModifyWrite

open Kernel.Transition List Function

structure Update (Value Input Stamp View : Type*) where
  apply : Input -> Stamp -> Value -> Value
  view : Value -> View
  act : View -> Input -> View
  view_apply : ∀ input stamp value, view (apply input stamp value) = act (view value) input

structure Call (Value Input : Type*) where
  input : Input
  snapshot : Value
  /-- How many writes there were when the value was read. -/
  since : Nat
  finished : Bool

structure Shared (Value Input : Type*) where
  value : Value
  /-- The inputs written so far, the first first. -/
  written : List Input
  calls : List (Call Value Input)

inductive Event (Input Stamp : Type*) where
  | read (input : Input)
  | write (place : Nat) (stamp : Stamp)
  /-- The call gives up and writes nothing. -/
  | fail (place : Nat)

variable {Value Input Stamp View : Type*}

def Shared.finish (shared : Shared Value Input) (place : Nat) (call : Call Value Input) :
    Shared Value Input :=
  { shared with calls := shared.calls.set place { call with finished := true } }

def step (update : Update Value Input Stamp View) (shared : Shared Value Input) :
    Event Input Stamp -> Option (Shared Value Input)
  | .read input =>
    let call : Call Value Input :=
      { input := input, snapshot := shared.value, since := shared.written.length,
        finished := false }
    some { shared with calls := shared.calls ++ [call] }
  | .write place stamp =>
    match shared.calls[place]? with
    | some call =>
      if call.finished then none
      else
        some { shared.finish place call with
          value := update.apply call.input stamp call.snapshot
          written := shared.written ++ [call.input] }
    | none => none
  | .fail place =>
    match shared.calls[place]? with
    | some call => if call.finished then none else some (shared.finish place call)
    | none => none

def initial (value : Value) : Shared Value Input where
  value := value
  written := []
  calls := []

def system (update : Update Value Input Stamp View) (value : Value) :
    System (Shared Value Input) (Event Input Stamp) where
  start shared := shared = initial value
  step before event after := step update before event = some after

def replay (update : Update Value Input Stamp View) (view : View) (inputs : List Input) : View :=
  inputs.foldl update.act view

def Harmless (update : Update Value Input Stamp View) (before : Shared Value Input) :
    Event Input Stamp -> Prop
  | .write place _ => ∀ call, before.calls[place]? = some call ->
      update.act (replay update (update.view call.snapshot) (before.written.drop call.since))
        call.input = update.act (update.view call.snapshot) call.input
  | _ => True

variable {update : Update Value Input Stamp View} {value : Value}

structure Replayed (update : Update Value Input Stamp View) (value : Value)
    (shared : Shared Value Input) : Prop where
  current : update.view shared.value = replay update (update.view value) shared.written
  since : ∀ {place : Nat} {call : Call Value Input}, shared.calls[place]? = some call ->
    call.since ≤ shared.written.length
  snapshot : ∀ {place : Nat} {call : Call Value Input}, shared.calls[place]? = some call ->
    update.view call.snapshot =
      replay update (update.view value) (shared.written.take call.since)

theorem replay_append (view : View) (front back : List Input) :
    replay update view (front ++ back) = replay update (replay update view front) back :=
  foldl_append

variable {shared : Shared Value Input} {call : Call Value Input}

theorem Replayed.overtaken (hreplayed : Replayed update value shared) {place : Nat}
    (hcall : shared.calls[place]? = some call) :
    update.view shared.value =
      replay update (update.view call.snapshot) (shared.written.drop call.since) := by
  rw [hreplayed.snapshot hcall, ← replay_append, take_append_drop]
  exact hreplayed.current

theorem mem_calls_set {calls : List (Call Value Input)} {place other : Nat}
    {call found : Call Value Input} (hcall : calls[place]? = some call)
    (hfound : (calls.set place { call with finished := true })[other]? = some found) :
    ∃ old, calls[other]? = some old /\ found.since = old.since /\
      found.snapshot = old.snapshot := by
  rw [getElem?_set] at hfound
  split at hfound
  · rename_i hsame
    split at hfound
    · cases hfound
      exact ⟨call, hsame ▸ hcall, rfl, rfl⟩
    · cases hfound
  · exact ⟨found, hfound, rfl, rfl⟩

theorem Replayed.finish (hreplayed : Replayed update value shared) {place : Nat}
    (hcall : shared.calls[place]? = some call) :
    Replayed update value (shared.finish place call) := by
  constructor
  · exact hreplayed.current
  · intro other found hfound
    obtain ⟨old, hold, hsince, -⟩ := mem_calls_set hcall hfound
    rw [hsince]
    exact hreplayed.since hold
  · intro other found hfound
    obtain ⟨old, hold, hsince, hsnapshot⟩ := mem_calls_set hcall hfound
    rw [hsince, hsnapshot]
    exact hreplayed.snapshot hold

theorem Replayed.write (hreplayed : Replayed update value shared) {input : Input} {now : Value}
    (hnow : update.view now = update.act (update.view shared.value) input) :
    Replayed update value
      { shared with value := now, written := shared.written ++ [input] } := by
  constructor
  · rw [hnow, hreplayed.current, replay_append]
    rfl
  · intro place call hcall
    have hbefore := hreplayed.since hcall
    rw [length_append]
    omega
  · intro place call hcall
    rw [take_append_of_le_length (hreplayed.since hcall)]
    exact hreplayed.snapshot hcall

theorem Replayed.step {before after : Shared Value Input} {event : Event Input Stamp}
    (hreplayed : Replayed update value before) (hstep : step update before event = some after)
    (hharmless : Harmless update before event) : Replayed update value after := by
  cases event with
  | read input =>
    cases hstep
    constructor
    · exact hreplayed.current
    · intro place call hcall
      rw [getElem?_append] at hcall
      split at hcall
      · exact hreplayed.since hcall
      · obtain rfl := mem_singleton.mp (mem_of_getElem? hcall)
        exact Nat.le_refl _
    · intro place call hcall
      rw [getElem?_append] at hcall
      split at hcall
      · exact hreplayed.snapshot hcall
      · obtain rfl := mem_singleton.mp (mem_of_getElem? hcall)
        rw [take_length]
        exact hreplayed.current
  | write place stamp =>
    simp only [ReadModifyWrite.step] at hstep
    split at hstep
    · rename_i call hcall
      split at hstep
      · cases hstep
      · cases hstep
        refine (hreplayed.finish hcall).write ?_
        calc update.view (update.apply call.input stamp call.snapshot)
            = update.act (update.view call.snapshot) call.input :=
              update.view_apply call.input stamp call.snapshot
          _ = update.act (replay update (update.view call.snapshot)
                (before.written.drop call.since)) call.input := (hharmless call hcall).symm
          _ = update.act (update.view before.value) call.input := by
              rw [← hreplayed.overtaken hcall]
    · cases hstep
  | fail place =>
    simp only [ReadModifyWrite.step] at hstep
    split at hstep
    · rename_i call hcall
      split at hstep
      · cases hstep
      · cases hstep
        exact hreplayed.finish hcall
    · cases hstep

theorem replayed_of_reachable {condition : Shared Value Input -> Event Input Stamp -> Prop}
    (hharmless : ∀ before event, Replayed update value before -> condition before event ->
      Harmless update before event)
    (hreach : ((system update value).restrict condition).Reachable shared) :
    Replayed update value shared := by
  have hstart : ∀ origin, origin = initial value -> Replayed update value origin := by
    rintro origin rfl
    constructor
    · rfl
    · intro place call hcall
      cases hcall
    · intro place call hcall
      cases hcall
  have hkeep : ∀ before event after,
      ((system update value).restrict condition).Reachable before ->
        Replayed update value before ->
          ((system update value).restrict condition).step before event after ->
            Replayed update value after := by
    intro before event after _ hreplayed hstep
    exact hreplayed.step hstep.1 (hharmless before event hreplayed hstep.2)
  exact hreach.invariant hstart hkeep

end AnchorMind.Kernel.ReadModifyWrite

/-!
# Rewriting a shared list from a snapshot

Writers push an item each, read the whole list, decide in private what to keep of it,
and rewrite the list by clearing it and pushing the kept items one by one.  Items may
also be removed in place.  Other steps fall between any two of these.  What a writer
clears and has not read is lost; when every clearing covers the list, nothing is.
-/

namespace AnchorMind.Kernel.SnapshotRewrite

open Kernel.Transition List Function

structure Policy (Item Removal : Type*) where
  keeps : List Item -> List Item
  drops : List Item -> List Item
  removes : Removal -> Item -> Bool
  covers : ∀ {items : List Item} {item : Item},
    item ∈ items -> item ∈ keeps items \/ item ∈ drops items

/-- How far a writer is. -/
inductive Phase (Item : Type*) where
  | pushed
  | holding (snapshot : List Item)
  | writing (rest : List Item)
  | finished
  deriving DecidableEq

structure Shared (Writer Item : Type*) where
  items : List Item
  phase : Writer -> Option (Phase Item)
  stored : List Item
  selected : List Item

inductive Event (Writer Item Removal : Type*) where
  | push (writer : Writer) (item : Item)
  | read (writer : Writer)
  | settle (writer : Writer)
  | clear (writer : Writer)
  | write (writer : Writer)
  | remove (removal : Removal)

section

variable {Writer Item Removal : Type*} [DecidableEq Writer]

def Shared.empty : Shared Writer Item where
  items := []
  phase := fun _ => none
  stored := []
  selected := []

def Shared.enter (shared : Shared Writer Item) (writer : Writer) (phase : Phase Item) :
    Shared Writer Item :=
  { shared with phase := update shared.phase writer (some phase) }

def step (policy : Policy Item Removal) (shared : Shared Writer Item) :
    Event Writer Item Removal -> Option (Shared Writer Item)
  | .push writer item =>
    match shared.phase writer with
    | none =>
      some (Shared.enter
        { shared with
          items := shared.items ++ [item]
          stored := shared.stored ++ [item] } writer .pushed)
    | some _ => none
  | .read writer =>
    match shared.phase writer with
    | some .pushed => some (shared.enter writer (.holding shared.items))
    | _ => none
  | .settle writer =>
    match shared.phase writer with
    | some (.holding snapshot) =>
      if (policy.drops snapshot).isEmpty then some (shared.enter writer .finished) else none
    | _ => none
  | .clear writer =>
    match shared.phase writer with
    | some (.holding snapshot) =>
      if (policy.drops snapshot).isEmpty then none
      else
        some (Shared.enter
          { shared with
            items := []
            selected := shared.selected ++ policy.drops snapshot } writer
          (.writing (policy.keeps snapshot)))
    | _ => none
  | .write writer =>
    match shared.phase writer with
    | some (.writing []) => some (shared.enter writer .finished)
    | some (.writing (item :: rest)) =>
      some (Shared.enter { shared with items := shared.items ++ [item] } writer
        (.writing rest))
    | _ => none
  | .remove removal =>
    some { shared with
      items := shared.items.filter fun item => !policy.removes removal item
      selected := shared.selected ++ shared.items.filter (policy.removes removal) }

def system (policy : Policy Item Removal) :
    System (Shared Writer Item) (Event Writer Item Removal) where
  start := fun shared => shared = .empty
  step := fun before event after => step policy before event = some after

/-- The item is there, was chosen to go, or is about to be written back. -/
def Accounted (shared : Shared Writer Item) (item : Item) : Prop :=
  item ∈ shared.items \/ item ∈ shared.selected \/
    ∃ writer rest, shared.phase writer = some (.writing rest) /\ item ∈ rest

def Covered (before : Shared Writer Item) : Event Writer Item Removal -> Prop
  | .clear writer => ∀ snapshot, before.phase writer = some (.holding snapshot) ->
      ∀ item ∈ before.items, item ∈ snapshot
  | _ => True

instance [DecidableEq Item] (before : Shared Writer Item) :
    (event : Event Writer Item Removal) -> Decidable (Covered before event)
  | .clear writer =>
    match hphase : before.phase writer with
    | some (.holding snapshot) =>
      decidable_of_iff (∀ item ∈ before.items, item ∈ snapshot) (by
        simp [Covered, hphase])
    | some .pushed => isTrue fun _ hholding => by simp [hphase] at hholding
    | some (.writing _) => isTrue fun _ hholding => by simp [hphase] at hholding
    | some .finished => isTrue fun _ hholding => by simp [hphase] at hholding
    | none => isTrue fun _ hholding => by simp [hphase] at hholding
  | .push _ _ => isTrue trivial
  | .read _ => isTrue trivial
  | .settle _ => isTrue trivial
  | .write _ => isTrue trivial
  | .remove _ => isTrue trivial

def Event.writer? : Event Writer Item Removal -> Option Writer
  | .push writer _ => some writer
  | .read writer => some writer
  | .settle writer => some writer
  | .clear writer => some writer
  | .write writer => some writer
  | .remove _ => none

/-- No rewrite is under way. -/
def Settled (shared : Shared Writer Item) : Prop :=
  ∀ writer item rest, shared.phase writer ≠ some (.writing (item :: rest))

variable {policy : Policy Item Removal} {shared before after : Shared Writer Item} {writer : Writer}
  {event : Event Writer Item Removal}

theorem step_phase_of_ne (hstep : step policy before event = some after)
    (hother : event.writer? ≠ some writer) : after.phase writer = before.phase writer := by
  have hframe : ∀ (shared : Shared Writer Item) (own : Writer) (phase : Phase Item),
      some own ≠ some writer -> (shared.enter own phase).phase writer = shared.phase writer := by
    intro shared own phase hne
    refine update_of_ne ?_ _ _
    rintro rfl
    exact hne rfl
  cases event with
  | push own item =>
    simp only [step] at hstep
    split at hstep
    · cases hstep
      exact hframe _ own _ hother
    · cases hstep
  | read own =>
    simp only [step] at hstep
    split at hstep
    · cases hstep
      exact hframe _ own _ hother
    · cases hstep
  | settle own =>
    simp only [step] at hstep
    split at hstep
    · split at hstep
      · cases hstep
        exact hframe _ own _ hother
      · cases hstep
    · cases hstep
  | clear own =>
    simp only [step] at hstep
    split at hstep
    · split at hstep
      · cases hstep
      · cases hstep
        exact hframe _ own _ hother
    · cases hstep
  | write own =>
    simp only [step] at hstep
    split at hstep
    · cases hstep
      exact hframe _ own _ hother
    · cases hstep
      exact hframe _ own _ hother
    · cases hstep
  | remove removal =>
    simp only [step] at hstep
    cases hstep
    rfl

variable {events : List (Event Writer Item Removal)}

theorem run_phase_of_ne (hrun : (system policy).Run before events after)
    (hother : ∀ event ∈ events, event.writer? ≠ some writer) :
    after.phase writer = before.phase writer := by
  induction hrun with
  | nil => rfl
  | cons hstep _ ih =>
    rw [ih fun later hlater => hother later (mem_cons_of_mem _ hlater)]
    exact step_phase_of_ne hstep (hother _ mem_cons_self)

theorem settled_of_run (hrun : (system policy).Run Shared.empty events shared)
    (hfinished : ∀ event ∈ events, ∀ writer, event.writer? = some writer ->
      shared.phase writer = some .finished) : Settled shared := by
  intro writer item rest hwriting
  rcases Classical.em (∃ event ∈ events, event.writer? = some writer) with
    ⟨event, hevent, hown⟩ | hnobody
  · rw [hfinished event hevent writer hown] at hwriting
    cases hwriting
  · have hnone : shared.phase writer = (Shared.empty : Shared Writer Item).phase writer :=
      run_phase_of_ne hrun fun event hevent hown => hnobody ⟨event, hevent, hown⟩
    rw [hnone] at hwriting
    cases hwriting

variable {item : Item}

theorem Accounted.enter {phase : Phase Item} (haccounted : Accounted shared item)
    (hnot : ∀ rest, shared.phase writer = some (.writing rest) -> item ∉ rest) :
    Accounted (shared.enter writer phase) item := by
  rcases haccounted with hthere | hselected | ⟨other, rest, hphase, hmem⟩
  · exact .inl hthere
  · exact .inr (.inl hselected)
  · have hother : other ≠ writer := by
      rintro rfl
      exact hnot rest hphase hmem
    refine .inr (.inr ⟨other, rest, ?_, hmem⟩)
    rw [<- hphase]
    exact update_of_ne hother _ _

omit [DecidableEq Writer] in
theorem Accounted.grow {item : Item} {items stored selected : List Item}
    (haccounted : Accounted shared item) (hitems : shared.items ⊆ items)
    (hselected : shared.selected ⊆ selected) :
    Accounted { shared with items := items, stored := stored, selected := selected } item := by
  rcases haccounted with hthere | hgone | hwaiting
  · exact .inl (hitems hthere)
  · exact .inr (.inl (hselected hgone))
  · exact .inr (.inr hwaiting)

def Conserved (shared : Shared Writer Item) : Prop :=
  ∀ item ∈ shared.stored, Accounted shared item

namespace Conserved

section

variable (hconserved : Conserved shared)
include hconserved

theorem push (hidle : shared.phase writer = none) :
    Conserved (Shared.enter
      { shared with
        items := shared.items ++ [item]
        stored := shared.stored ++ [item] } writer .pushed) := by
  intro other hother
  rcases mem_append.mp hother with hold | hnew
  · refine Accounted.enter ?_ fun rest hphase => ?_
    · exact (hconserved other hold).grow (subset_append_left _ _) (Subset.refl _)
    · have hwriting : shared.phase writer = some (.writing rest) := hphase
      rw [hidle] at hwriting
      cases hwriting
  · exact .inl (mem_append_right _ hnew)

theorem enter {phase : Phase Item}
    (hnot : ∀ rest, shared.phase writer = some (.writing rest) -> rest = []) :
    Conserved (shared.enter writer phase) := by
  intro item hitem
  refine (hconserved item hitem).enter fun rest hphase => ?_
  rw [hnot rest hphase]
  exact not_mem_nil

/-- What is cleared was read, and is dropped by choice or waits to be written. -/
theorem clear {snapshot : List Item} (hphase : shared.phase writer = some (.holding snapshot))
    (hcovered : ∀ item ∈ shared.items, item ∈ snapshot) :
    Conserved (Shared.enter
      { shared with
        items := []
        selected := shared.selected ++ policy.drops snapshot } writer
      (.writing (policy.keeps snapshot))) := by
  intro item hitem
  rcases hconserved item hitem with hthere | hgone | ⟨other, rest, hother, hmem⟩
  · rcases policy.covers (hcovered item hthere) with hkept | hdropped
    · exact .inr (.inr ⟨writer, _, update_self .., hkept⟩)
    · exact .inr (.inl (mem_append_right _ hdropped))
  · exact .inr (.inl (mem_append_left _ hgone))
  · have hne : other ≠ writer := by
      rintro rfl
      rw [hphase] at hother
      cases hother
    refine .inr (.inr ⟨other, rest, ?_, hmem⟩)
    rw [<- hother]
    exact update_of_ne hne _ _

theorem write {rest : List Item} (hphase : shared.phase writer = some (.writing (item :: rest))) :
    Conserved (Shared.enter { shared with items := shared.items ++ [item] } writer
      (.writing rest)) := by
  intro other hstored
  rcases hconserved other hstored with hthere | hgone | ⟨waiting, items, hwaiting, hmem⟩
  · exact .inl (mem_append_left _ hthere)
  · exact .inr (.inl hgone)
  · rcases Classical.em (waiting = writer) with rfl | hne
    · rw [hphase] at hwaiting
      cases hwaiting
      rcases mem_cons.mp hmem with rfl | hrest
      · exact .inl (mem_append_right _ (mem_singleton.mpr rfl))
      · exact .inr (.inr ⟨waiting, rest, update_self .., hrest⟩)
    · refine .inr (.inr ⟨waiting, items, ?_, hmem⟩)
      rw [<- hwaiting]
      exact update_of_ne hne _ _

omit [DecidableEq Writer] in
theorem remove (removal : Removal) :
    Conserved { shared with
      items := shared.items.filter fun item => !policy.removes removal item
      selected := shared.selected ++ shared.items.filter (policy.removes removal) } := by
  intro item hstored
  rcases hconserved item hstored with hthere | hgone | hwaiting
  · cases hremoved : policy.removes removal item with
    | true => exact .inr (.inl (mem_append_right _ (mem_filter.mpr ⟨hthere, hremoved⟩)))
    | false => exact .inl (mem_filter.mpr ⟨hthere, by simp [hremoved]⟩)
  · exact .inr (.inl (mem_append_left _ hgone))
  · exact .inr (.inr hwaiting)

end

theorem step (hconserved : Conserved before)
    (hstep : SnapshotRewrite.step policy before event = some after)
    (hcovered : Covered before event) : Conserved after := by
  cases event with
  | push writer item =>
    simp only [SnapshotRewrite.step] at hstep
    split at hstep
    · rename_i hidle
      cases hstep
      exact hconserved.push hidle
    · cases hstep
  | read writer =>
    simp only [SnapshotRewrite.step] at hstep
    split at hstep
    · rename_i hpushed
      cases hstep
      exact hconserved.enter fun rest hphase => by simp [hpushed] at hphase
    · cases hstep
  | settle writer =>
    simp only [SnapshotRewrite.step] at hstep
    split at hstep
    · rename_i snapshot hholding
      split at hstep
      · cases hstep
        exact hconserved.enter fun rest hphase => by simp [hholding] at hphase
      · cases hstep
    · cases hstep
  | clear writer =>
    simp only [SnapshotRewrite.step] at hstep
    split at hstep
    · rename_i snapshot hholding
      split at hstep
      · cases hstep
      · cases hstep
        exact hconserved.clear hholding (hcovered snapshot hholding)
    · cases hstep
  | write writer =>
    simp only [SnapshotRewrite.step] at hstep
    split at hstep
    · rename_i hlast
      cases hstep
      refine hconserved.enter fun rest hphase => ?_
      rw [hlast] at hphase
      cases hphase
      rfl
    · rename_i item rest hnext
      cases hstep
      exact hconserved.write hnext
    · cases hstep
  | remove removal =>
    simp only [SnapshotRewrite.step] at hstep
    cases hstep
    exact hconserved.remove removal

end Conserved

theorem conserved_of_reachable (hreach : ((system policy).restrict Covered).Reachable shared) :
    Conserved shared := by
  refine System.Reachable.invariant ?_ ?_ hreach
  · rintro origin rfl item hitem
    exact absurd hitem not_mem_nil
  · intro before event after _ hconserved hstep
    exact hconserved.step hstep.1 hstep.2

omit [DecidableEq Writer] in
theorem Conserved.of_settled (hconserved : Conserved shared) (hsettled : Settled shared)
    {item : Item} (hstored : item ∈ shared.stored) :
    item ∈ shared.items \/ item ∈ shared.selected := by
  rcases hconserved item hstored with hthere | hgone | ⟨writer, rest, hphase, hmem⟩
  · exact .inl hthere
  · exact .inr hgone
  · cases rest with
    | nil => cases hmem
    | cons next rest => exact absurd hphase (hsettled writer next rest)

end

end AnchorMind.Kernel.SnapshotRewrite
