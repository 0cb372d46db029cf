import Mathlib.Data.Set.Defs

/-!
# Labelled transition systems and the invariant rule

A system is a set of start states and a labelled step relation.  A run is a
finite list of labels between two states; reachability, invariants, and the
restriction of a system to the steps that meet a side condition are stated once
for every protocol model of the development.
-/

namespace AnchorMind.Kernel.Transition

/-- A labelled transition system over states `State` and labels `Label`. -/
structure System (State Label : Type*) where
  start : State -> Prop
  step : State -> Label -> State -> Prop

namespace System

variable {State Label : Type*}

inductive Run (system : System State Label) : State -> List Label -> State -> Prop where
  | nil (state : State) : Run system state [] state
  | cons {first middle last : State} {label : Label} {labels : List Label} :
      system.step first label middle ->
      Run system middle labels last ->
      Run system first (label :: labels) last

def Reachable (system : System State Label) (state : State) : Prop :=
  ∃ origin labels, system.start origin /\ system.Run origin labels state

/-- The same start states, with only the steps that meet `condition`. -/
def restrict (system : System State Label)
    (condition : State -> Label -> Prop) : System State Label where
  start := system.start
  step := fun before label after =>
    system.step before label after /\ condition before label

def follow (step : State -> Label -> Option State) : State -> List Label -> Option State
  | state, [] => some state
  | state, label :: labels => (step state label).bind fun next => follow step next labels

namespace Run

variable {system : System State Label}

theorem single {before after : State} {label : Label} (hstep : system.step before label after) :
    system.Run before [label] after :=
  .cons hstep (.nil after)

theorem append {first middle last : State} {front back : List Label}
    (hfront : system.Run first front middle) (hback : system.Run middle back last) :
    system.Run first (front ++ back) last := by
  induction hfront with
  | nil => exact hback
  | cons hstep _ ih => exact .cons hstep (ih hback)

theorem of_follow {step : State -> Label -> Option State}
    (hsystem : ∀ before label after, step before label = some after ->
      system.step before label after) {first last : State} {labels : List Label}
    (hfollow : follow step first labels = some last) : system.Run first labels last := by
  induction labels generalizing first with
  | nil =>
    obtain rfl : first = last := by simpa [follow] using hfollow
    exact .nil first
  | cons label labels ih =>
    obtain ⟨next, hstep, hrest⟩ := Option.bind_eq_some_iff.mp hfollow
    exact .cons (hsystem first label next hstep) (ih hrest)

theorem of_follow_restrict {step : State -> Label -> Option State}
    {condition : State -> Label -> Prop} [∀ before label, Decidable (condition before label)]
    (hsystem : ∀ before label after, step before label = some after ->
      system.step before label after) {first last : State} {labels : List Label}
    (hfollow : follow (fun before label =>
      if condition before label then step before label else none) first labels = some last) :
    (system.restrict condition).Run first labels last := by
  refine of_follow (fun before label after hguarded => ?_) hfollow
  split at hguarded
  · rename_i hcondition
    exact ⟨hsystem before label after hguarded, hcondition⟩
  · cases hguarded

theorem preserves {Inv : State -> Prop}
    (hstep : ∀ before label after, Inv before -> system.step before label after -> Inv after)
    {first last : State} {labels : List Label} (hrun : system.Run first labels last)
    (hinv : Inv first) : Inv last := by
  induction hrun with
  | nil => exact hinv
  | cons hmove _ ih => exact ih (hstep _ _ _ hinv hmove)

theorem ofRestrict {condition : State -> Label -> Prop} {first last : State} {labels : List Label}
    (hrun : (system.restrict condition).Run first labels last) : system.Run first labels last := by
  induction hrun with
  | nil => exact .nil _
  | cons hstep _ ih => exact .cons hstep.1 ih

end Run

variable {system : System State Label}

theorem Reachable.ofStart {state : State} (hstart : system.start state) : system.Reachable state :=
  ⟨state, [], hstart, .nil state⟩

theorem Reachable.run {first last : State} {labels : List Label} (hreach : system.Reachable first)
    (hrun : system.Run first labels last) : system.Reachable last := by
  obtain ⟨origin, front, hstart, hfront⟩ := hreach
  exact ⟨origin, front ++ labels, hstart, hfront.append hrun⟩

theorem Reachable.step {before after : State} {label : Label} (hreach : system.Reachable before)
    (hstep : system.step before label after) : system.Reachable after :=
  hreach.run (.single hstep)

theorem Reachable.ofRestrict {condition : State -> Label -> Prop} {state : State}
    (hreach : (system.restrict condition).Reachable state) : system.Reachable state := by
  obtain ⟨origin, labels, hstart, hrun⟩ := hreach
  exact ⟨origin, labels, hstart, hrun.ofRestrict⟩

theorem Reachable.invariant {Inv : State -> Prop}
    (hstart : ∀ state, system.start state -> Inv state)
    (hstep : ∀ before label after,
      system.Reachable before -> Inv before ->
        system.step before label after -> Inv after) {state : State}
    (hreach : system.Reachable state) : Inv state := by
  obtain ⟨origin, labels, horigin, hrun⟩ := hreach
  let Both : State -> Prop := fun state => system.Reachable state /\ Inv state
  have hkeep : ∀ before label after,
      Both before -> system.step before label after -> Both after := by
    rintro before label after ⟨hbefore, hinv⟩ hmove
    exact ⟨hbefore.step hmove, hstep before label after hbefore hinv hmove⟩
  have hboth : Both state := hrun.preserves hkeep ⟨.ofStart horigin, hstart origin horigin⟩
  exact hboth.2

end System

end AnchorMind.Kernel.Transition
