import Mathlib.Data.List.Dedup

/-!
# Paths of a bounded number of hops

A search by levels finds what is a given number of hops away.  Leaving out what lies
behind the target loses no path to the target.
-/

namespace AnchorMind.Kernel.BoundedPaths

variable {Node : Type*}

inductive Hops (step : Node -> Node -> Prop) : Nat -> Node -> Node -> Prop where
  | here (node : Node) : Hops step 0 node node
  | hop {count : Nat} {node next last : Node} (first : step node next)
      (rest : Hops step count next last) : Hops step (count + 1) node last

def ReachesWithin (step : Node -> Node -> Prop) (bound : Nat) (node target : Node) : Prop :=
  ∃ count, 0 < count /\ count ≤ bound /\ Hops step count node target

namespace Hops

variable {step more : Node -> Node -> Prop} {count : Nat} {node next last : Node}

theorem mono (hmore : ∀ a b, step a b -> more a b) (hops : Hops step count node last) :
    Hops more count node last := by
  induction hops with
  | here node => exact here node
  | hop first rest ih => exact hop (hmore _ _ first) ih

theorem snoc (hops : Hops step count node next) (final : step next last) :
    Hops step (count + 1) node last := by
  induction hops with
  | here node => exact hop final (here last)
  | hop first rest ih => exact hop first (ih final)

theorem exists_last (hops : Hops step (count + 1) node last) :
    ∃ before, Hops step count node before /\ step before last := by
  induction count generalizing node with
  | zero =>
    cases hops with
    | hop first rest =>
      cases rest
      exact ⟨node, here node, first⟩
  | succ count ih =>
    cases hops with
    | hop first rest =>
      obtain ⟨before, hbefore, hlast⟩ := ih rest
      exact ⟨before, hop first hbefore, hlast⟩

theorem avoid (hops : Hops step count node last) :
    ∃ less, less ≤ count /\ Hops (fun a b => a ≠ last /\ step a b) less node last := by
  induction hops with
  | here node => exact ⟨0, Nat.le_refl 0, here node⟩
  | @hop count node next last first rest ih =>
    by_cases hnode : node = last
    · subst hnode
      exact ⟨0, Nat.zero_le _, here node⟩
    · obtain ⟨less, hless, hrest⟩ := ih
      exact ⟨less + 1, Nat.succ_le_succ hless, hop ⟨hnode, first⟩ hrest⟩

end Hops

section

variable [DecidableEq Node] (expand : Node -> List Node)

def level (first : List Node) : Nat -> List Node
  | 0 => first.dedup
  | depth + 1 => ((level first depth).flatMap expand).dedup

variable {expand} {first : List Node} {depth : Nat} {node : Node}

theorem mem_level :
    node ∈ level expand first depth <->
      ∃ start ∈ first, Hops (fun a b => b ∈ expand a) depth start node := by
  induction depth generalizing node with
  | zero =>
    rw [level, List.mem_dedup]
    constructor
    · intro hnode
      exact ⟨node, hnode, .here node⟩
    · rintro ⟨start, hstart, hops⟩
      cases hops
      exact hstart
  | succ depth ih =>
    rw [level, List.mem_dedup, List.mem_flatMap]
    constructor
    · rintro ⟨before, hbefore, hlast⟩
      obtain ⟨start, hstart, hops⟩ := ih.mp hbefore
      exact ⟨start, hstart, hops.snoc hlast⟩
    · rintro ⟨start, hstart, hops⟩
      obtain ⟨before, hbefore, hlast⟩ := hops.exists_last
      exact ⟨before, ih.mpr ⟨start, hstart, hbefore⟩, hlast⟩

end

end AnchorMind.Kernel.BoundedPaths
