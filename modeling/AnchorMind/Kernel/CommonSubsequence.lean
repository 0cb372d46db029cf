import Mathlib.Data.List.Basic

/-!
# Longest common subsequences

The length of a longest common subsequence by recursion on the heads, and the
rules by which a subsequence read off the heads stays a longest one.
-/

namespace AnchorMind.Kernel.CommonSubsequence

variable {Item : Type*}

structure Longest (common left right : List Item) : Prop where
  sublist_left : common.Sublist left
  sublist_right : common.Sublist right
  longest : ∀ other : List Item, other.Sublist left -> other.Sublist right ->
    other.length ≤ common.length

theorem Longest.nil_left (right : List Item) : Longest [] [] right :=
  ⟨List.Sublist.refl [], List.nil_sublist right, fun _ hleft _ => hleft.length_le⟩

theorem Longest.nil_right (left : List Item) : Longest [] left [] :=
  ⟨List.nil_sublist left, List.Sublist.refl [], fun _ _ hright => hright.length_le⟩

variable {common left right : List Item}

theorem Longest.cons (hlongest : Longest common left right) (item : Item) :
    Longest (item :: common) (item :: left) (item :: right) := by
  refine ⟨hlongest.sublist_left.cons_cons item, hlongest.sublist_right.cons_cons item, ?_⟩
  intro other hleft hright
  have htail := hlongest.longest other.tail hleft.tail hright.tail
  rw [List.length_tail] at htail
  rw [List.length_cons]
  omega

variable {x y : Item}

theorem sublist_of_ne (hne : x ≠ y) {other left right : List Item}
    (hleft : other.Sublist (x :: left)) (hright : other.Sublist (y :: right)) :
    other.Sublist left \/ other.Sublist right := by
  cases hleft with
  | cons _ hleft => exact .inl hleft
  | cons_cons _ hleft =>
    cases hright with
    | cons _ hright => exact .inr hright
    | cons_cons _ _ => exact absurd rfl hne

theorem Longest.of_left (hne : x ≠ y) {common other left right : List Item}
    (hlongest : Longest common left (y :: right)) (hother : Longest other (x :: left) right)
    (hle : other.length ≤ common.length) : Longest common (x :: left) (y :: right) := by
  refine ⟨hlongest.sublist_left.cons x, hlongest.sublist_right, fun third hleft hright => ?_⟩
  rcases sublist_of_ne hne hleft hright with hin | hin
  · exact hlongest.longest third hin hright
  · exact Nat.le_trans (hother.longest third hleft hin) hle

theorem Longest.symm (hlongest : Longest common left right) : Longest common right left :=
  ⟨hlongest.sublist_right, hlongest.sublist_left, fun other hright hleft =>
    hlongest.longest other hleft hright⟩

theorem Longest.of_right (hne : x ≠ y) {common other left right : List Item}
    (hlongest : Longest common (x :: left) right) (hother : Longest other left (y :: right))
    (hle : other.length ≤ common.length) : Longest common (x :: left) (y :: right) :=
  (hlongest.symm.of_left hne.symm hother.symm hle).symm

variable [DecidableEq Item]

def lcsLength : List Item -> List Item -> Nat
  | [], _ => 0
  | _ :: _, [] => 0
  | x :: left, y :: right =>
    if x = y then lcsLength left right + 1
    else max (lcsLength left (y :: right)) (lcsLength (x :: left) right)

@[simp] theorem lcsLength_nil_left (right : List Item) : lcsLength [] right = 0 := by rw [lcsLength]

@[simp] theorem lcsLength_nil_right (left : List Item) : lcsLength left [] = 0 := by
  cases left <;> rw [lcsLength]

theorem lcsLength_cons_cons (x y : Item) (left right : List Item) :
    lcsLength (x :: left) (y :: right) =
      if x = y then lcsLength left right + 1
      else max (lcsLength left (y :: right)) (lcsLength (x :: left) right) := by
  rw [lcsLength]

theorem exists_longest (left right : List Item) :
    ∃ common, Longest common left right /\ common.length = lcsLength left right := by
  induction left, right using lcsLength.induct with
  | case1 right => exact ⟨[], .nil_left right, by simp⟩
  | case2 x left => exact ⟨[], .nil_right (x :: left), by simp⟩
  | case3 left x right ih =>
    obtain ⟨common, hlongest, hlength⟩ := ih
    exact ⟨x :: common, hlongest.cons x, by simp [lcsLength_cons_cons, hlength]⟩
  | case4 x left y right hne hdrop hadd =>
    obtain ⟨first, hfirst, hfirstLength⟩ := hdrop
    obtain ⟨second, hsecond, hsecondLength⟩ := hadd
    rw [lcsLength_cons_cons, if_neg hne, ← hfirstLength, ← hsecondLength]
    rcases Nat.le_total second.length first.length with hle | hle
    · exact ⟨first, hfirst.of_left hne hsecond hle, (Nat.max_eq_left hle).symm⟩
    · exact ⟨second, hsecond.of_right hne hfirst hle, (Nat.max_eq_right hle).symm⟩

theorem Longest.length_eq (hlongest : Longest common left right) :
    common.length = lcsLength left right := by
  obtain ⟨other, hother, hlength⟩ := exists_longest left right
  rw [← hlength]
  exact Nat.le_antisymm (hother.longest common hlongest.sublist_left hlongest.sublist_right)
    (hlongest.longest other hother.sublist_left hother.sublist_right)

end AnchorMind.Kernel.CommonSubsequence
