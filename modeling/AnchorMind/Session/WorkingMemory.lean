import Mathlib.Algebra.GroupWithZero.Nat
import Mathlib.Algebra.Order.Ring.Rat
import AnchorMind.Kernel.SharedState

/-!
# The working memory of a session

A session's working memory is a Redis list.  An add pushes its entry and then keeps the
list within a token budget: it reads the list, chooses in the process what to evict, and
rewrites the list with a pipeline of `DEL` and `RPUSH`.  Entries named by their id are
evicted by a script that Redis runs in one go.  The expiry of an idle list is left out.
-/

namespace AnchorMind.Session.WorkingMemory

open Kernel.Transition Kernel.SnapshotRewrite List

structure Entry where
  call : Nat
  id : String
  importance : Rat
  estimatedTokens : Nat
  deriving DecidableEq

def wmMaxTokens : Nat := 500

def protectedImportance : Rat := 8 / 10

def tokenEvictions (maxTokens : Nat) : Nat -> List (Entry × Nat) -> List Nat
  | _, [] => []
  | total, (item, index) :: rest =>
    if maxTokens < total then
      if protectedImportance < item.importance then tokenEvictions maxTokens total rest
      else index :: tokenEvictions maxTokens (total - item.estimatedTokens) rest
    else []

/-- The second loop: oldest first, entries not chosen yet go until the rows fit. -/
def rowEvictions (out : List Nat) (maxRows : Nat) : Nat -> List (Entry × Nat) -> List Nat
  | _, [] => []
  | remaining, (_, index) :: rest =>
    if maxRows < remaining then
      if index ∈ out then rowEvictions out maxRows remaining rest
      else index :: rowEvictions out maxRows (remaining - 1) rest
    else []

/-- `selectBudgetEvictionIndices`; without `maxRows` the rows are not limited. -/
def selectBudgetEvictionIndices (items : List Entry) (maxTokens : Nat)
    (maxRows : Option Nat) : List Nat :=
  let out := tokenEvictions maxTokens (items.map Entry.estimatedTokens).sum items.zipIdx
  match maxRows with
  | none => out
  | some maxRows => out ++ rowEvictions out maxRows (items.length - out.length) items.zipIdx

/-- The indices `_enforceWmBudget` evicts. -/
def evictedIndices (items : List Entry) : List Nat :=
  selectBudgetEvictionIndices items wmMaxTokens none

def remaining (items : List Entry) : List Entry :=
  (items.zipIdx.filter fun entry => !(evictedIndices items).contains entry.2).map Prod.fst

def evicted (items : List Entry) : List Entry :=
  (items.zipIdx.filter fun entry => (evictedIndices items).contains entry.2).map Prod.fst

theorem remaining_or_evicted {items : List Entry} {item : Entry} (hmem : item ∈ items) :
    item ∈ remaining items \/ item ∈ evicted items := by
  obtain ⟨index, hindex, hget⟩ := mem_iff_getElem.mp hmem
  have hplace : (item, index) ∈ items.zipIdx := by
    rw [mk_mem_zipIdx_iff_getElem?, getElem?_eq_some_iff]
    exact ⟨hindex, hget⟩
  cases hchosen : (evictedIndices items).contains index with
  | false =>
    left
    exact mem_map.mpr ⟨(item, index), mem_filter.mpr ⟨hplace, by rw [hchosen]; rfl⟩,
      rfl⟩
  | true =>
    right
    exact mem_map.mpr ⟨(item, index), mem_filter.mpr ⟨hplace, hchosen⟩, rfl⟩

def wmPolicy : Policy Entry (List String) where
  keeps := remaining
  drops := evicted
  removes := fun ids item => ids.contains item.id
  covers := remaining_or_evicted

/-- The events of a list: adds numbered by call, and `evictWorkingMemoryItems`. -/
abbrev WmEvent := Event Nat Entry (List String)

abbrev WmState := Shared Nat Entry

/-- The list of one session under any number of adds and evictions. -/
def wmSystem : System WmState WmEvent := system wmPolicy

/--
In every run in which each budget step still finds only entries it has read when it
clears the list, an entry whose add reported success is in the list, once no rewrite is
under way, unless an eviction chose it.
-/
theorem stored_entries_stay {shared : WmState}
    (hreach : (wmSystem.restrict Covered).Reachable shared) (hsettled : Settled shared)
    {item : Entry} (hstored : item ∈ shared.stored) :
    item ∈ shared.items \/ item ∈ shared.selected :=
  (conserved_of_reachable hreach).of_settled hsettled hstored

def entry (call : Nat) (id : String) : Entry where
  call := call
  id := id
  importance := 1 / 2
  estimatedTokens := 300

def twoAdds : List WmEvent :=
  [.push 1 (entry 1 "a"), .read 1, .settle 1, .push 2 (entry 2 "b"), .read 2, .clear 2,
    .write 2, .write 2]

theorem stored_entries_stay_twoAdds :
    ∃ shared : WmState,
      shared.items = [entry 2 "b"] /\ shared.selected = [entry 1 "a"] /\
        (entry 2 "b" ∈ shared.items \/ entry 2 "b" ∈ shared.selected) := by
  have hfollow : (System.follow (fun before event =>
        if Covered before event then step wmPolicy before event else none)
        Shared.empty twoAdds).map
      (fun shared => (shared.stored, shared.items, shared.selected,
        [1, 2].map shared.phase)) =
        some ([entry 1 "a", entry 2 "b"], [entry 2 "b"], [entry 1 "a"],
          [some .finished, some .finished]) := by
    decide +kernel
  obtain ⟨shared, hlast, hseen⟩ := Option.map_eq_some_iff.mp hfollow
  simp only [Prod.mk.injEq, map_cons, map_nil, cons.injEq] at hseen
  obtain ⟨hstored, hitems, hselected, hone, htwo, _⟩ := hseen
  have hrun : (wmSystem.restrict Covered).Run Shared.empty twoAdds shared :=
    .of_follow_restrict (fun _ _ _ hstep => hstep) hlast
  refine ⟨shared, hitems, hselected, stored_entries_stay ⟨_, _, rfl, hrun⟩ ?_ ?_⟩
  · exact settled_of_run hrun.ofRestrict (by simp [twoAdds, Event.writer?, hone, htwo])
  · rw [hstored]
    simp

def lateAdd : List WmEvent :=
  [.push 1 (entry 1 "a"), .read 1, .settle 1, .push 2 (entry 2 "b"), .read 2,
    .push 3 (entry 3 "c"), .clear 2, .write 2, .write 2, .read 3, .settle 3]

/-- The third entry is gone, and no eviction chose it. -/
theorem late_entry_lost :
    ∃ shared : WmState,
      wmSystem.Reachable shared /\ Settled shared /\ entry 3 "c" ∈ shared.stored /\
        Not (entry 3 "c" ∈ shared.items \/ entry 3 "c" ∈ shared.selected) := by
  have hfollow : (System.follow (step wmPolicy) Shared.empty lateAdd).map
      (fun shared => (shared.stored, shared.items ++ shared.selected,
        [1, 2, 3].map shared.phase)) =
        some ([entry 1 "a", entry 2 "b", entry 3 "c"], [entry 2 "b", entry 1 "a"],
          [some .finished, some .finished, some .finished]) := by
    decide +kernel
  obtain ⟨shared, hlast, hseen⟩ := Option.map_eq_some_iff.mp hfollow
  simp only [Prod.mk.injEq, map_cons, map_nil, cons.injEq] at hseen
  obtain ⟨hstored, hleft, hone, htwo, hthree, _⟩ := hseen
  have hrun : wmSystem.Run Shared.empty lateAdd shared :=
    .of_follow (fun _ _ _ hstep => hstep) hlast
  refine ⟨shared, ⟨_, _, rfl, hrun⟩, ?_, ?_, ?_⟩
  · exact settled_of_run hrun (by simp [lateAdd, Event.writer?, hone, htwo, hthree])
  · rw [hstored]
    simp
  · intro hkept
    have hmem : entry 3 "c" ∈ shared.items ++ shared.selected := mem_append.mpr hkept
    rw [hleft] at hmem
    simp [entry] at hmem

end AnchorMind.Session.WorkingMemory
