import Mathlib.Data.List.Chain

/-!
# Cached derivations that are refreshed by a stamp

A cached value is derived from a source and kept together with a stamp of it.  A refresh
keeps the value while the stamp stays the same, so the value is right exactly as far as
the stamp determines it.
-/

namespace AnchorMind.Kernel.StampedCache

open List Function

structure Derivation (Source Stamp Value : Type*) where
  stamp : Source -> Stamp
  derive : Source -> Value

structure Entry (Stamp Value : Type*) where
  stamp : Stamp
  value : Value

namespace Derivation

variable {Source Stamp Value : Type*} (derivation : Derivation Source Stamp Value)

def Justifies (entry : Entry Stamp Value) : Prop :=
  ∃ source, derivation.stamp source = entry.stamp /\ derivation.derive source = entry.value

def fresh (source : Source) : Entry Stamp Value where
  stamp := derivation.stamp source
  value := derivation.derive source

def refresh [DecidableEq Stamp] (entry : Entry Stamp Value) (source : Source) :
    Entry Stamp Value where
  stamp := derivation.stamp source
  value := if entry.stamp = derivation.stamp source then entry.value else derivation.derive source

variable {derivation} {entry : Entry Stamp Value}

theorem justifies_fresh (source : Source) : derivation.Justifies (derivation.fresh source) :=
  ⟨source, rfl, rfl⟩

variable [DecidableEq Stamp]

theorem refresh_of_changed {source : Source} (hchanged : entry.stamp ≠ derivation.stamp source) :
    derivation.refresh entry source = derivation.fresh source := by
  rw [refresh, if_neg hchanged, fresh]

theorem Justifies.refresh (hentry : derivation.Justifies entry) (source : Source) :
    derivation.Justifies (derivation.refresh entry source) := by
  obtain ⟨old, hstamp, hvalue⟩ := hentry
  rcases Decidable.em (entry.stamp = derivation.stamp source) with hsame | hchanged
  · refine ⟨old, hstamp.trans hsame, ?_⟩
    rw [Derivation.refresh, if_pos hsame]
    exact hvalue
  · rw [refresh_of_changed hchanged]
    exact justifies_fresh source

end Derivation

end AnchorMind.Kernel.StampedCache

/-!
# Tables that remember their versions, and copies read from them

An entry is written over and over, and a copy of one of its versions is kept elsewhere.  A
predicate of the version that was copied still holds of the present one as long as no write
in between took the entry out of it.
-/

namespace AnchorMind.Kernel.VersionedCopies

open List Function

/-- The present entries, and every version an entry has had, oldest first. -/
structure Table (Id Value : Type*) where
  current : Id -> Option Value
  versions : Id -> List Value
  current_is_last : ∀ id value, current id = some value -> (versions id).getLast? = some value

structure Copy (Id Value : Type*) where
  id : Id
  value : Value
  version : Nat

namespace Table

variable {Id Value : Type*}

def empty : Table Id Value where
  current := fun _ => none
  versions := fun _ => []
  current_is_last := fun _ _ hcurrent => by cases hcurrent

def put [DecidableEq Id] (table : Table Id Value) (id : Id) (value : Value) : Table Id Value where
  current := update table.current id (some value)
  versions := update table.versions id (table.versions id ++ [value])
  current_is_last := by
    intro other held hcurrent
    rcases Decidable.em (other = id) with rfl | hother
    · rw [update_self] at hcurrent ⊢
      simp [Option.some.inj hcurrent]
    · rw [update_of_ne hother] at hcurrent ⊢
      exact table.current_is_last other held hcurrent

def remove [DecidableEq Id] (table : Table Id Value) (id : Id) : Table Id Value where
  current := update table.current id none
  versions := table.versions
  current_is_last := by
    intro other held hcurrent
    rcases Decidable.em (other = id) with rfl | hother
    · rw [update_self] at hcurrent
      cases hcurrent
    · rw [update_of_ne hother] at hcurrent
      exact table.current_is_last other held hcurrent

def read (table : Table Id Value) (id : Id) : Option (Copy Id Value) :=
  (table.current id).map fun value =>
    { id := id, value := value, version := (table.versions id).length - 1 }

def Holds (table : Table Id Value) (copy : Copy Id Value) : Prop :=
  (table.versions copy.id)[copy.version]? = some copy.value

def since (table : Table Id Value) (copy : Copy Id Value) : List Value :=
  (table.versions copy.id).drop copy.version

def Kept (predicate : Value -> Prop) (table : Table Id Value) (copy : Copy Id Value) : Prop :=
  (table.since copy).IsChain fun before after => predicate before -> predicate after

instance (predicate : Value -> Prop) [DecidablePred predicate] (table : Table Id Value)
    (copy : Copy Id Value) : Decidable (table.Kept predicate copy) := by
  unfold Kept
  infer_instance

variable {table : Table Id Value} {copy : Copy Id Value}

@[simp]
theorem current_put [DecidableEq Id] (id : Id) (value : Value) :
    (table.put id value).current = update table.current id (some value) :=
  rfl

@[simp]
theorem versions_put [DecidableEq Id] (id : Id) (value : Value) :
    (table.put id value).versions =
      update table.versions id (table.versions id ++ [value]) :=
  rfl

theorem holds_of_read {id : Id} (hread : table.read id = some copy) : table.Holds copy := by
  obtain ⟨value, hcurrent, rfl⟩ := Option.map_eq_some_iff.mp hread
  have hlast := table.current_is_last id value hcurrent
  rw [getLast?_eq_getElem?] at hlast
  exact hlast

section

variable (hholds : table.Holds copy)
include hholds

theorem Holds.put [DecidableEq Id] (id : Id) (value : Value) : (table.put id value).Holds copy := by
  rcases Decidable.em (copy.id = id) with rfl | hother
  · obtain ⟨hbound, -⟩ := List.getElem?_eq_some_iff.mp hholds
    rw [Holds, versions_put, update_self, getElem?_append_left hbound]
    exact hholds
  · rw [Holds, versions_put, update_of_ne hother]
    exact hholds

theorem Holds.remove [DecidableEq Id] (id : Id) : (table.remove id).Holds copy :=
  hholds

theorem Holds.since_eq_cons : ∃ later, table.since copy = copy.value :: later := by
  obtain ⟨hbound, hvalue⟩ := List.getElem?_eq_some_iff.mp hholds
  refine ⟨(table.versions copy.id).drop (copy.version + 1), ?_⟩
  rw [since, drop_eq_getElem_cons hbound, hvalue]

theorem Holds.current_mem_since {value : Value} (hcurrent : table.current copy.id = some value) :
    value ∈ table.since copy := by
  obtain ⟨hbound, -⟩ := List.getElem?_eq_some_iff.mp hholds
  have hlast := table.current_is_last copy.id value hcurrent
  rw [since]
  apply mem_of_getLast?
  rw [getLast?_drop, if_neg (by omega)]
  exact hlast

theorem Holds.current_of_kept {predicate : Value -> Prop} (hkept : table.Kept predicate copy)
    (hcopy : predicate copy.value) {value : Value} (hcurrent : table.current copy.id = some value) :
    predicate value := by
  obtain ⟨later, hsince⟩ := hholds.since_eq_cons
  have hmem := hholds.current_mem_since hcurrent
  unfold Kept at hkept
  rw [hsince] at hkept hmem
  refine hkept.induction predicate _ (fun _ _ hcarries => hcarries) (fun _ => ?_) value hmem
  exact hcopy

end

end Table

end AnchorMind.Kernel.VersionedCopies
