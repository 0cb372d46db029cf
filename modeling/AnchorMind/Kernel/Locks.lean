import Mathlib.Logic.Function.Basic

/-!
# Exclusive locks

A lock table says for each resource who holds it.  It is faithful to what the clients
take themselves to hold when the two agree everywhere, and then no two clients hold the
same resource.
-/

namespace AnchorMind.Kernel.Locks

open Function

abbrev LockTable (Resource Client : Type*) := Resource -> Option Client

section

variable {Resource Client : Type*} {locks : LockTable Resource Client}
variable {holds after : Client -> Resource -> Prop}

def Faithful (locks : LockTable Resource Client) (holds : Client -> Resource -> Prop) : Prop :=
  ∀ resource client, locks resource = some client <-> holds client resource

variable {resource : Resource}

theorem Faithful.unique (hfaithful : Faithful locks holds) {left right : Client}
    (hleft : holds left resource) (hright : holds right resource) : left = right := by
  have hl := (hfaithful resource left).mpr hleft
  have hr := (hfaithful resource right).mpr hright
  exact Option.some.inj (hl.symm.trans hr)

theorem Faithful.congr (hfaithful : Faithful locks holds)
    (hsame : ∀ client resource, after client resource <-> holds client resource) :
    Faithful locks after := by
  intro resource client
  rw [hsame]
  exact hfaithful resource client

def acquire [DecidableEq Resource] (locks : LockTable Resource Client) (client : Client)
    (resource : Resource) : LockTable Resource Client :=
  update locks resource (some client)

theorem acquire_self [DecidableEq Resource] (client : Client) (resource : Resource) :
    acquire locks client resource resource = some client := by
  rw [acquire, update_self]

theorem acquire_of_ne [DecidableEq Resource] (client : Client) {resource other : Resource}
    (hne : other ≠ resource) : acquire locks client resource other = locks other := by
  rw [acquire, update_of_ne hne]

variable {client : Client}

theorem Faithful.acquire [DecidableEq Resource] (hfaithful : Faithful locks holds)
    (hfree : locks resource = none)
    (hself : ∀ wanted, after client wanted <-> wanted = resource \/ holds client wanted)
    (hother : ∀ other, other ≠ client -> after other = holds other) :
    Faithful (acquire locks client resource) after := by
  intro wanted other
  have hnobody : Not (holds other resource) := by
    intro hholds
    have htaken := (hfaithful resource other).mpr hholds
    rw [hfree] at htaken
    cases htaken
  rcases Classical.em (wanted = resource) with rfl | hne
  · simp only [Locks.acquire, update_self, Option.some.injEq]
    rcases Classical.em (other = client) with rfl | hnot
    · simp [hself]
    · rw [hother other hnot]
      exact ⟨fun hsame => absurd hsame.symm hnot, fun hholds => absurd hholds hnobody⟩
  · simp only [Locks.acquire, update_of_ne hne]
    rcases Classical.em (other = client) with rfl | hnot
    · rw [hself, hfaithful wanted other]
      simp [hne]
    · rw [hother other hnot]
      exact hfaithful wanted other

def release [DecidableEq Client] (locks : LockTable Resource Client) (client : Client) :
    LockTable Resource Client :=
  fun resource => if locks resource = some client then none else locks resource

theorem release_of_other [DecidableEq Client] (hother : locks resource ≠ some client) :
    release locks client resource = locks resource :=
  if_neg hother

theorem Faithful.release [DecidableEq Client] (hfaithful : Faithful locks holds)
    (hself : ∀ resource, Not (after client resource))
    (hother : ∀ other, other ≠ client -> after other = holds other) :
    Faithful (release locks client) after := by
  intro resource other
  rcases Classical.em (other = client) with rfl | hnot
  · simp only [Locks.release, hself, iff_false]
    split
    · simp
    · assumption
  · rw [hother other hnot, <- hfaithful resource other]
    unfold Locks.release
    split
    · rename_i hholder
      rw [hholder]
      simp [Ne.symm hnot]
    · rfl

end

end AnchorMind.Kernel.Locks

/-!
# Buffered writes under row locks

A transaction keeps its writes, the latest first, and lays them over the table when it
commits.  As long as it holds the lock of every row it has written, its commit changes no
row that another transaction holds.
-/

namespace AnchorMind.Kernel.RowLocks

open Kernel.Locks

variable {Key Row Client : Type*} [DecidableEq Key]

abbrev Table (Key Row : Type*) := Key -> Option Row

abbrev Writes (Key Row : Type*) := List (Key × Option Row)

/-- What the transaction sees, and what its commit leaves. -/
def overlay (writes : Writes Key Row) (table : Table Key Row) : Table Key Row :=
  fun key => (writes.lookup key).getD (table key)

def Covered (locks : LockTable Key Client) (client : Client) (writes : Writes Key Row) : Prop :=
  ∀ key ∈ writes.map Prod.fst, locks key = some client

variable {locks : LockTable Key Client} {client : Client} {writes : Writes Key Row}
  {table : Table Key Row} {key : Key}

@[simp] theorem overlay_nil : overlay [] table = table := rfl

theorem overlay_of_not_mem (hnot : key ∉ writes.map Prod.fst) :
    overlay writes table key = table key := by
  have hnone : writes.lookup key = none := by
    rw [List.lookup_eq_none_iff]
    intro entry hmem
    rw [bne_iff_ne]
    rintro rfl
    exact hnot (List.mem_map_of_mem hmem)
  rw [overlay, hnone, Option.getD_none]

theorem overlay_cons_self (row : Option Row) : overlay ((key, row) :: writes) table key = row := by
  simp only [overlay, List.lookup_cons_self, Option.getD_some]

theorem overlay_cons_of_ne {other : Key} (hne : other ≠ key) (row : Option Row) :
    overlay ((key, row) :: writes) table other = overlay writes table other := by
  have hbeq : (other == key) = false := beq_false_of_ne hne
  simp only [overlay, List.lookup_cons, hbeq]

theorem overlay_of_mem (other : Table Key Row) (hmem : key ∈ writes.map Prod.fst) :
    overlay writes table key = overlay writes other key := by
  obtain ⟨row, hrow⟩ : ∃ row, writes.lookup key = some row := by
    rw [← Option.isSome_iff_exists, List.lookup_isSome_iff]
    obtain ⟨entry, hentry, rfl⟩ := List.mem_map.mp hmem
    exact ⟨entry, hentry, beq_self_eq_true _⟩
  rw [overlay, overlay, hrow, Option.getD_some, Option.getD_some]

theorem Covered.overlay_eq (hcovered : Covered locks client writes)
    (hother : locks key ≠ some client) : overlay writes table key = table key :=
  overlay_of_not_mem fun hmem => hother (hcovered key hmem)

end AnchorMind.Kernel.RowLocks
