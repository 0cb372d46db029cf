import AnchorMind.Consolidate.SemanticDedup

/-!
# The neighbours of a merged pair

A merge moves a link of the older fragment to the younger one where the younger one has no
row for the same neighbour yet.  A row that is deleted counts as a row here.
-/

namespace AnchorMind.Consolidate.DedupNeighbors

open Consolidate.SemanticDedup
open Link

def IsActive (stored : Option (LinkRow Rat)) : Prop :=
  ∃ row, stored = some row /\ row.deletedAt = none

def IsDeleted (stored : Option (LinkRow Rat)) : Prop :=
  ∃ row, stored = some row /\ row.deletedAt ≠ none

/-- Each neighbour of the older fragment is a neighbour of the younger one, in the same
direction. -/
def NeighborsKept (keepId oldId : String) (before after : LinkTable String Rat) : Prop :=
  ∀ neighbor, neighbor ≠ keepId -> neighbor ≠ oldId ->
    (IsActive (before (oldId, neighbor)) -> IsActive (after (keepId, neighbor))) /\
      (IsActive (before (neighbor, oldId)) -> IsActive (after (neighbor, keepId)))

/-- No link of the older fragment meets a deleted link of the younger one with the same
neighbour, in the same direction. -/
def MeetsNoDeleted (keepId oldId : String) (links : LinkTable String Rat) : Prop :=
  ∀ neighbor, neighbor ≠ keepId -> neighbor ≠ oldId ->
    (IsActive (links (oldId, neighbor)) -> ¬ IsDeleted (links (keepId, neighbor))) /\
      (IsActive (links (neighbor, oldId)) -> ¬ IsDeleted (links (neighbor, keepId)))

variable {links : LinkTable String Rat} {keepId oldId neighbor : String}

/-- A link of the younger fragment is the one it had, or else the older fragment's. -/
theorem mergeLinks_from (hne : keepId ≠ oldId) (hkeep : neighbor ≠ keepId)
    (hold : neighbor ≠ oldId) :
    mergeLinks keepId oldId links (keepId, neighbor) =
      (links (keepId, neighbor)).or (links (oldId, neighbor)) := by
  have hfrom : moveFrom keepId oldId links (keepId, neighbor) =
      (links (keepId, neighbor)).or (links (oldId, neighbor)) := by
    cases hrow : links (keepId, neighbor) with
    | none => simp [moveFrom, hne, hkeep, hrow]
    | some row => simp [moveFrom, hne, hrow]
  have hto : moveTo keepId oldId (deleteLink oldId keepId (moveFrom keepId oldId links))
      (keepId, neighbor) = moveFrom keepId oldId links (keepId, neighbor) := by
    simp [moveTo, deleteLink, hne, hkeep, hold]
  have hdelete : mergeLinks keepId oldId links (keepId, neighbor) =
      moveTo keepId oldId (deleteLink oldId keepId (moveFrom keepId oldId links))
        (keepId, neighbor) := by
    simp [mergeLinks, supersede, deleteLink, hne, hold]
  rw [hdelete, hto, hfrom]

theorem mergeLinks_to (hne : keepId ≠ oldId) (hkeep : neighbor ≠ keepId) (hold : neighbor ≠ oldId) :
    mergeLinks keepId oldId links (neighbor, keepId) =
      (links (neighbor, keepId)).or (links (neighbor, oldId)) := by
  have hrest : ∀ next, deleteLink oldId keepId (moveFrom keepId oldId links)
      (neighbor, next) = links (neighbor, next) := by
    intro next
    simp [deleteLink, moveFrom, hkeep, hold]
  have hto : moveTo keepId oldId (deleteLink oldId keepId (moveFrom keepId oldId links))
      (neighbor, keepId) = (links (neighbor, keepId)).or (links (neighbor, oldId)) := by
    cases hrow : links (neighbor, keepId) with
    | none => simp [moveTo, hrest, hne, hkeep, hrow]
    | some row => simp [moveTo, hrest, hne, hrow]
  rw [<- hto]
  simp [mergeLinks, supersede, deleteLink, hkeep, hold]

theorem isActive_or_iff {first second : Option (LinkRow Rat)} (hsecond : IsActive second) :
    IsActive (first.or second) <-> ¬ IsDeleted first := by
  cases first with
  | none =>
    constructor
    · rintro _ ⟨row, hrow, _⟩
      cases hrow
    · intro _
      exact hsecond
  | some row =>
    constructor
    · rintro ⟨active, hactive, hnone⟩ ⟨deleted, hdeleted, hsome⟩
      cases hactive
      cases hdeleted
      exact hsome hnone
    · intro hkept
      by_cases hnone : row.deletedAt = none
      · exact ⟨row, rfl, hnone⟩
      · exact absurd ⟨row, rfl, hnone⟩ hkept

theorem mergeLinks_neighborsKept_iff (hne : keepId ≠ oldId) :
    NeighborsKept keepId oldId links (mergeLinks keepId oldId links) <->
      MeetsNoDeleted keepId oldId links := by
  refine forall_congr' fun neighbor => imp_congr_right fun hkeep => imp_congr_right fun hold => ?_
  rw [mergeLinks_from hne hkeep hold, mergeLinks_to hne hkeep hold]
  refine and_congr (imp_congr_right fun hactive => ?_) (imp_congr_right fun hactive => ?_)
  · exact isActive_or_iff hactive
  · exact isActive_or_iff hactive

/-- A merge keeps the neighbours of the older fragment exactly when none of its links meets a
deleted link of the younger one. -/
theorem mergeDedupPair_keeps_neighbors_iff (commits : Bool) (now : Nat) (store : Store)
    (keepId oldId : String)
    (hmerged : (mergeDedupPair commits now store keepId oldId).merged = true) :
    NeighborsKept keepId oldId store.links
        (mergeDedupPair commits now store keepId oldId).store.links <->
      MeetsNoDeleted keepId oldId store.links := by
  rcases mergeDedupPair_cases commits now store keepId oldId with
    ⟨hskipped, _⟩ | ⟨_, hcount, accessCount, hstore⟩
  · exact absurd (hmerged.symm.trans hskipped) (by decide)
  · rw [hstore]
    exact mergeLinks_neighborsKept_iff (live_of_pair hcount).1

def liveRow (id : String) : Row where
  id := id
  topic := some "notes"
  workspace := none
  keyId := none
  content := "the server restarts at night"
  createdAt := 0
  isAnchor := false
  hasEmbedding := true
  accessCount := 0
  validTo := none

def linkRow (deletedAt : Option Nat) : LinkRow Rat where
  relationType := some .related
  weight := 1
  deletedAt := deletedAt
  deleteReason := none

/-- Three fragments.  The older one is linked to the neighbour; `taken` is the younger one's
row for it. -/
def threeStore (taken : Option (LinkRow Rat)) : Store where
  rows :=
    { rows := [liveRow "keep", liveRow "old", liveRow "near"]
      keysNodup := by decide
      checked := fun _ _ => trivial }
  links := fun key =>
    if key = ("old", "near") then some (linkRow none)
    else if key = ("keep", "near") then taken
    else none

theorem mergeDedupPair_keeps_near :
    (mergeDedupPair true 1 (threeStore none) "keep" "old").merged = true /\
      NeighborsKept "keep" "old" (threeStore none).links
        (mergeDedupPair true 1 (threeStore none) "keep" "old").store.links := by
  have hmerged : (mergeDedupPair true 1 (threeStore none) "keep" "old").merged = true := by
    decide +kernel
  refine ⟨hmerged, (mergeDedupPair_keeps_neighbors_iff _ _ _ _ _ hmerged).mpr ?_⟩
  intro neighbor _ hold
  constructor
  · rintro _ ⟨row, hrow, hdeleted⟩
    simp [threeStore] at hrow
  · rintro _ ⟨row, hrow, hdeleted⟩
    simp [threeStore, hold] at hrow

/-- A deleted link of the younger fragment costs it the neighbour. -/
theorem deleted_link_hides_neighbor :
    (mergeDedupPair true 1 (threeStore (some (linkRow (some 0)))) "keep" "old").merged = true /\
      ¬ NeighborsKept "keep" "old" (threeStore (some (linkRow (some 0)))).links
        (mergeDedupPair true 1 (threeStore (some (linkRow (some 0)))) "keep"
          "old").store.links := by
  refine ⟨by decide +kernel, fun hkept => ?_⟩
  have hlink : (mergeDedupPair true 1 (threeStore (some (linkRow (some 0)))) "keep"
      "old").store.links ("keep", "near") = some (linkRow (some 0)) := by decide +kernel
  obtain ⟨row, hrow, hactive⟩ :=
    (hkept "near" (by decide) (by decide)).1 ⟨linkRow none, rfl, rfl⟩
  rw [hlink] at hrow
  cases hrow
  cases hactive

end AnchorMind.Consolidate.DedupNeighbors
