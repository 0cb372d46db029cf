import AnchorMind.Consolidate.FragmentSplit

/-!
# Superseding a fragment

`ConflictResolver.supersede` closes the old fragment with one statement and then
writes the link to its successor in a transaction of its own.  Either may fail, and
either may take effect although its answer is lost.
-/

namespace AnchorMind.Write.Supersede

open Consolidate.FragmentSplit Link

inductive Statement where
  | answered
  | unanswered
  | failed
  deriving DecidableEq

/-- How the steps of one call go.  Without a pool `createLink` returns and writes nothing. -/
structure Outcomes where
  poolAtClose : Bool
  close : Statement
  poolAtLink : Bool
  link : Statement
  deriving DecidableEq

inductive Answer where
  | superseded (closed : Bool)
  | threw
  deriving DecidableEq

/-- The rows the closing statement selects: the live fragment of the key, or of any key
for the master. -/
def isTarget (keyId : Option String) (row : Fragment) : Bool :=
  row.validTo.isNone && (keyId.isNone || decide (row.keyId = keyId))

/-- `SET valid_to = NOW(), importance = GREATEST(0.05, importance * 0.5)` -/
def closedRow (now : Nat) (row : Fragment) : Fragment :=
  { row with
    validTo := some now
    importance := max (1 / 20) (row.importance * (1 / 2)) }

def closeTarget (now : Nat) (oldId : String) (keyId : Option String) (store : Store) : Store :=
  store.updateRow oldId fun row => if isTarget keyId row then closedRow now row else row

def closes (oldId : String) (keyId : Option String) (store : Store) : Bool :=
  ((store.rows oldId).map (isTarget keyId)).getD false

def linkSuccessor (outcomes : Outcomes) (oldId newId : String) (store : Store) : Store × Answer :=
  if outcomes.poolAtLink then
    match outcomes.link, store.createLink oldId newId .supersededBy with
    | .answered, some linked => (linked, .superseded true)
    | .unanswered, some linked => (linked, .threw)
    | _, _ => (store, .threw)
  else (store, .superseded true)

def supersede (outcomes : Outcomes) (now : Nat) (oldId newId : String) (keyId : Option String)
    (store : Store) : Store × Answer :=
  if outcomes.poolAtClose then
    match outcomes.close with
    | .failed => (store, .threw)
    | .unanswered => (closeTarget now oldId keyId store, .threw)
    | .answered =>
      if closes oldId keyId store then
        linkSuccessor outcomes oldId newId (closeTarget now oldId keyId store)
      else (store, .superseded false)
  else (store, .superseded false)

def LeftAsItWas (before after : Store) (oldId : String) : Prop :=
  (after.rows oldId).map (fun row => (row.validTo, row.importance)) =
    (before.rows oldId).map fun row => (row.validTo, row.importance)

/-- An active `superseded_by` link from the old fragment to the new one. -/
def SuccessorRecorded (store : Store) (oldId newId : String) : Prop :=
  ∃ link, store.links (oldId, newId) = some link /\
    link.relationType = some .supersededBy /\ link.deletedAt = none

def closeTakesEffect (outcomes : Outcomes) (oldId : String) (keyId : Option String)
    (store : Store) : Bool :=
  outcomes.poolAtClose && decide (outcomes.close ≠ .failed) && closes oldId keyId store

def linkTakesEffect (outcomes : Outcomes) (oldId newId : String) (store : Store) : Bool :=
  decide (outcomes.close = .answered) && outcomes.poolAtLink &&
    decide (outcomes.link ≠ .failed) && store.bothStored oldId newId

variable {outcomes : Outcomes} {now : Nat} {oldId newId : String} {keyId : Option String}
variable {store linked : Store}

theorem closeTarget_rows :
    (closeTarget now oldId keyId store).rows oldId =
      (store.rows oldId).map fun row => if isTarget keyId row then closedRow now row else row :=
  Function.update_self ..

theorem closeTarget_bothStored :
    (closeTarget now oldId keyId store).bothStored oldId newId =
      store.bothStored oldId newId := by
  have hold : ((closeTarget now oldId keyId store).rows oldId).isSome =
      (store.rows oldId).isSome := by
    rw [closeTarget_rows, Option.isSome_map]
  rcases Classical.em (newId = oldId) with rfl | hne
  · simp only [Store.bothStored, hold]
  · have hnew : (closeTarget now oldId keyId store).rows newId = store.rows newId :=
      Function.update_of_ne hne _ _
    simp only [Store.bothStored, hold, hnew]

theorem leftAsItWas_of_not_closes (hnot : closes oldId keyId store = false) :
    LeftAsItWas store (closeTarget now oldId keyId store) oldId := by
  unfold LeftAsItWas
  rw [closeTarget_rows]
  cases hrow : store.rows oldId with
  | none => rfl
  | some row =>
    have hother : isTarget keyId row = false := by simpa [closes, hrow] using hnot
    simp [hother]

theorem not_leftAsItWas_of_closes (now : Nat) (hcloses : closes oldId keyId store = true) :
    Not (LeftAsItWas store (closeTarget now oldId keyId store) oldId) := by
  unfold LeftAsItWas
  rw [closeTarget_rows]
  cases hrow : store.rows oldId with
  | none => simp [closes, hrow] at hcloses
  | some row =>
    have htarget : isTarget keyId row = true := by simpa [closes, hrow] using hcloses
    have hlive : row.validTo = none := by
      have hboth := htarget
      simp only [isTarget, Bool.and_eq_true, Option.isNone_iff_eq_none] at hboth
      exact hboth.1
    intro hsame
    simp only [Option.map_some, Option.some.injEq, Prod.mk.injEq, htarget, if_true] at hsame
    have hclosed := hsame.1
    rw [hlive] at hclosed
    cases hclosed

/-- No stored relation is more specific than `superseded_by`, so the link takes it on. -/
theorem successorRecorded_of_createLink
    (hlinked : store.createLink oldId newId .supersededBy = some linked) :
    SuccessorRecorded linked oldId newId := by
  have hrefines := Store.createLink_links hlinked
  rw [createLink_eq] at hrefines
  split at hrefines
  · have hlinks := Option.some.inj hrefines
    refine ⟨_, by rw [<- hlinks]; exact Function.update_self .., ?_,
      upsertLink_deletedAt OrderHom.id _ _⟩
    cases hstored : store.links (oldId, newId) with
    | none => simp [linkPair, pairMerging, LinkPair.key, Store.linkRequest, upsertLink, hstored]
    | some row =>
      have hprecedence : storedPrecedence row.relationType <= 3 := by
        cases hrelation : row.relationType with
        | none => decide
        | some relation => cases relation <;> decide
      have hkept : Not (relationPrecedence .supersededBy < storedPrecedence row.relationType) := by
        change Not (3 < storedPrecedence row.relationType)
        omega
      simp [linkPair, pairMerging, LinkPair.key, Store.linkRequest, upsertLink, hstored, hkept]
  · cases hrefines

theorem createLink_rows (hlinked : store.createLink oldId newId .supersededBy = some linked) :
    linked.rows = store.rows := by
  unfold Store.createLink at hlinked
  split at hlinked
  · cases hlinked
    rfl
  · cases hlinked

theorem createLink_isSome (store : Store) (oldId newId : String) :
    (store.createLink oldId newId .supersededBy).isSome = store.bothStored oldId newId := by
  unfold Store.createLink
  split
  · rename_i hstored
    exact hstored.symm
  · rename_i hmissing
    exact (Bool.eq_false_iff.mpr hmissing).symm

theorem linkSuccessor_cases (oldId newId : String) (store : Store)
    (hclose : outcomes.close = .answered) :
    (linkSuccessor outcomes oldId newId store).1.rows = store.rows /\
      if linkTakesEffect outcomes oldId newId store then
        SuccessorRecorded (linkSuccessor outcomes oldId newId store).1 oldId newId
      else (linkSuccessor outcomes oldId newId store).1 = store := by
  have hstored := createLink_isSome store oldId newId
  unfold linkSuccessor linkTakesEffect
  rw [<- hstored, hclose]
  cases hcreate : store.createLink oldId newId .supersededBy with
  | none => cases outcomes.poolAtLink <;> cases outcomes.link <;> simp
  | some linked =>
    have hrows := createLink_rows hcreate
    have hrecorded := successorRecorded_of_createLink hcreate
    cases outcomes.poolAtLink <;> cases outcomes.link <;> simp [hrows, hrecorded]

theorem left_of_no_close (hnone : closeTakesEffect outcomes oldId keyId store = false) :
    LeftAsItWas store (supersede outcomes now oldId newId keyId store).1 oldId := by
  cases hpool : outcomes.poolAtClose with
  | false =>
    rw [supersede, hpool]
    rfl
  | true =>
    cases hclose : outcomes.close with
    | failed =>
      rw [supersede, hpool, hclose]
      rfl
    | unanswered =>
      rw [supersede, hpool, hclose]
      exact leftAsItWas_of_not_closes (by simpa [closeTakesEffect, hpool, hclose] using hnone)
    | answered =>
      have hnot : closes oldId keyId store = false := by
        simpa [closeTakesEffect, hpool, hclose] using hnone
      simp only [supersede, hpool, hclose, if_true, hnot, Bool.false_eq_true, if_false]
      rfl

theorem closed_cases (now : Nat) (newId : String)
    (hcloses : closeTakesEffect outcomes oldId keyId store = true) :
    (supersede outcomes now oldId newId keyId store).1.rows =
        (closeTarget now oldId keyId store).rows /\
      if linkTakesEffect outcomes oldId newId store then
        SuccessorRecorded (supersede outcomes now oldId newId keyId store).1 oldId newId
      else (supersede outcomes now oldId newId keyId store).1.links = store.links := by
  simp only [closeTakesEffect, Bool.and_eq_true, decide_eq_true_eq] at hcloses
  obtain ⟨⟨hpool, hdone⟩, htarget⟩ := hcloses
  cases hclose : outcomes.close with
  | failed => exact absurd hclose hdone
  | unanswered =>
    simp only [supersede, hpool, hclose, if_true, linkTakesEffect]
    exact ⟨trivial, rfl⟩
  | answered =>
    obtain ⟨hrows, hlinks⟩ := linkSuccessor_cases oldId newId
      (closeTarget now oldId keyId store) hclose
    have hsame : linkTakesEffect outcomes oldId newId (closeTarget now oldId keyId store) =
        linkTakesEffect outcomes oldId newId store := by
      simp only [linkTakesEffect, closeTarget_bothStored]
    rw [hsame] at hlinks
    simp only [supersede, hpool, hclose, if_true, htarget]
    refine ⟨hrows, ?_⟩
    cases htakes : linkTakesEffect outcomes oldId newId store with
    | true => simpa only [htakes, if_true] using hlinks
    | false =>
      rw [htakes, if_neg Bool.false_ne_true] at hlinks
      rw [if_neg Bool.false_ne_true, hlinks]
      rfl

/--
A call leaves the old fragment as it was or its successor recorded exactly when the
close has no effect, the link's transaction takes effect after it, or the link was
there before the call.
-/
theorem successor_recorded_iff (outcomes : Outcomes) (now : Nat) (oldId newId : String)
    (keyId : Option String) (store : Store) :
    LeftAsItWas store (supersede outcomes now oldId newId keyId store).1 oldId \/
        SuccessorRecorded (supersede outcomes now oldId newId keyId store).1 oldId newId <->
      closeTakesEffect outcomes oldId keyId store = false \/
        linkTakesEffect outcomes oldId newId store = true \/
        SuccessorRecorded store oldId newId := by
  cases hcloses : closeTakesEffect outcomes oldId keyId store with
  | false =>
    constructor
    · intro _
      exact .inl rfl
    · intro _
      exact .inl (left_of_no_close hcloses)
  | true =>
    obtain ⟨hrows, hlinks⟩ := closed_cases now newId hcloses
    have htarget : closes oldId keyId store = true := by
      simp only [closeTakesEffect, Bool.and_eq_true] at hcloses
      exact hcloses.2
    have hchanged : Not
        (LeftAsItWas store (supersede outcomes now oldId newId keyId store).1 oldId) := by
      intro hleft
      refine not_leftAsItWas_of_closes now htarget ?_
      rwa [LeftAsItWas, hrows] at hleft
    cases htakes : linkTakesEffect outcomes oldId newId store with
    | true =>
      rw [htakes, if_pos rfl] at hlinks
      simp [hlinks]
    | false =>
      rw [htakes, if_neg Bool.false_ne_true] at hlinks
      have hsame : SuccessorRecorded
          (supersede outcomes now oldId newId keyId store).1 oldId newId <->
            SuccessorRecorded store oldId newId := by
        rw [SuccessorRecorded, hlinks]
        rfl
      simp [hchanged, hsame]

def correctedNote : Store where
  rows := fun id =>
    if id = "old" then some { content := "port 8080", importance := 1 / 2 }
    else if id = "new" then some { content := "port 9090", importance := 1 / 2 }
    else none
  links := fun _ => none
  references := by
    intro key hlink
    cases hlink

def linkFails : Outcomes where
  poolAtClose := true
  close := .answered
  poolAtLink := true
  link := .failed

/-- The old fragment is closed and no link tells what took its place. -/
theorem closed_without_successor :
    (∃ row, correctedNote.rows "old" = some row /\ row.validTo = none) /\
      (correctedNote.rows "new").isSome = true /\
      Not (LeftAsItWas correctedNote
          (supersede linkFails 7 "old" "new" none correctedNote).1 "old" \/
        SuccessorRecorded (supersede linkFails 7 "old" "new" none correctedNote).1
          "old" "new") := by
  refine ⟨⟨_, rfl, rfl⟩, rfl, ?_⟩
  rintro (hleft | ⟨link, hlink, _⟩)
  · simp [LeftAsItWas, supersede, linkFails, closes, isTarget, correctedNote, linkSuccessor,
      closeTarget, Store.updateRow, closedRow] at hleft
  · simp [supersede, linkFails, closes, isTarget, correctedNote, linkSuccessor,
      closeTarget, Store.updateRow] at hlink

end AnchorMind.Write.Supersede
