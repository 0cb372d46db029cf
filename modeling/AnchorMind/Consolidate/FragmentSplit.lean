import AnchorMind.Kernel.JointedRuns
import AnchorMind.Link.SessionLinker
import AnchorMind.Write.EventExpressions

/-!
# Splitting a long fragment

The accepted parts of a long fragment are inserted one by one, linked, and the
fragment is closed.  No transaction holds the steps together: too few inserts are
undone by deleting what was inserted, and a step that fails is recorded.
-/

namespace AnchorMind.Consolidate.FragmentSplit

open Kernel.MergedUpserts Link Function

structure Fragment where
  content : String
  importance : Rat
  ttlTier : String := "warm"
  isAnchor : Bool := false
  source : Option String := none
  agentId : String := "default"
  keyId : Option String := none
  workspace : Option String := none
  validTo : Option Nat := none
  splitAttemptFailedAt : Option Nat := none
  deriving DecidableEq

structure Store where
  rows : String -> Option Fragment
  links : LinkTable String Rat
  references : ∀ key, (links key).isSome = true ->
    (rows key.1).isSome = true /\ (rows key.2).isSome = true

namespace Store

def insertRow (store : Store) (id : String) (row : Fragment) : Store where
  rows := update store.rows id (some row)
  links := store.links
  references := by
    intro key hlink
    obtain ⟨hfrom, hto⟩ := store.references key hlink
    constructor
    · unfold update
      split <;> simp_all
    · unfold update
      split <;> simp_all

def deleteRow (store : Store) (id : String) : Store where
  rows := update store.rows id none
  links := fun key => if key.1 = id ∨ key.2 = id then none else store.links key
  references := by
    intro key hlink
    split at hlink
    · cases hlink
    · rename_i hother
      have hfrom : key.1 ≠ id := fun heq => hother (.inl heq)
      have hto : key.2 ≠ id := fun heq => hother (.inr heq)
      rw [update_of_ne hfrom, update_of_ne hto]
      exact store.references key hlink

def updateRow (store : Store) (id : String) (change : Fragment -> Fragment) : Store where
  rows := update store.rows id ((store.rows id).map change)
  links := store.links
  references := by
    intro key hlink
    obtain ⟨hfrom, hto⟩ := store.references key hlink
    constructor
    · unfold update
      split <;> simp_all
    · unfold update
      split <;> simp_all

def bothStored (store : Store) (fromId toId : String) : Bool :=
  (store.rows fromId).isSome && (store.rows toId).isSome

def linkRequest (fromId toId : String) (relationType : RelationType) : LinkRequest String Rat where
  fromId := fromId
  toId := toId
  relationType := some relationType

def writeLink (store : Store) (fromId toId : String) (relationType : RelationType) :
    LinkTable String Rat :=
  put (pairMerging String Rat) (upsertLink OrderHom.id) store.links
    (linkPair (linkRequest fromId toId relationType))

/-- `createLink`: a link to a fragment that is not stored is refused. -/
def createLink (store : Store) (fromId toId : String) (relationType : RelationType) :
    Option Store :=
  if hstored : store.bothStored fromId toId = true then
    some
      { rows := store.rows
        links := store.writeLink fromId toId relationType
        references := by
          intro key hlink
          by_cases hkey : key = (fromId, toId)
          · subst hkey
            simpa [bothStored] using hstored
          · have hother : store.writeLink fromId toId relationType key = store.links key :=
              update_of_ne hkey _ _
            exact store.references key (hother ▸ hlink) }
  else none

theorem createLink_links {store after : Store} {fromId toId : String} {relationType : RelationType}
    (hafter : store.createLink fromId toId relationType = some after) :
    Link.createLink OrderHom.id store.bothStored store.links
      (linkRequest fromId toId relationType) = some after.links := by
  unfold createLink at hafter
  split at hafter
  · rename_i hstored
    have hlinks := Option.some.inj hafter
    subst hlinks
    rw [createLink_eq]
    exact if_pos hstored
  · cases hafter

def delete (store : Store) (id : String) (keyId : Option String) : Store :=
  match keyId, store.rows id with
  | some key, some row => if row.keyId = some key then store.deleteRow id else store
  | some _, none => store
  | none, _ => store.deleteRow id

end Store

inductive InsertOutcome where
  | created
  | existing (id : String)
  | absent
  | thrown
  deriving DecidableEq

inductive DeleteOutcome where
  | deleted
  | thrown (removed : Bool)
  deriving DecidableEq

inductive CloseOutcome where
  | closed
  | thrown (closed : Bool)
  deriving DecidableEq

inductive SplitStep where
  | rollbackDelete
  | linkRelated
  | linkPartOf
  | outcomeRecord
  deriving DecidableEq, Repr

structure StepFailure where
  step : SplitStep
  parentId : String
  childId : Option String
  deriving DecidableEq, Repr

/-- How each step turns out, by its position in the loop it is in. -/
structure Outcomes where
  insert : Nat -> InsertOutcome
  delete : Nat -> DeleteOutcome
  linkRelated : Nat -> Bool
  linkPartOf : Nat -> Bool
  close : CloseOutcome
  record : Bool

structure Draft where
  id : String
  row : Fragment

/-- The parent, as `commitSplit` gets it. -/
structure Parent where
  id : String
  agentId : String
  keyId : Option String

structure Progress where
  store : Store
  failures : List StepFailure

structure Committed where
  progress : Progress
  answer : Option Bool

structure Inserted where
  store : Store
  newIds : List String
  threw : Bool

def insertChildren (outcomes : Outcomes) (store : Store) : Nat -> List Draft -> Inserted
  | _, [] => { store := store, newIds := [], threw := false }
  | position, draft :: rest =>
    match outcomes.insert position with
    | .created =>
      let last := insertChildren outcomes (store.insertRow draft.id draft.row) (position + 1) rest
      { last with newIds := draft.id :: last.newIds }
    | .existing id =>
      let last := insertChildren outcomes store (position + 1) rest
      { last with newIds := id :: last.newIds }
    | .absent => insertChildren outcomes store (position + 1) rest
    | .thrown => { store := store, newIds := [], threw := true }

def rollbackChild (outcomes : Outcomes) (parent : Parent) (progress : Progress)
    (position : Nat) (childId : String) : Progress :=
  match outcomes.delete position with
  | .deleted => { progress with store := progress.store.delete childId parent.keyId }
  | .thrown removed =>
    { store := if removed then progress.store.delete childId parent.keyId else progress.store
      failures := progress.failures ++ [⟨.rollbackDelete, parent.id, some childId⟩] }

def rollback (outcomes : Outcomes) (parent : Parent) :
    Progress -> Nat -> List String -> Progress
  | progress, _, [] => progress
  | progress, position, childId :: rest =>
    rollback outcomes parent (rollbackChild outcomes parent progress position childId)
      (position + 1) rest

def linkStep (parent : Parent) (step : SplitStep) (relationType : RelationType) (works : Bool)
    (progress : Progress) (fromId toId childId : String) : Progress :=
  match if works then progress.store.createLink fromId toId relationType else none with
  | some store => { progress with store := store }
  | none => { progress with failures := progress.failures ++ [⟨step, parent.id, some childId⟩] }

def linkRelated (outcomes : Outcomes) (parent : Parent) :
    Progress -> Nat -> List String -> Progress
  | progress, position, first :: second :: rest =>
    linkRelated outcomes parent
      (linkStep parent .linkRelated .related (outcomes.linkRelated position) progress
        first second second)
      (position + 1) (second :: rest)
  | progress, _, _ => progress

def linkPartOf (outcomes : Outcomes) (parent : Parent) :
    Progress -> Nat -> List String -> Progress
  | progress, _, [] => progress
  | progress, position, childId :: rest =>
    linkPartOf outcomes parent
      (linkStep parent .linkPartOf .partOf (outcomes.linkPartOf position) progress
        childId parent.id childId)
      (position + 1) rest

/-- The columns `commitSplit` sets when it closes the parent. -/
def closed (now : Nat) (row : Fragment) : Fragment :=
  { row with
    validTo := some now
    importance := max (1 / 5) (row.importance * (3 / 10))
    ttlTier := "cold" }

def recordSplitOutcome (outcomes : Outcomes) (now : Nat) (parent : Parent)
    (progress : Progress) : Progress :=
  if outcomes.record then
    { progress with
      store := progress.store.updateRow parent.id fun row =>
        { row with splitAttemptFailedAt := some now } }
  else { progress with failures := progress.failures ++ [⟨.outcomeRecord, parent.id, none⟩] }

def commitSplit (outcomes : Outcomes) (now minItems : Nat) (parent : Parent) (store : Store)
    (accepted : List Draft) : Committed :=
  let inserted := insertChildren outcomes store 0 accepted
  if inserted.threw then { progress := ⟨inserted.store, []⟩, answer := none }
  else if inserted.newIds.length < minItems then
    { progress := recordSplitOutcome outcomes now parent
        (rollback outcomes parent ⟨inserted.store, []⟩ 0 inserted.newIds)
      answer := some false }
  else
    let linked := linkPartOf outcomes parent
      (linkRelated outcomes parent ⟨inserted.store, []⟩ 0 inserted.newIds) 0 inserted.newIds
    let done := { linked with store := linked.store.updateRow parent.id (closed now) }
    match outcomes.close with
    | .closed => { progress := done, answer := some true }
    | .thrown true => { progress := done, answer := none }
    | .thrown false => { progress := linked, answer := none }

inductive Prepared where
  | tooFewItems
  | thrown
  | gated (accepted : List Draft) (anchorsMissing : Bool)

def processFragmentSplit (outcomes : Outcomes) (now minItems : Nat) (parent : Parent)
    (store : Store) : Prepared -> Progress × Bool
  | .tooFewItems => (⟨store, []⟩, false)
  | .thrown => (recordSplitOutcome outcomes now parent ⟨store, []⟩, false)
  | .gated accepted anchorsMissing =>
    if accepted.length < minItems then
      (recordSplitOutcome outcomes now parent ⟨store, []⟩, false)
    else if anchorsMissing then (recordSplitOutcome outcomes now parent ⟨store, []⟩, false)
    else
      let committed := commitSplit outcomes now minItems parent store accepted
      match committed.answer with
      | some answer => (committed.progress, answer)
      | none => (recordSplitOutcome outcomes now parent committed.progress, false)

end AnchorMind.Consolidate.FragmentSplit

/-!
# The numbers of a split fragment

Before a fragment is split, the gate looks for the numbers of the fragment in the texts of
its parts.  A number is a token of digits with single separators between them; the commas of
a number do not count.
-/

namespace AnchorMind.Consolidate.SplitAnchors

open Kernel.JointedRuns
open Text.JsonText (JsString ofString)
open Write.EventExpressions (isDigit)

def comma : UInt16 := 44

def period : UInt16 := 46

def blank : UInt16 := 32

def numericToken : Kinds UInt16 where
  core := isDigit
  joint unit := unit == period || unit == comma

def normalizeAnchor (text : JsString) : JsString := text.filter (· ≠ comma)

def extractNumericAnchors (text : Option JsString) : List JsString :=
  match text with
  | none => []
  | some text =>
    (((numericToken.runs text).map normalizeAnchor).filter fun anchor =>
      2 ≤ anchor.length).eraseDups

def haystack (childTexts : Option (List JsString)) : JsString :=
  normalizeAnchor ([blank].intercalate (childTexts.getD []))

def findMissingAnchors (parentContent : Option JsString) (childTexts : Option (List JsString)) :
    List JsString :=
  let anchors := extractNumericAnchors parentContent
  if anchors.isEmpty then []
  else anchors.filter fun anchor => !decide (anchor <:+: haystack childTexts)

def IsLong (token : JsString) : Prop := 2 ≤ (token.filter isDigit).length

def IsTokenOf (number text : JsString) : Prop :=
  ∃ token ∈ numericToken.runs text, normalizeAnchor token = number

def KeepsNumbers (parent : JsString) (children : List JsString) : Prop :=
  findMissingAnchors (some parent) (some children) = [] ->
    ∀ token ∈ numericToken.runs parent, IsLong token ->
      ∃ child ∈ children, IsTokenOf (normalizeAnchor token) child

def OccursIn (children : List JsString) (number : JsString) : Prop :=
  normalizeAnchor number <:+: normalizeAnchor ([blank].intercalate children)

/-- A child has the number where no digit, and no separator with a digit behind it, touches
it. -/
def StandsApartIn (children : List JsString) (number : JsString) : Prop :=
  ∃ child ∈ children, ∃ token, numericToken.StandsApart child token /\
    normalizeAnchor token = normalizeAnchor number

theorem comma_ne_of_isDigit {unit : UInt16} (hdigit : isDigit unit = true) : unit ≠ comma := by
  rintro rfl
  exact absurd hdigit (by decide)

theorem isLong_iff {token : JsString} (htoken : numericToken.IsRun token) :
    IsLong token <-> 2 ≤ (normalizeAnchor token).length := by
  have hfirst {unit : UInt16} (hdigit : isDigit unit = true) (rest : JsString) :
      ((unit :: rest).filter isDigit).length = (rest.filter isDigit).length + 1 /\
        (normalizeAnchor (unit :: rest)).length = (normalizeAnchor rest).length + 1 := by
    simp [normalizeAnchor, hdigit, comma_ne_of_isDigit hdigit]
  have hone {run : JsString} (hrun : numericToken.IsRun run) (front : JsString) :
      1 ≤ ((front ++ run).filter isDigit).length /\
        1 ≤ (normalizeAnchor (front ++ run)).length := by
    obtain ⟨unit, rest, rfl, hdigit⟩ := hrun.exists_cons
    obtain ⟨hdigits, hunits⟩ := hfirst hdigit rest
    simp only [normalizeAnchor, List.filter_append, List.length_append] at hdigits hunits ⊢
    omega
  unfold IsLong
  cases htoken with
  | single hdigit =>
    obtain ⟨hdigits, hunits⟩ := hfirst hdigit []
    rw [hdigits, hunits]
    simp [normalizeAnchor]
  | core hdigit hrest =>
    rename_i rest
    obtain ⟨hdigits, hunits⟩ := hfirst hdigit rest
    have hmore := hone hrest []
    rw [List.nil_append] at hmore
    omega
  | joint hdigit _ hrest =>
    rename_i joint rest _
    obtain ⟨hdigits, hunits⟩ := hfirst hdigit (joint :: rest)
    have hmore := hone hrest [joint]
    rw [List.singleton_append] at hmore
    omega

theorem mem_extractNumericAnchors {text anchor : JsString} :
    anchor ∈ extractNumericAnchors (some text) <->
      ∃ token ∈ numericToken.runs text, IsLong token /\
        normalizeAnchor token = anchor := by
  rw [extractNumericAnchors, List.mem_eraseDups, List.mem_filter, List.mem_map]
  constructor
  · rintro ⟨⟨token, htoken, rfl⟩, hlong⟩
    obtain ⟨_, _, _, hrun, _⟩ := mem_runs_iff.mp htoken
    exact ⟨token, htoken, (isLong_iff hrun).mpr (of_decide_eq_true hlong), rfl⟩
  · rintro ⟨token, htoken, hlong, rfl⟩
    obtain ⟨_, _, _, hrun, _⟩ := mem_runs_iff.mp htoken
    exact ⟨⟨token, htoken, rfl⟩, decide_eq_true ((isLong_iff hrun).mp hlong)⟩

theorem findMissingAnchors_eq_nil_iff (parent : JsString) (children : List JsString) :
    findMissingAnchors (some parent) (some children) = [] <->
      ∀ token ∈ numericToken.runs parent, IsLong token ->
        OccursIn children token := by
  have hfilter : findMissingAnchors (some parent) (some children) =
      (extractNumericAnchors (some parent)).filter fun anchor =>
        !decide (anchor <:+: haystack (some children)) := by
    rw [findMissingAnchors]
    split
    · rename_i hempty
      rw [List.isEmpty_iff.mp hempty]
      rfl
    · rfl
  rw [hfilter, List.filter_eq_nil_iff]
  constructor
  · intro hall token htoken hlong
    have hoccurs := hall _ (mem_extractNumericAnchors.mpr ⟨token, htoken, hlong, rfl⟩)
    show normalizeAnchor token <:+: haystack (some children)
    simpa using hoccurs
  · intro hall anchor hanchor
    obtain ⟨token, htoken, hlong, rfl⟩ := mem_extractNumericAnchors.mp hanchor
    have hoccurs : normalizeAnchor token <:+: haystack (some children) := hall token htoken hlong
    simpa using hoccurs

theorem isTokenOf_iff {children : List JsString} {token : JsString} :
    (∃ child ∈ children, IsTokenOf (normalizeAnchor token) child) <->
      StandsApartIn children token := by
  unfold IsTokenOf StandsApartIn
  simp only [mem_runs_iff]

/-- Numbers are kept exactly when one of them is in no child at all, or each of them stands
apart in a child: an occurrence within a longer number, or over two numbers, is not enough. -/
theorem keepsNumbers_iff (parent : JsString) (children : List JsString) :
    KeepsNumbers parent children <->
      (∃ number, numericToken.StandsApart parent number /\ IsLong number /\
        ¬ OccursIn children number) \/
      ∀ number, numericToken.StandsApart parent number -> IsLong number ->
        StandsApartIn children number := by
  unfold KeepsNumbers
  rw [findMissingAnchors_eq_nil_iff]
  simp only [mem_runs_iff, isTokenOf_iff]
  constructor
  · intro hkeeps
    by_cases hall : ∀ token, numericToken.StandsApart parent token -> IsLong token ->
        OccursIn children token
    · exact .inr (hkeeps hall)
    · push Not at hall
      exact .inl hall
  · rintro (⟨number, hnumber, hlong, habsent⟩ | hapart) hall
    · exact absurd (hall number hnumber hlong) habsent
    · exact hapart

/-- The number of the parent occurs in the year alone. -/
theorem year_hides_number : ¬ KeepsNumbers (ofString "12") [ofString "2012"] := by
  intro hkeeps
  have hmissing : findMissingAnchors (some (ofString "12")) (some [ofString "2012"]) = [] := by
    decide +kernel
  have htoken : ofString "12" ∈ numericToken.runs (ofString "12") := by decide +kernel
  have hlong : IsLong (ofString "12") := by
    unfold IsLong
    decide +kernel
  obtain ⟨child, hchild, token, htoken, hsame⟩ := hkeeps hmissing _ htoken hlong
  rw [List.mem_singleton.mp hchild] at htoken
  have hruns : numericToken.runs (ofString "2012") = [ofString "2012"] := by decide +kernel
  rw [hruns, List.mem_singleton] at htoken
  rw [htoken] at hsame
  exact absurd hsame (by decide +kernel)

end AnchorMind.Consolidate.SplitAnchors
