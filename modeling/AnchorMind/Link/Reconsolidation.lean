import Mathlib.Data.List.Chain
import Mathlib.Tactic.Linarith

/-!
# Reconsolidation of a link

A call moves the weight and the confidence of a link and adds a row to its
history.  The old values of the row are not read: they are computed back from
the new ones, after these were clamped.  Numbers are exact.
-/

namespace AnchorMind.Link.Reconsolidation

open List

inductive Action where
  | reinforce
  | decay
  | quarantine
  | restore
  | softDelete
  | other (name : String)
  deriving DecidableEq

def Action.name : Action -> String
  | .reinforce => "reinforce"
  | .decay => "decay"
  | .quarantine => "quarantine"
  | .restore => "restore"
  | .softDelete => "soft_delete"
  | .other name => name

/-- What an action adds to the weight; an unknown one adds nothing. -/
def delta : Action -> Rat
  | .reinforce => 2 / 10
  | .decay => -15 / 100
  | .quarantine => -3 / 10
  | .restore => 3 / 10
  | .softDelete => 0
  | .other _ => 0

def isDecayAction : Action -> Bool
  | .decay => true
  | .quarantine => true
  | _ => false

/-- The actions the history table accepts. -/
def isKnown : Action -> Bool
  | .other _ => false
  | _ => true

def rateLimitMs : Int := 60000

inductive QuarantineState where
  | soft
  | released
  deriving DecidableEq

structure FragmentLink where
  weight : Rat := 1
  confidence : Rat := 1
  quarantineState : Option QuarantineState := none
  deletedAt : Option Int := none
  deleteReason : Option String := none
  deriving DecidableEq

structure Row where
  action : Action
  oldWeight : Rat
  newWeight : Rat
  oldConfidence : Rat
  newConfidence : Rat
  reason : String
  triggeredBy : Option String
  keyId : Option String
  deriving DecidableEq

structure Call where
  action : Action
  now : Int
  triggeredBy : Option String := none
  keyId : Option String := none
  failing : Bool := false

structure State where
  link : FragmentLink
  rows : List Row := []
  lastDecayAt : Option Int := none

/-- The columns `UPDATE` sets. -/
def FragmentLink.updated (link : FragmentLink) (call : Call) : FragmentLink :=
  { weight := max 0 (min 2 (link.weight + delta call.action))
    confidence :=
      if delta call.action < 0 then max 0 (link.confidence - 1 / 10)
      else if 0 < delta call.action then min 1 (link.confidence + 5 / 100)
      else link.confidence
    quarantineState :=
      if call.action = .quarantine then some .soft
      else if call.action = .restore then some .released
      else link.quarantineState
    deletedAt := if call.action = .softDelete then some call.now else link.deletedAt
    deleteReason := if call.action = .softDelete then call.triggeredBy else link.deleteReason }

/-- The row, from the columns `RETURNING` computes on the updated link. -/
def rowOf (call : Call) (updated : FragmentLink) : Row :=
  { action := call.action
    oldWeight := updated.weight - delta call.action
    newWeight := updated.weight
    oldConfidence :=
      if delta call.action < 0 then updated.confidence + 1 / 10
      else if 0 < delta call.action then updated.confidence - 5 / 100
      else updated.confidence
    newConfidence := updated.confidence
    reason := call.triggeredBy.getD call.action.name
    triggeredBy := call.triggeredBy
    keyId := call.keyId }

def rateLimited (call : Call) (state : State) : Bool :=
  isDecayAction call.action &&
    match state.lastDecayAt with
    | some last => decide (last ≠ 0 ∧ call.now - last < rateLimitMs)
    | none => false

inductive Outcome where
  | skipped
  | threw
  | recorded (row : Row)

def reconsolidate (call : Call) (state : State) : Outcome × State :=
  if rateLimited call state then (.skipped, state)
  else
    let state := if isDecayAction call.action then { state with lastDecayAt := some call.now }
      else state
    if call.failing then (.threw, state)
    else if state.link.deletedAt.isSome then (.skipped, state)
    else if isKnown call.action then
      let updated := state.link.updated call
      let row := rowOf call updated
      (.recorded row, { state with link := updated, rows := state.rows ++ [row] })
    else (.threw, state)

def attempts : State -> List Call -> List (State × Call)
  | _, [] => []
  | state, call :: calls => (state, call) :: attempts (reconsolidate call state).2 calls

def visited : State -> List Call -> List State
  | state, [] => [state]
  | state, call :: calls => state :: visited (reconsolidate call state).2 calls

def recorded : State -> List Call -> List (FragmentLink × Row)
  | _, [] => []
  | state, call :: calls =>
    let after := (reconsolidate call state).2
    (after.rows.drop state.rows.length).map (fun row => (state.link, row)) ++
      recorded after calls

structure InBounds (link : FragmentLink) : Prop where
  weight : 0 ≤ link.weight ∧ link.weight ≤ 2
  confidence : 0 ≤ link.confidence ∧ link.confidence ≤ 1

structure Faithful (start : State) (calls : List Call) : Prop where
  bounded : ∀ state ∈ visited start calls, InBounds state.link
  oldValues : ∀ entry ∈ recorded start calls,
    entry.2.oldWeight = entry.1.weight ∧ entry.2.oldConfidence = entry.1.confidence
  chained : ((recorded start calls).map Prod.snd).IsChain fun earlier later =>
    later.oldWeight = earlier.newWeight ∧ later.oldConfidence = earlier.newConfidence
  deleted : ∀ attempt ∈ attempts start calls,
    attempt.1.link.deletedAt.isSome -> (reconsolidate attempt.2 attempt.1).2.link = attempt.1.link

def takesEffect (call : Call) (state : State) : Bool :=
  !rateLimited call state && !call.failing && state.link.deletedAt.isNone && isKnown call.action

/-- The step leaves the ranges at no end. -/
structure Unclamped (action : Action) (link : FragmentLink) : Prop where
  weight : 0 ≤ link.weight + delta action ∧ link.weight + delta action ≤ 2
  down : delta action < 0 -> 1 / 10 ≤ link.confidence
  up : 0 < delta action -> link.confidence ≤ 95 / 100

variable {state : State}

theorem reconsolidate_of_takesEffect {call : Call} (heffect : takesEffect call state = true) :
    (reconsolidate call state).2.link = state.link.updated call /\
      (reconsolidate call state).2.rows =
        state.rows ++ [rowOf call (state.link.updated call)] := by
  simp only [takesEffect, Bool.and_eq_true, Bool.not_eq_true', Option.isNone_iff_eq_none]
    at heffect
  obtain ⟨⟨⟨hopen, hworks⟩, hlive⟩, hknown⟩ := heffect
  rw [reconsolidate]
  cases hdecay : isDecayAction call.action <;> simp [hopen, hworks, hlive, hknown]

theorem reconsolidate_of_not_takesEffect {call : Call} (heffect : takesEffect call state = false) :
    (reconsolidate call state).2.link = state.link /\
      (reconsolidate call state).2.rows = state.rows := by
  rw [reconsolidate]
  cases hlimited : rateLimited call state with
  | true => exact ⟨rfl, rfl⟩
  | false =>
    rw [if_neg Bool.false_ne_true]
    cases hfails : call.failing with
    | true => cases isDecayAction call.action <;> exact ⟨rfl, rfl⟩
    | false =>
      cases hdeleted : state.link.deletedAt with
      | some time => cases isDecayAction call.action <;> simp [hdeleted]
      | none =>
        have hknown : isKnown call.action = false := by
          simpa [takesEffect, hlimited, hfails, hdeleted] using heffect
        cases isDecayAction call.action <;> simp [hdeleted, hknown]

/-- The columns `UPDATE` sets are within their ranges. -/
theorem updated_inBounds {link : FragmentLink} (hbounds : InBounds link) (call : Call) :
    InBounds (link.updated call) := by
  refine ⟨⟨le_max_left _ _, max_le (by norm_num) (min_le_left _ _)⟩, ?_⟩
  obtain ⟨hlow, hhigh⟩ := hbounds.confidence
  unfold FragmentLink.updated
  dsimp only
  split
  · exact ⟨le_max_left _ _, max_le (by norm_num) (by linarith)⟩
  · split
    · exact ⟨le_min (by norm_num) (by linarith), min_le_left _ _⟩
    · exact ⟨hlow, hhigh⟩

theorem clamped_eq_iff (x : Rat) : max 0 (min 2 x) = x <-> 0 ≤ x ∧ x ≤ 2 := by
  constructor
  · intro hsame
    rw [← hsame]
    exact ⟨le_max_left _ _, max_le (by norm_num) (min_le_left _ _)⟩
  · rintro ⟨hlow, hhigh⟩
    rw [min_eq_right hhigh, max_eq_right hlow]

theorem rowOf_old_iff (link : FragmentLink) (call : Call) :
    ((rowOf call (link.updated call)).oldWeight = link.weight ∧
        (rowOf call (link.updated call)).oldConfidence = link.confidence) <->
      Unclamped call.action link := by
  have hweight : (rowOf call (link.updated call)).oldWeight = link.weight <->
      0 ≤ link.weight + delta call.action ∧ link.weight + delta call.action ≤ 2 := by
    rw [← clamped_eq_iff]
    exact sub_eq_iff_eq_add
  have hconfidence : (rowOf call (link.updated call)).oldConfidence = link.confidence <->
      (delta call.action < 0 -> 1 / 10 ≤ link.confidence) ∧
        (0 < delta call.action -> link.confidence ≤ 95 / 100) := by
    simp only [rowOf, FragmentLink.updated]
    rcases lt_trichotomy (delta call.action) 0 with hneg | hzero | hpos
    · rw [if_pos hneg, if_pos hneg, ← eq_sub_iff_add_eq, max_eq_right_iff]
      simp only [hneg, hneg.le.not_gt, true_implies, false_implies, and_true, sub_nonneg]
    · simp [hzero]
    · rw [if_neg hpos.le.not_gt, if_neg hpos.le.not_gt, if_pos hpos, if_pos hpos,
        sub_eq_iff_eq_add, min_eq_right_iff]
      simp only [hpos, hpos.le.not_gt, true_implies, false_implies, true_and]
      exact ⟨fun hle => by linarith, fun hle => by linarith⟩
  rw [hweight, hconfidence]
  exact ⟨fun h => ⟨h.1, h.2.1, h.2.2⟩, fun h => ⟨h.weight, h.down, h.up⟩⟩

theorem visited_inBounds {start : State} (hbounds : InBounds start.link) (calls : List Call) :
    ∀ state ∈ visited start calls, InBounds state.link := by
  induction calls generalizing start with
  | nil =>
    intro state hstate
    rwa [mem_singleton.mp hstate]
  | cons call calls ih =>
    intro state hstate
    rcases mem_cons.mp hstate with rfl | hrest
    · exact hbounds
    · refine ih ?_ state hrest
      cases heffect : takesEffect call start with
      | true =>
        rw [(reconsolidate_of_takesEffect heffect).1]
        exact updated_inBounds hbounds call
      | false =>
        rw [(reconsolidate_of_not_takesEffect heffect).1]
        exact hbounds

theorem recorded_cons (start : State) (call : Call) (calls : List Call) :
    recorded start (call :: calls) =
      (if takesEffect call start then
        [(start.link, rowOf call (start.link.updated call))] else []) ++
        recorded (reconsolidate call start).2 calls := by
  rw [recorded]
  cases heffect : takesEffect call start with
  | true => simp [(reconsolidate_of_takesEffect heffect).2]
  | false => simp [(reconsolidate_of_not_takesEffect heffect).2]

def effectOf (attempt : State × Call) : Option (FragmentLink × Row) :=
  if takesEffect attempt.2 attempt.1 then
    some (attempt.1.link, rowOf attempt.2 (attempt.1.link.updated attempt.2))
  else none

theorem recorded_eq (start : State) (calls : List Call) :
    recorded start calls = (attempts start calls).filterMap effectOf := by
  induction calls generalizing start with
  | nil => rfl
  | cons call calls ih =>
    rw [recorded_cons, attempts, ih]
    cases heffect : takesEffect call start with
    | true => simp [effectOf, heffect]
    | false => simp [effectOf, heffect]

theorem recorded_links (start : State) (calls : List Call) :
    (∀ first ∈ (recorded start calls).head?,
        first.1.weight = start.link.weight ∧ first.1.confidence = start.link.confidence) /\
      (recorded start calls).IsChain fun earlier later =>
        later.1.weight = earlier.2.newWeight ∧ later.1.confidence = earlier.2.newConfidence := by
  induction calls generalizing start with
  | nil => simp [recorded]
  | cons call calls ih =>
    obtain ⟨hfirst, hchain⟩ := ih (reconsolidate call start).2
    rw [recorded_cons]
    cases heffect : takesEffect call start with
    | true =>
      rw [(reconsolidate_of_takesEffect heffect).1] at hfirst
      rw [if_pos rfl, singleton_append]
      refine ⟨fun first hhead => ?_, isChain_cons.mpr ⟨hfirst, hchain⟩⟩
      rw [head?_cons, Option.mem_some_iff] at hhead
      rw [← hhead]
      exact ⟨rfl, rfl⟩
    | false =>
      rw [(reconsolidate_of_not_takesEffect heffect).1] at hfirst
      rw [if_neg Bool.false_ne_true, nil_append]
      exact ⟨hfirst, hchain⟩

theorem reconsolidate_deleted (call : Call) (hdeleted : state.link.deletedAt.isSome) :
    (reconsolidate call state).2.link = state.link := by
  refine (reconsolidate_of_not_takesEffect ?_).1
  cases htime : state.link.deletedAt with
  | none => rw [htime] at hdeleted; exact nomatch hdeleted
  | some time => simp [takesEffect, htime]

theorem oldValues_iff (start : State) (calls : List Call) :
    (∀ entry ∈ recorded start calls,
        entry.2.oldWeight = entry.1.weight ∧ entry.2.oldConfidence = entry.1.confidence) <->
      ∀ attempt ∈ attempts start calls,
        takesEffect attempt.2 attempt.1 = true ->
          Unclamped attempt.2.action attempt.1.link := by
  rw [recorded_eq]
  constructor
  · intro hold attempt hattempt heffect
    refine (rowOf_old_iff attempt.1.link attempt.2).mp (hold (_, _) ?_)
    exact mem_filterMap.mpr ⟨attempt, hattempt, if_pos heffect⟩
  · intro hfree entry hentry
    obtain ⟨attempt, hattempt, heffect⟩ := mem_filterMap.mp hentry
    obtain ⟨htakes, hpair⟩ := Option.ite_none_right_eq_some.mp heffect
    cases hpair
    exact (rowOf_old_iff attempt.1.link attempt.2).mpr (hfree attempt hattempt htakes)

/-- The history is faithful over a run exactly when the link starts within its
ranges and no call that takes effect leaves one. -/
theorem faithful_iff (start : State) (calls : List Call) :
    Faithful start calls <-> InBounds start.link /\
      ∀ attempt ∈ attempts start calls,
        takesEffect attempt.2 attempt.1 = true ->
          Unclamped attempt.2.action attempt.1.link := by
  constructor
  · intro hfaithful
    refine ⟨hfaithful.bounded start ?_, (oldValues_iff start calls).mp hfaithful.oldValues⟩
    cases calls <;> exact mem_cons_self
  · rintro ⟨hbounds, hfree⟩
    have hold := (oldValues_iff start calls).mpr hfree
    refine ⟨visited_inBounds hbounds calls, hold, ?_, fun attempt _ hdeleted =>
      reconsolidate_deleted attempt.2 hdeleted⟩
    rw [isChain_map]
    refine (recorded_links start calls).2.imp_of_mem_imp fun earlier later _ hlater hlinks => ?_
    obtain ⟨hweight, hconfidence⟩ := hold later hlater
    exact ⟨hweight.trans hlinks.1, hconfidence.trans hlinks.2⟩

def freshLink : State := { link := {} }

def reinforceOnce : List Call := [{ action := .reinforce, now := 1 }]

/-- The row says the confidence was 0.95 before, and it was 1. -/
theorem reinforce_fresh_not_faithful : ¬ Faithful freshLink reinforceOnce := by
  intro hfaithful
  have hentry := hfaithful.oldValues
    ({}, rowOf { action := .reinforce, now := 1 } ({ weight := 6 / 5, confidence := 1 }))
  exact absurd (hentry (by decide +kernel)).2 (by decide +kernel)

end AnchorMind.Link.Reconsolidation
