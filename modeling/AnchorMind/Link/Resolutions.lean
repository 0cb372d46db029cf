import AnchorMind.Kernel.Chains
import AnchorMind.Link.DetectorSteps

/-!
# The successors that resolutions name

A resolution names a successor, closes the loser, and notes the contradiction, each in a
statement of its own.  What it goes by may be older than the store: pending pairs are read
without a look at `valid_to`, and a scan judges pairs that it has closed before.  As long as
the winner is live and has no successor when its link is written, and nobody closes it before
the loser is closed, every closed fragment has a successor that was live, and no chain of
successors comes back.
-/

namespace AnchorMind.Link.ContradictionDetector

open Kernel.KeyedTable Kernel.Succession Kernel.Transition List

/-- A resolution has named `next` as the successor of `id`. -/
def Names {Id : Type*} (state : State Id) (id next : Id) : Prop :=
  (id, next) ∈ state.history.superseded

/-- What is promised of the fragments that resolutions close and of the links that name
their successors. -/
structure Sound {Id : Type*} (state : State Id) : Prop where
  named : ∀ closing ∈ state.history.closings,
    Names state closing.loser closing.winner
  winnerLive : ∀ closing ∈ state.history.closings, closing.winnerLive = true
  closedOnce : (state.history.closings.map Closing.loser).Nodup
  acyclic : ∀ id, Not (Relation.TransGen (Names state) id id)

variable {Id : Type*} {before state : State Id}

def Has (fragments : Fragments Id) (id : Id) (live : Bool) : Prop :=
  ∃ row ∈ fragments, row.id = id /\ row.isLive = live

theorem Has.apply {fragments : Fragments Id} {id : Id} {live : Bool}
    {update : Table.Update (Fragment.id : Fragment Id -> Id) (fun _ => True)}
    (hhas : Has fragments id live)
    (hkeeps : ∀ row, row.id = id -> row.isLive = live -> update.select row = true ->
      (update.image row).isLive = live) : Has (fragments.apply update) id live := by
  obtain ⟨row, hrow, hid, hlive⟩ := hhas
  cases hselect : update.select row with
  | true =>
    exact ⟨_, Table.mem_apply_of_selected hrow hselect, (update.keepsKey row).trans hid,
      hkeeps row hid hlive hselect⟩
  | false => exact ⟨row, Table.mem_apply_of_unselected hrow hselect, hid, hlive⟩

section

variable [LinearOrder Id] {id : Id}

theorem isLiveId_iff : state.isLiveId id = true <-> Has state.fragments id true := by
  simp [State.isLiveId, Has, Table.mem_def]

theorem Has.not_live (hclosed : Has state.fragments id false) : state.isLiveId id = false := by
  rw [Bool.eq_false_iff]
  intro hlive
  obtain ⟨row, hrow, hid, hopen⟩ := isLiveId_iff.mp hlive
  obtain ⟨old, hold, hold', hend⟩ := hclosed
  rw [Table.eq_of_key_eq hrow hold (hid.trans hold'.symm), hend] at hopen
  cases hopen

theorem has_otherStep {after : State Id} {label : Label Id} {live : Bool}
    (hstep : otherStep before label = some after) (hhas : Has before.fragments id live)
    (hlabel : live = true -> ∀ now, label ≠ .closeRow id now) : Has after.fragments id live := by
  cases label <;> simp only [otherStep, reduceCtorEq, Option.some.injEq] at hstep
  case create row =>
    split at hstep
    · rename_i hfresh
      cases hstep
      obtain ⟨old, hold, hid⟩ := hhas
      refine ⟨old, ?_, hid⟩
      change old ∈ Table.insert _ _ hfresh trivial
      exact Table.mem_insert.mpr (.inl hold)
    · cases hstep
  case embed other =>
    subst hstep
    exact hhas.apply fun row _ hlive _ => hlive
  case review other reviewState =>
    subst hstep
    exact hhas.apply fun row _ hlive _ => hlive
  case closeRow other now =>
    subst hstep
    refine hhas.apply fun row hid hlive hselect => ?_
    simp only [closeRow, Bool.and_eq_true, decide_eq_true_eq] at hselect
    obtain ⟨hother, hopen⟩ := hselect
    rw [hopen] at hlive
    exact absurd rfl (hid ▸ hother ▸ hlabel hlive.symm now)
  case relink fromId toId row =>
    subst hstep
    exact hhas

theorem has_close {resolution : Resolution Id} {now : Int} {live : Bool}
    (hhas : Has state.fragments id live) (hid : live = true -> id ≠ resolution.loser.id) :
    Has (state.fragments.apply (closeLoser resolution now)) id live := by
  refine hhas.apply fun row hrow hlive hselect => ?_
  simp only [closeLoser, Bool.and_eq_true, decide_eq_true_eq] at hselect
  obtain ⟨hloser, hopen⟩ := hselect
  rw [hopen] at hlive
  exact absurd (hrow.symm.trans hloser) (hid hlive.symm)

theorem has_close_loser {resolution : Resolution Id} {now : Int}
    (hlive : state.isLiveId resolution.loser.id = true) :
    Has (state.fragments.apply (closeLoser resolution now)) resolution.loser.id false := by
  obtain ⟨row, hrow, hid, hopen⟩ := isLiveId_iff.mp hlive
  have hselect : (closeLoser resolution now).select row = true := by simp [closeLoser, hid, hopen]
  exact ⟨_, Table.mem_apply_of_selected hrow hselect, hid, rfl⟩

end

section

variable [LinearOrder Id]

/-- The steps that keep successors in order: the winner of a resolution is live and has
no successor when its link is written, and nobody else closes it before the loser is
closed. -/
def Settled (state : State Id) : Label Id -> Prop
  | .execute _ =>
    ∀ resolution, naming state.point = some resolution ->
      state.isLiveId resolution.winner.id = true /\
        ∀ entry ∈ state.history.superseded, entry.1 ≠ resolution.winner.id
  | .closeRow id _ =>
    ∀ resolution, closing state.point = some resolution -> id ≠ resolution.winner.id
  | _ => True

instance (state : State Id) (label : Label Id) : Decidable (Settled state label) := by
  cases label <;> simp only [Settled] <;> infer_instance

/-- What the steps keep, beside what is promised: no closed fragment is opened again, and
the winner stays live up to the closing statement. -/
structure Kept (state : State Id) : Prop extends Sound state where
  stayClosed : ∀ entry ∈ state.history.closings,
    Has state.fragments entry.loser false
  inFlight : ∀ resolution, closing state.point = some resolution ->
    Names state resolution.loser.id resolution.winner.id /\
      Has state.fragments resolution.winner.id true

omit [LinearOrder Id] in
theorem Kept.ofFresh (hfresh : Fresh state) : Kept state where
  named entry hentry := by
    rw [hfresh.closings] at hentry
    exact absurd hentry not_mem_nil
  winnerLive entry hentry := by
    rw [hfresh.closings] at hentry
    exact absurd hentry not_mem_nil
  closedOnce := by
    rw [hfresh.closings]
    exact nodup_nil
  acyclic id hcycle := by
    obtain ⟨next, hstep, -⟩ := Relation.TransGen.head'_iff.mp hcycle
    rw [Names, hfresh.superseded] at hstep
    exact not_mem_nil hstep
  stayClosed entry hentry := by
    rw [hfresh.closings] at hentry
    exact absurd hentry not_mem_nil
  inFlight resolution hclosing := by
    rw [hfresh.point] at hclosing
    cases hclosing

omit [LinearOrder Id] in
theorem Sound.of_record {after : State Id} (hsound : Sound before)
    (hsuperseded : after.history.superseded = before.history.superseded)
    (hclosings : after.history.closings = before.history.closings) : Sound after := by
  have hnames : Names after = Names before := by
    funext id next
    simp only [Names, hsuperseded]
  constructor
  · rw [hclosings, hnames]
    exact hsound.named
  · rw [hclosings]
    exact hsound.winnerLive
  · rw [hclosings]
    exact hsound.closedOnce
  · rw [hnames]
    exact hsound.acyclic

variable {after : State Id} {label : Label Id}

section

variable (hkept : Kept before)
include hkept

theorem Kept.others (hstep : otherStep before label = some after)
    (hsettled : Settled before label) : Kept after := by
  obtain ⟨hpoint, hhistory, -, -, -, -⟩ := others_otherStep hstep
  have hsound : Sound after :=
    hkept.toSound.of_record (by rw [hhistory]) (by rw [hhistory])
  refine { hsound with stayClosed := ?_, inFlight := ?_ }
  · rw [hhistory]
    exact fun entry hentry =>
      has_otherStep hstep (hkept.stayClosed entry hentry) fun hopen => absurd hopen (by decide)
  · rw [hpoint]
    intro resolution hclosing
    obtain ⟨hnames, hlive⟩ := hkept.inFlight resolution hclosing
    refine ⟨by rwa [Names, hhistory], has_otherStep hstep hlive fun _ now heq => ?_⟩
    subst heq
    exact hsettled resolution hclosing rfl

omit [LinearOrder Id] in
theorem Kept.calm {after : State Id} (hcalm : Calm before after) : Kept after := by
  have hsound : Sound after := hkept.toSound.of_record hcalm.superseded hcalm.closings
  refine { hsound with stayClosed := ?_, inFlight := ?_ }
  · rw [hcalm.closings, hcalm.fragments]
    exact hkept.stayClosed
  · intro resolution hclosing
    rw [hcalm.opening] at hclosing
    cases hclosing

variable {resolution : Resolution Id} {caller : Caller Id}

section

variable (hready : Ready before)
include hready

/-- The link is written: the winner has no successor, so no chain comes back. -/
theorem Kept.supersede (hpoint : before.point = .resolving resolution .supersede caller)
    (hlive : before.isLiveId resolution.winner.id = true)
    (hend : ∀ entry ∈ before.history.superseded, entry.1 ≠ resolution.winner.id) :
    Kept { before.supersede resolution with point := .resolving resolution .close caller } := by
  have hapart := hready.apart
  rw [hpoint] at hapart
  have hne := hapart.1.loser_ne_winner
  refine
    { named := fun entry hentry => mem_cons_of_mem _ (hkept.named entry hentry)
      winnerLive := hkept.winnerLive
      closedOnce := hkept.closedOnce
      acyclic := fun id => ?_
      stayClosed := hkept.stayClosed
      inFlight := ?_ }
  · have hnames : ∀ id next,
        Names { before.supersede resolution with point := .resolving resolution .close caller }
          id next ->
        Names before id next \/ (id = resolution.loser.id /\ next = resolution.winner.id) := by
      intro id next hname
      rcases mem_cons.mp hname with heq | hold
      · exact .inr (Prod.mk.injEq .. ▸ heq)
      · exact .inl hold
    have hnone : ∀ next, Not (Names before resolution.winner.id next) :=
      fun next hname => hend _ hname rfl
    exact fun hcycle =>
      acyclic_insert hkept.acyclic hnone hne id (Relation.TransGen.mono hnames id id hcycle)
  · intro other hother
    cases hother
    exact ⟨mem_cons_self, isLiveId_iff.mp hlive⟩

theorem Kept.close {point : Point Id} (hpoint : before.point = .resolving resolution .close caller)
    (hopening : closing point = none) (now : Int) :
    Kept { before.close resolution now with point := point } := by
  have hne : resolution.loser.id ≠ resolution.winner.id := by
    have hbefore := hready.apart
    rw [hpoint] at hbefore
    exact hbefore.1.loser_ne_winner
  obtain ⟨hnames, hwinner⟩ := hkept.inFlight resolution (by rw [hpoint]; rfl)
  have hflight : ∀ other, closing point = some other ->
      Names { before.close resolution now with point := point } other.loser.id other.winner.id /\
        Has (before.close resolution now).fragments other.winner.id true := by
    intro other hother
    rw [hopening] at hother
    cases hother
  unfold State.close at hflight ⊢
  split at hflight
  · rename_i hlive
    rw [if_pos hlive]
    refine
      { named := ?_
        winnerLive := ?_
        closedOnce := ?_
        acyclic := hkept.acyclic
        stayClosed := ?_
        inFlight := hflight }
    · intro entry hentry
      rcases mem_cons.mp hentry with rfl | hold
      · exact hnames
      · exact hkept.named entry hold
    · intro entry hentry
      rcases mem_cons.mp hentry with rfl | hold
      · exact isLiveId_iff.mpr hwinner
      · exact hkept.winnerLive entry hold
    · refine nodup_cons.mpr ⟨fun hmem => ?_, hkept.closedOnce⟩
      obtain ⟨entry, hentry, hloser⟩ := mem_map.mp hmem
      have hclosed := (hkept.stayClosed entry hentry).not_live
      change entry.loser = resolution.loser.id at hloser
      rw [hloser, hlive] at hclosed
      cases hclosed
    · intro entry hentry
      rcases mem_cons.mp hentry with rfl | hold
      · exact has_close_loser hlive
      · exact has_close (hkept.stayClosed entry hold) fun hopen => absurd hopen (by decide)
  · rename_i hdead
    rw [if_neg hdead]
    exact
      { named := hkept.named
        winnerLive := hkept.winnerLive
        closedOnce := hkept.closedOnce
        acyclic := hkept.acyclic
        stayClosed := hkept.stayClosed
        inFlight := hflight }

theorem Kept.execute {statement : Statement} {now : Int}
    (hpoint : before.point = .resolving resolution statement caller)
    (hsettled : Settled before (.execute now)) :
    Kept (before.execute resolution statement caller now) := by
  have hapart := hready.apart
  rw [hpoint] at hapart
  cases statement with
  | supersede =>
    obtain ⟨hlive, hend⟩ := hsettled resolution (by rw [hpoint]; rfl)
    exact hkept.supersede hready hpoint hlive hend
  | close =>
    cases resolution with
    | contradiction newFrag candidate => exact hkept.close hready hpoint rfl now
    | supersession pair => exact hkept.close hready hpoint (closing_returned caller) now
  | contradict =>
    have hcalm : Calm before { before.contradict resolution with
        point := State.returned caller } := by
      cases resolution <;>
        exact ⟨rfl, rfl, rfl, fun hqueued => hqueued, hapart.2.returned, closing_returned caller⟩
    cases resolution <;> exact hkept.calm hcalm

theorem Kept.step (hstep : ContradictionDetector.step before label = some after)
    (hsettled : Settled before label) : Kept after := by
  rcases Option.or_eq_some_iff.mp hstep with hother | ⟨-, hown⟩
  · exact hkept.others hother hsettled
  · by_cases hlabel : Writes label
    · cases writingStep_of_detectorStep hlabel hown with
      | detect => exact hkept.calm (calm_detect _ _ _)
      | settle => exact hkept.calm (calm_settle _ _)
      | finish => exact hkept.calm (calm_finish _ _)
      | execute now hpoint => exact hkept.execute hready hpoint hsettled
    · exact hkept.calm (still_detectorStep hready.queued hready.apart hlabel hown).calm

end

end

theorem kept_reachable (hreach : ((detectorSystem Id).restrict Settled).Reachable state) :
    Ready state /\ Kept state := by
  have hstart : ∀ origin : State Id, Fresh origin -> Ready origin /\ Kept origin :=
    fun origin hfresh => ⟨.ofFresh hfresh, .ofFresh hfresh⟩
  have hkeep : ∀ before label after,
      ((detectorSystem Id).restrict Settled).Reachable before -> Ready before /\ Kept before ->
        ((detectorSystem Id).restrict Settled).step before label after ->
          Ready after /\ Kept after :=
    fun before label after _ hkept hstep =>
      ⟨hkept.1.step hstep.1, hkept.2.step hkept.1 hstep.1 hstep.2⟩
  exact hreach.invariant hstart hkeep

structure HalvedOnce (row later : Fragment Id) : Prop where
  id : later.id = row.id
  closed : row.isLive = false -> later.isLive = false /\ later.importance = row.importance
  importance : later.importance = row.importance \/
    later.isLive = false /\ (later.importance = row.importance / 2 \/
      later.importance = max (1 / 20) (row.importance / 2))

omit [LinearOrder Id] in
theorem HalvedOnce.refl (row : Fragment Id) : HalvedOnce row row where
  id := rfl
  closed hclosed := ⟨hclosed, rfl⟩
  importance := .inl rfl

omit [LinearOrder Id] in
theorem HalvedOnce.trans {a b c : Fragment Id} (hab : HalvedOnce a b) (hbc : HalvedOnce b c) :
    HalvedOnce a c where
  id := hbc.id.trans hab.id
  closed hclosed := by
    obtain ⟨hmid, hsame⟩ := hab.closed hclosed
    obtain ⟨hlast, hsame'⟩ := hbc.closed hmid
    exact ⟨hlast, hsame'.trans hsame⟩
  importance := by
    rcases hab.importance with hsame | ⟨hmid, hhalf⟩
    · rw [<- hsame]
      exact hbc.importance
    · obtain ⟨hlast, hsame⟩ := hbc.closed hmid
      rw [hsame]
      exact Or.inr ⟨hlast, hhalf⟩

omit [LinearOrder Id] in
theorem exists_halvedOnce_apply {fragments : Fragments Id} {row : Fragment Id}
    {update : Table.Update (Fragment.id : Fragment Id -> Id) (fun _ => True)}
    (himage : ∀ row, update.select row = true -> HalvedOnce row (update.image row))
    (hrow : row ∈ fragments) : ∃ later ∈ fragments.apply update, HalvedOnce row later := by
  cases hselect : update.select row with
  | true => exact ⟨_, Table.mem_apply_of_selected hrow hselect, himage row hselect⟩
  | false => exact ⟨row, Table.mem_apply_of_unselected hrow hselect, .refl row⟩

variable {row : Fragment Id}

theorem halvedOnce_otherStep (hstep : otherStep before label = some after)
    (hrow : row ∈ before.fragments) : ∃ later ∈ after.fragments, HalvedOnce row later := by
  cases label <;> simp only [otherStep, reduceCtorEq, Option.some.injEq] at hstep
  case create new =>
    split at hstep
    · rename_i hfresh
      cases hstep
      refine ⟨row, ?_, .refl row⟩
      change row ∈ Table.insert _ _ hfresh trivial
      exact Table.mem_insert.mpr (.inl hrow)
    · cases hstep
  case embed other =>
    subst hstep
    exact exists_halvedOnce_apply (fun row _ => ⟨rfl, fun h => ⟨h, rfl⟩, .inl rfl⟩) hrow
  case review other reviewState =>
    subst hstep
    exact exists_halvedOnce_apply (fun row _ => ⟨rfl, fun h => ⟨h, rfl⟩, .inl rfl⟩) hrow
  case closeRow other now =>
    subst hstep
    exact exists_halvedOnce_apply (fun row _ => ⟨rfl, fun _ => ⟨rfl, rfl⟩, .inl rfl⟩) hrow
  case relink fromId toId link =>
    subst hstep
    exact ⟨row, hrow, .refl row⟩

theorem halvedOnce_close {now : Int} (hrow : row ∈ before.fragments) :
    ∃ later ∈ (before.close resolution now).fragments, HalvedOnce row later := by
  unfold State.close
  split
  · refine exists_halvedOnce_apply (fun row hselect => ⟨rfl, ?_, ?_⟩) hrow
    · intro hclosed
      simp only [closeLoser, hclosed, Bool.and_false, Bool.false_eq_true] at hselect
    · refine Or.inr ⟨rfl, ?_⟩
      cases resolution with
      | contradiction => exact .inl rfl
      | supersession => exact .inr rfl
  · exact ⟨row, hrow, .refl row⟩

theorem halvedOnce_step (hready : Ready before)
    (hstep : ContradictionDetector.step before label = some after) (hrow : row ∈ before.fragments) :
    ∃ later ∈ after.fragments, HalvedOnce row later := by
  rcases Option.or_eq_some_iff.mp hstep with hother | ⟨-, hown⟩
  · exact halvedOnce_otherStep hother hrow
  · have hcalm : Calm before after ->
        ∃ later ∈ after.fragments, HalvedOnce row later := by
      intro hcalm
      rw [hcalm.fragments]
      exact ⟨row, hrow, .refl row⟩
    by_cases hlabel : Writes label
    · cases writingStep_of_detectorStep hlabel hown with
      | detect => exact hcalm (calm_detect _ _ _)
      | settle => exact hcalm (calm_settle _ _)
      | finish => exact hcalm (calm_finish _ _)
      | @execute resolution statement caller now hpoint =>
        cases statement with
        | supersede => exact ⟨row, hrow, .refl row⟩
        | close => cases resolution <;> exact halvedOnce_close hrow
        | contradict => cases resolution <;> exact ⟨row, hrow, .refl row⟩
    · exact hcalm (still_detectorStep hready.queued hready.apart hlabel hown).calm

theorem halvedOnce_run {last : State Id} {labels : List (Label Id)}
    (hreach : ((detectorSystem Id).restrict Settled).Reachable before)
    (hrun : ((detectorSystem Id).restrict Settled).Run before labels last)
    (hrow : row ∈ before.fragments) : ∃ later ∈ last.fragments, HalvedOnce row later := by
  induction hrun generalizing row with
  | nil => exact ⟨row, hrow, .refl row⟩
  | cons hstep hrest ih =>
    obtain ⟨middle, hmiddle, hfirst⟩ := halvedOnce_step (kept_reachable hreach).1 hstep.1 hrow
    obtain ⟨later, hlater, hsecond⟩ := ih (hreach.step hstep) hmiddle
    exact ⟨later, hlater, hfirst.trans hsecond⟩

/-- However detection, pending pairs, and supersessions follow one another, and whatever
others do in between: as long as every winner is live and without a successor when it is
named and is not closed under way, each closed fragment has a live successor when it is
closed, is closed and halved once, and no chain of successors comes back. -/
theorem successions_sound {last : State Id} {labels : List (Label Id)}
    (hreach : ((detectorSystem Id).restrict Settled).Reachable state)
    (hrun : ((detectorSystem Id).restrict Settled).Run state labels last) :
    Sound last /\
      ∀ row ∈ state.fragments,
        ∃ later ∈ last.fragments, HalvedOnce row later :=
  ⟨(kept_reachable (hreach.run hrun)).2.toSound, fun _ hrow => halvedOnce_run hreach hrun hrow⟩

end

/-- Without a CLI the pair waits in the queue, once from each side. -/
def flagLabels : List (Label Nat) :=
  [.detect true false false,
    .candidates (some [{ row := sampleFragment 2, similarity := 19 / 20 }]),
    .judge .null .thrown true, .settle,
    .candidates (some [{ row := sampleFragment 1, similarity := 19 / 20 }]),
    .judge .null .thrown true, .settle, .finish true, .resetCheckedPairs]

def resolveLabels : List (Label Nat) :=
  [.pop true true, .verdict (.answered true) true, .execute 6000, .execute 6000, .execute 6000]

theorem successions_sound_first_entry :
    ∃ last labels, (detectorSystem Nat).Run sampleState labels last /\
      last.history.closings = [{ loser := 1, winner := 2, winnerLive := true }] /\ Sound last := by
  have hrun : (System.follow (fun before label =>
      if Settled before label then ContradictionDetector.step before label else none) sampleState
        (flagLabels ++ .processPending :: resolveLabels)).map (fun last => last.history.closings) =
      some [{ loser := 1, winner := 2, winnerLive := true }] := by
    decide +kernel
  obtain ⟨last, hfollow, hclosings⟩ := Option.map_eq_some_iff.mp hrun
  have hsettled : ((detectorSystem Nat).restrict Settled).Run sampleState
      (flagLabels ++ .processPending :: resolveLabels) last :=
    .of_follow_restrict (fun _ _ _ hstep => hstep) hfollow
  exact ⟨last, _, hsettled.ofRestrict, hclosings,
    (successions_sound (.ofStart sampleState_fresh) hsettled).1⟩

/-- The second entry closes the other fragment in favour of the one closed by the first. -/
theorem second_entry_unsound :
    Not (∀ (state : State Nat), (detectorSystem Nat).Reachable state -> Sound state) := by
  intro hsound
  have hrun : (System.follow ContradictionDetector.step sampleState
      (flagLabels ++ .processPending :: (resolveLabels ++ resolveLabels))).map
        (fun last => last.history.closings) =
      some [{ loser := 2, winner := 1, winnerLive := false },
        { loser := 1, winner := 2, winnerLive := true }] := by
    decide +kernel
  obtain ⟨last, hfollow, hclosings⟩ := Option.map_eq_some_iff.mp hrun
  have hreach : (detectorSystem Nat).Reachable last :=
    ⟨sampleState, _, sampleState_fresh, .of_follow (fun _ _ _ hstep => hstep) hfollow⟩
  have hlive := (hsound last hreach).winnerLive { loser := 2, winner := 1, winnerLive := false }
    (by rw [hclosings]; exact mem_cons_self)
  cases hlive

end AnchorMind.Link.ContradictionDetector
