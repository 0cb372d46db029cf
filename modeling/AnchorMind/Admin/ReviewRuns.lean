import AnchorMind.Admin.ReviewOnce
import Mathlib.Data.List.Nodup

/-!
# Runs of review transactions

Each step keeps the invariant of the transactions in flight, and changes the fragments and
the decision rows only by a commit.
-/

namespace AnchorMind.Admin.ReviewDecisions

open Kernel Kernel.Locks Kernel.RowLocks Kernel.Transition List

def returnedRows (fragments : Table String Fragment) (ids : List String) :
    List (String × Fragment) :=
  ids.filterMap fun id => (fragments id).map fun row => (id, row)

variable {ids : List String}

theorem mem_returnedRows {fragments : Table String Fragment} {entry : String × Fragment}
    (hmem : entry ∈ returnedRows fragments ids) :
    entry.1 ∈ ids /\ fragments entry.1 = some entry.2 := by
  obtain ⟨id, hid, hentry⟩ := mem_filterMap.mp hmem
  obtain ⟨row, hrow, rfl⟩ := Option.map_eq_some_iff.mp hentry
  exact ⟨hid, hrow⟩

theorem returnedRows_sublist (fragments : Table String Fragment) (ids : List String) :
    ((returnedRows fragments ids).map Prod.fst).Sublist ids := by
  induction ids with
  | nil => exact Sublist.refl []
  | cons id rest ih =>
    unfold returnedRows at ih ⊢
    rw [filterMap_cons]
    cases fragments id with
    | none => exact ih.cons id
    | some row => exact ih.cons_cons id

variable {state : State} {place : Nat} {now : Int} {writes : Writes String Fragment}
  {inserted : List DecisionRow}

theorem Inv.reject (hinv : Inv state) {days limit : Nat} {candidates : List String}
    (hcall : state.calls[place]? = some
      { work := .expireStaleReviews days limit, point := .scanning now candidates ids,
        writes := writes, inserted := inserted }) :
    Inv { state.setCall place
        { work := .expireStaleReviews days limit, point := .rejected,
          writes :=
            ((returnedRows state.fragments ids).map fun entry =>
              (entry.1, some (entry.2.reject now))) ++ writes,
          inserted :=
            autoRejections now state.nextId (returnedRows state.fragments ids) ++ inserted } with
      nextId := state.nextId + (returnedRows state.fragments ids).length } := by
  obtain ⟨⟨hwrites, hinserted⟩, hnodup, hheld⟩ := hinv.point hcall
  obtain rfl : writes = [] := hwrites
  obtain rfl : inserted = [] := hinserted
  have hreturned : ∀ entry ∈ returnedRows state.fragments ids,
      state.locks entry.1 = some place /\ state.fragments entry.1 = some entry.2 /\
        entry.2.awaiting = true := by
    intro entry hentry
    obtain ⟨hid, hrow⟩ := mem_returnedRows hentry
    obtain ⟨row, ⟨hlock, hfragment⟩, hawaiting⟩ := hheld entry.1 hid
    cases hrow.symm.trans hfragment
    exact ⟨hlock, hrow, hawaiting⟩
  obtain ⟨rest, hbefore, hafter⟩ := allRows_perm hcall
  refine hinv.move hcall rfl (fun _ _ _ hlock => ⟨hlock, rfl⟩) (fun _ hrow => hrow) ?_ ?_ ?_
    .inl
  · intro id hid
    rw [append_nil, map_map] at hid
    obtain ⟨entry, hentry, rfl⟩ := mem_map.mp hid
    exact (hreturned entry hentry).1
  · intro id
    rw [append_nil, append_nil]
    exact sound_rejections now (hnodup.sublist (returnedRows_sublist state.fragments ids))
      (fun entry hentry => (hreturned entry hentry).2) state.nextId id
  · have hkeys : UniqueIndex.Unique DecisionRow.idempotencyKey
        (autoRejections now state.nextId (returnedRows state.fragments ids) ++
          (state.decisions ++ rest)) :=
      (hinv.keys.perm hbefore).append_uncovered fun row hrow =>
        idempotencyKey_autoRejections now hrow
    refine hkeys.perm ?_
    refine Perm.trans ?_ ((hafter _).append_left state.decisions).symm
    dsimp only
    rw [append_nil, ← append_assoc, ← append_assoc]
    exact perm_append_comm.append_right rest

variable {locks : LockTable String Nat}

theorem covered_acquire (hcovered : Covered locks place writes) (id : String) :
    Covered (acquire locks place id) place writes := by
  intro written hwritten
  rcases eq_or_ne written id with rfl | hne
  · exact acquire_self place written
  · exact (acquire_of_ne place hne).trans (hcovered written hwritten)

theorem covered_acquire_cons (hcovered : Covered locks place writes) (id : String)
    (row : Option Fragment) : Covered (acquire locks place id) place ((id, row) :: writes) := by
  intro written hwritten
  rcases mem_cons.mp hwritten with rfl | hbefore
  · exact acquire_self place _
  · exact covered_acquire hcovered id written hbefore

theorem Inv.write (hinv : Inv state) {id : String}
    (hcall : state.calls[place]? = some
      { work := .closing, point := .begun, writes := writes, inserted := inserted })
    (hfree : state.locks id = none \/ state.locks id = some place) {written : Option Fragment}
    (hstate : ∀ row, written = some row -> ∃ old,
      overlay writes state.fragments id = some old /\ row.reviewState = old.reviewState) :
    Inv { state.setCall place
        { work := .closing, point := .begun, writes := (id, written) :: writes,
          inserted := inserted } with
      locks := acquire state.locks place id } := by
  have hcovered := hinv.covered hcall
  obtain ⟨hsound, hinserted⟩ := hinv.point hcall
  obtain rfl : inserted = [] := hinserted
  refine hinv.takeLock hcall hfree rfl (covered_acquire_cons hcovered id written) ⟨?_, rfl⟩
  intro other
  rcases eq_or_ne other id with rfl | hne
  · rw [overlay_cons_self]
    refine .kept fun row hrow => ?_
    obtain ⟨seen, hseen, hsame⟩ := hstate row hrow
    obtain ⟨old, hold, holdSame⟩ := (hsound other).kept_of_nil hseen
    exact ⟨old, hold, hsame.trans holdSame⟩
  · rw [overlay_cons_of_ne hne]
    exact hsound other

theorem Inv.lockNext (hinv : Inv state) {days limit : Nat} {id : String} {rest : List String}
    (hcall : state.calls[place]? = some
      { work := .expireStaleReviews days limit, point := .scanning now (id :: rest) ids,
        writes := writes, inserted := inserted }) (hfree : state.locks id = none)
    (hstale : (state.fragments id).any (fun row => row.stale days now) = true) :
    Inv { state.setCall place
        { work := .expireStaleReviews days limit, point := .scanning now rest (ids ++ [id]),
          writes := writes, inserted := inserted } with
      locks := acquire state.locks place id } := by
  have hcovered := hinv.covered hcall
  obtain ⟨hclean, hnodup, hheld⟩ := hinv.point hcall
  have hnew : id ∉ ids := by
    intro hmem
    obtain ⟨row, ⟨hlock, -⟩, -⟩ := hheld id hmem
    rw [hfree] at hlock
    cases hlock
  refine hinv.takeLock hcall (.inl hfree) rfl (covered_acquire hcovered id) ⟨hclean, ?_, ?_⟩
  · exact nodup_append.mpr ⟨hnodup, nodup_singleton id, fun one hone other hother => by
      obtain rfl := mem_singleton.mp hother
      exact fun heq => hnew (heq ▸ hone)⟩
  · intro wanted hwanted
    rcases mem_append.mp hwanted with hbefore | hlast
    · obtain ⟨row, ⟨hlock, hrow⟩, hawaiting⟩ := hheld wanted hbefore
      have hne : wanted ≠ id := fun heq => hnew (heq ▸ hbefore)
      exact ⟨row, ⟨(acquire_of_ne place hne).trans hlock, hrow⟩,
        hawaiting⟩
    · obtain rfl := mem_singleton.mp hlast
      rcases hrow : state.fragments wanted with _ | row
      · rw [hrow] at hstale
        cases hstale
      · rw [hrow] at hstale
        exact ⟨row, ⟨acquire_self place wanted, hrow⟩, (Bool.and_eq_true_iff.mp hstale).1⟩

/-- What a step does to the committed rows: nothing, or the commit of a call. -/
def Moves (before after : State) : Prop :=
  (after.fragments = before.fragments /\ after.decisions = before.decisions) \/
    ∃ call, Sound before.fragments call /\
      after.fragments = overlay call.writes before.fragments /\
        after.decisions = before.decisions ++ call.inserted

theorem Inv.begin (hinv : Inv state) (work : Work) :
    Inv { state with
      calls := state.calls ++
        [{ work := work, point := .begun, writes := [], inserted := [] }] } := by
  have hcases : ∀ {place : Nat} {call : Call},
      (state.calls ++ [{ work := work, point := .begun, writes := [], inserted := [] }])[place]? =
        some call -> state.calls[place]? = some call \/
          call = { work := work, point := .begun, writes := [], inserted := [] } := by
    intro place call hcall
    rw [getElem?_append] at hcall
    split at hcall
    · exact .inl hcall
    · exact .inr (mem_singleton.mp (mem_of_getElem? hcall))
  constructor
  · intro place call hcall
    rcases hcases hcall with hbefore | rfl
    · exact hinv.covered hbefore
    · intro id hid
      cases hid
  · intro place call hcall
    rcases hcases hcall with hbefore | rfl
    · exact (hinv.point hbefore).mono (hinv.covered hbefore) (fun _ hlock => hlock)
        (fun _ _ => rfl) (fun _ hrow => hrow)
    · have hclean : Clean { work := work, point := .begun, writes := [], inserted := [] } :=
        ⟨rfl, rfl⟩
      cases work with
      | decideReview input => exact hclean
      | expireStaleReviews days limit => exact hclean
      | closing => exact ⟨hclean.sound state.fragments, rfl⟩
  · have hkeys := hinv.keys
    unfold State.allRows at hkeys ⊢
    rw [flatMap_append, flatMap_singleton, append_nil]
    exact hkeys
  · exact hinv.results

theorem resolve_rows (state : State) (place : Nat) (call : Call) (input : Input)
    (found : Option Fragment) :
    (state.resolve place call input found).fragments = state.fragments /\
      (state.resolve place call input found).decisions = state.decisions := by
  unfold State.resolve
  split
  · exact ⟨rfl, rfl⟩
  · exact ⟨rfl, rfl⟩
  · split
    · exact ⟨rfl, rfl⟩
    · split <;> exact ⟨rfl, rfl⟩

variable {after : State} {call : Call}

theorem insertDecision_rows {input : Input} {current : Fragment} {anchor : Anchor}
    (hstep : state.insertDecision place call input current anchor now = some after) :
    after.fragments = state.fragments /\ after.decisions = state.decisions := by
  unfold State.insertDecision at hstep
  split at hstep
  · cases hstep
    exact ⟨rfl, rfl⟩
  · split at hstep
    · cases hstep
    · cases hstep
      exact ⟨rfl, rfl⟩

theorem Inv.finish (hinv : Inv state) (hcall : state.calls[place]? = some call) {delivered : Bool}
    (hstep : state.finish place call delivered = some after) : Inv after /\ Moves state after := by
  have hat := hinv.point hcall
  unfold State.finish at hstep
  split at hstep
  · rename_i input answer hwork hpoint
    cases hstep
    unfold AtPoint at hat
    rw [hwork, hpoint] at hat
    refine ⟨hinv.commit hcall ?_, .inr ⟨call, hat.1, rfl, rfl⟩⟩
    intro key answer' hmem
    rcases mem_answer hmem with hbefore | ⟨input', hinput, rfl, hresult⟩
    · exact .inl hbefore
    · obtain rfl : input = input' := Work.decideReview.inj (hwork.symm.trans hinput)
      split at hresult
      · obtain rfl := Except.ok.inj hresult
        exact .inr hat.2
      · cases hresult
  · rename_i hwork hpoint
    cases hstep
    unfold AtPoint at hat
    rw [hwork, hpoint] at hat
    exact ⟨hinv.commit hcall .inl, .inr ⟨call, hat, rfl, rfl⟩⟩
  · rename_i hwork hpoint
    cases hstep
    unfold AtPoint at hat
    rw [hwork, hpoint] at hat
    exact ⟨hinv.commit hcall .inl, .inr ⟨call, hat.1, rfl, rfl⟩⟩
  · cases hstep

theorem Inv.lookup (hinv : Inv state) (hcall : state.calls[place]? = some call) {input : Input}
    (hwork : call.work = .decideReview input) {answer : Answer}
    (hfind : findReplay state.decisions input.idempotencyKey input.fragmentId input.decision =
      .ok (some answer)) :
    Inv { state.rollback place call .ended with
      results := call.work.answer (.ok answer) state.results } := by
  refine hinv.rollback hcall (fun after => atPoint_ended after place call) ?_
  intro key found hmem
  rcases mem_answer hmem with hbefore | ⟨input', hinput, rfl, hresult⟩
  · exact .inl hbefore
  · obtain rfl : input = input' := Work.decideReview.inj (hwork.symm.trans hinput)
    obtain rfl := Except.ok.inj hresult
    exact .inr (named_of_find hfind)

theorem Inv.step {before : State} {label : Label} (hinv : Inv before)
    (hstep : step before label = some after) : Inv after /\ Moves before after := by
  cases label with
  | begin work =>
    simp only [ReviewDecisions.step] at hstep
    split at hstep
    · cases hstep
      exact ⟨hinv.begin work, .inl ⟨rfl, rfl⟩⟩
    · cases hstep
  | lock place =>
    simp only [ReviewDecisions.step] at hstep
    split at hstep
    · rename_i input writes inserted hcall
      have hcovered := hinv.covered hcall
      have hclean : Clean _ := hinv.point hcall
      split at hstep
      · rename_i hmissing
        cases hstep
        refine ⟨hinv.setCall hcall rfl hcovered ⟨hclean, ?_⟩, .inl ⟨rfl, rfl⟩⟩
        intro row hrow
        rw [hmissing] at hrow
        cases hrow
      · rename_i hfree
        cases hstep
        refine ⟨hinv.takeLock hcall (.inl hfree) rfl (covered_acquire hcovered _)
          ⟨hclean, fun row hrow => ⟨acquire_self place _, hrow⟩⟩, .inl ⟨rfl, rfl⟩⟩
      · cases hstep
    · cases hstep
  | replay place =>
    simp only [ReviewDecisions.step] at hstep
    split at hstep
    · rename_i input found writes inserted hcall
      cases hstep
      exact ⟨hinv.resolve hcall rfl rfl, .inl (resolve_rows ..)⟩
    · cases hstep
  | update place now check =>
    simp only [ReviewDecisions.step] at hstep
    split at hstep
    · rename_i input current writes inserted hcall
      cases hstep
      obtain ⟨⟨hwrites, hinserted⟩, hholds, hawaiting⟩ := hinv.point hcall
      obtain rfl : writes = [] := hwrites
      obtain rfl : inserted = [] := hinserted
      refine ⟨hinv.setCall hcall rfl ?_ ⟨rfl, hholds, hawaiting, _, now, rfl⟩,
        .inl ⟨rfl, rfl⟩⟩
      intro id hid
      obtain rfl := mem_singleton.mp hid
      exact hholds.1
    · cases hstep
  | insert place now =>
    simp only [ReviewDecisions.step] at hstep
    split at hstep
    · rename_i input current anchor writes inserted hcall
      exact ⟨hinv.insertDecision hcall rfl rfl hstep, .inl (insertDecision_rows hstep)⟩
    · cases hstep
  | lookup place =>
    simp only [ReviewDecisions.step] at hstep
    split at hstep
    · rename_i input writes inserted hcall
      split at hstep
      · cases hstep
        exact ⟨hinv.refuse hcall _, .inl ⟨rfl, rfl⟩⟩
      · cases hstep
        exact ⟨hinv.refuse hcall _, .inl ⟨rfl, rfl⟩⟩
      · rename_i answer hfind
        cases hstep
        exact ⟨hinv.lookup hcall rfl hfind, .inl ⟨rfl, rfl⟩⟩
    · cases hstep
  | scan place now candidates =>
    simp only [ReviewDecisions.step] at hstep
    split at hstep
    · rename_i days limit writes inserted hcall
      split at hstep
      · cases hstep
        have hcovered := hinv.covered hcall
        have hclean : Clean _ := hinv.point hcall
        exact ⟨hinv.setCall hcall rfl hcovered
          ⟨hclean, nodup_nil, fun id hid => by cases hid⟩, .inl ⟨rfl, rfl⟩⟩
      · cases hstep
    · cases hstep
  | lockNext place =>
    simp only [ReviewDecisions.step] at hstep
    split at hstep
    · rename_i days limit now id rest ids writes inserted hcall
      split at hstep
      · cases hstep
      · split at hstep
        · rename_i hboth
          cases hstep
          exact ⟨hinv.lockNext hcall hboth.1 hboth.2, .inl ⟨rfl, rfl⟩⟩
        · cases hstep
          have hcovered := hinv.covered hcall
          obtain ⟨hclean, hnodup, hheld⟩ := hinv.point hcall
          refine ⟨?_, .inl ⟨rfl, rfl⟩⟩
          exact hinv.setCall hcall rfl hcovered ⟨hclean, hnodup, hheld⟩
    · cases hstep
  | reject place =>
    simp only [ReviewDecisions.step] at hstep
    split at hstep
    · rename_i days limit now candidates ids writes inserted hcall
      split at hstep
      · cases hstep
      · cases hstep
        exact ⟨hinv.reject hcall, .inl ⟨rfl, rfl⟩⟩
    · cases hstep
  | close place id now =>
    simp only [ReviewDecisions.step] at hstep
    split at hstep
    · rename_i writes inserted hcall
      split at hstep
      · cases hstep
      · rename_i row hrow
        split at hstep
        · rename_i hfree
          cases hstep
          refine ⟨hinv.write hcall hfree ?_, .inl ⟨rfl, rfl⟩⟩
          intro closed hclosed
          cases hclosed
          exact ⟨row, hrow, rfl⟩
        · cases hstep
    · cases hstep
  | remove place id =>
    simp only [ReviewDecisions.step] at hstep
    split at hstep
    · rename_i writes inserted hcall
      split at hstep
      · rename_i hfree
        cases hstep
        exact ⟨hinv.write hcall hfree (fun row hrow => by cases hrow), .inl ⟨rfl, rfl⟩⟩
      · cases hstep
    · cases hstep
  | commit place delivered =>
    simp only [ReviewDecisions.step] at hstep
    split at hstep
    · rename_i call hcall
      exact hinv.finish hcall hstep
    · cases hstep
  | fail place =>
    simp only [ReviewDecisions.step] at hstep
    split at hstep
    · rename_i call hcall
      split at hstep
      · cases hstep
      · cases hstep
        exact ⟨hinv.refuse hcall _, .inl ⟨rfl, rfl⟩⟩
    · cases hstep

theorem inv_of_reachable (hreach : reviews.Reachable state) : Inv state := by
  have hstart : ∀ origin, Started origin -> Inv origin := by
    intro origin hstarted
    have hnone : ∀ {place : Nat} {call : Call}, origin.calls[place]? ≠ some call := by
      intro place call hcall
      rw [hstarted.calls] at hcall
      cases hcall
    constructor
    · intro place call hcall
      exact absurd hcall hnone
    · intro place call hcall
      exact absurd hcall hnone
    · rw [State.allRows, hstarted.calls, flatMap_nil, append_nil]
      exact hstarted.keys
    · intro key answer hresult
      rw [hstarted.results] at hresult
      cases hresult
  have hkeep : ∀ before label after, reviews.Reachable before -> Inv before ->
      reviews.step before label after -> Inv after := by
    intro before label after _ hinv hstep
    exact (hinv.step hstep).1
  exact hreach.invariant hstart hkeep

theorem Moves.change {before : State} (hmoves : Moves before after) (id : String) :
    ∃ decisions, rowsOf after.decisions id = rowsOf before.decisions id ++ decisions /\
      Change (before.fragments id) (after.fragments id) decisions := by
  rcases hmoves with ⟨hfragments, hdecisions⟩ | ⟨call, hsound, hfragments, hdecisions⟩
  · refine ⟨[], ?_, ?_⟩
    · rw [hdecisions, append_nil]
    · rw [hfragments]
      exact Change.same (before.fragments id)
  · refine ⟨rowsOf call.inserted id, ?_, ?_⟩
    · rw [hdecisions, rowsOf_append]
    · rw [hfragments]
      exact hsound id

/-- A run brings at most one decision row for a fragment, and none for one that is pending
at its end. -/
structure Outcome (after : Option Fragment) (decisions : List DecisionRow) : Prop where
  once : decisions.length ≤ 1
  pending : ∀ row, after = some row -> row.reviewState = some .pending -> decisions = []

theorem Outcome.change {middle after : Option Fragment} {decisions more : List DecisionRow}
    (houtcome : Outcome middle decisions) (hchange : Change middle after more) :
    Outcome after (decisions ++ more) := by
  cases hchange with
  | kept hstate =>
    rw [append_nil]
    refine ⟨houtcome.once, fun row hrow hpending => ?_⟩
    obtain ⟨old, hold, hsame⟩ := hstate row hrow
    exact houtcome.pending old hold (hsame ▸ hpending)
  | decided hawaiting hagrees =>
    rw [houtcome.pending _ rfl (awaiting_iff.mp hawaiting).1]
    refine ⟨Nat.le_refl 1, fun row hrow hpending => ?_⟩
    cases hrow
    exact absurd hpending (reviewState_of_agrees hagrees)

theorem run_outcome {first last : State} {labels : List Label} (hinv : Inv first)
    (hrun : reviews.Run first labels last) (id : String) : ∃ decisions,
      rowsOf last.decisions id = rowsOf first.decisions id ++ decisions /\
        Outcome (last.fragments id) decisions := by
  have hkeep : ∀ before label after,
      (Inv before /\ ∃ decisions,
        rowsOf before.decisions id = rowsOf first.decisions id ++ decisions /\
          Outcome (before.fragments id) decisions) ->
        reviews.step before label after ->
          Inv after /\ ∃ decisions,
            rowsOf after.decisions id = rowsOf first.decisions id ++ decisions /\
              Outcome (after.fragments id) decisions := by
    rintro before label after ⟨hbefore, decisions, hrows, houtcome⟩ hstep
    obtain ⟨hafter, hmoves⟩ := hbefore.step hstep
    obtain ⟨more, hmore, hchange⟩ := hmoves.change id
    refine ⟨hafter, decisions ++ more, ?_, houtcome.change hchange⟩
    rw [hmore, hrows, append_assoc]
  have hstart : rowsOf first.decisions id = rowsOf first.decisions id ++ [] :=
    (append_nil _).symm
  exact (hrun.preserves hkeep ⟨hinv, [], hstart, Nat.zero_le 1, fun _ _ _ => rfl⟩).2

theorem Inv.same_row (hinv : Inv state) {key : String} {one other : Answer}
    (hone : (some key, .ok one) ∈ state.results) (hother : (some key, .ok other) ∈ state.results) :
    ∃ row ∈ state.decisions, row.idempotencyKey = some key /\
      row.id = one.decisionId /\ row.id = other.decisionId := by
  obtain ⟨row, hrow, hkey, hid, -⟩ := hinv.results hone
  obtain ⟨row', hrow', hkey', hid', -⟩ := hinv.results hother
  have hunique : UniqueIndex.Unique DecisionRow.idempotencyKey state.decisions :=
    hinv.keys.sublist (sublist_append_left ..)
  obtain rfl : row = row' := hunique.eq_of_clash hrow hrow' ⟨key, hkey, hkey'⟩
  exact ⟨row, hrow, hkey, hid, hid'⟩

/-- A fragment leaves the pending state with one decision row, in the state the row says,
and only when it was open; no decision row comes otherwise, and a run brings at most one for
a fragment.  Only a pending open fragment is approved.  The successful answers of one
idempotency key name one row. -/
theorem decided_once {before : State} (hreach : reviews.Reachable before) :
    (∀ label after, step before label = some after ->
      (∀ id old row, before.fragments id = some old ->
        old.reviewState = some .pending -> after.fragments id = some row ->
          row.reviewState ≠ some .pending -> ∃ decision,
            rowsOf after.decisions id = rowsOf before.decisions id ++ [decision] /\
              ((decision.decision = .approve /\ row.reviewState = some .approved /\
                  row.validTo = none) \/
                (decision.decision ≠ .approve /\ row.reviewState = some .rejected /\
                  row.validTo ≠ none))) /\
      (∀ id, rowsOf after.decisions id ≠ rowsOf before.decisions id ->
        ∃ old row, before.fragments id = some old /\ old.reviewState = some .pending /\
          after.fragments id = some row /\ row.reviewState ≠ some .pending) /\
      (∀ id row, after.fragments id = some row -> row.reviewState = some .approved ->
        ∃ old, before.fragments id = some old /\
          (old.reviewState = some .approved \/
            (old.reviewState = some .pending /\ old.validTo = none)))) /\
    (∀ labels after, reviews.Run before labels after -> ∀ id,
      (rowsOf after.decisions id).length ≤ (rowsOf before.decisions id).length + 1) /\
    (∀ key one other, (some key, .ok one) ∈ before.results ->
      (some key, .ok other) ∈ before.results -> ∃ row ∈ before.decisions,
        row.idempotencyKey = some key /\ row.id = one.decisionId /\
          row.id = other.decisionId) := by
  have hinv := inv_of_reachable hreach
  refine ⟨fun label after hstep => ?_, fun labels after hrun id => ?_,
    fun key one other => hinv.same_row⟩
  · have hmoves := (hinv.step hstep).2
    refine ⟨?_, ?_, ?_⟩
    · intro id old row hold hpending hrow hleft
      obtain ⟨decisions, hrows, hchange⟩ := hmoves.change id
      rw [hold, hrow] at hchange
      cases hchange with
      | kept hstate =>
        obtain ⟨same, hsame, heq⟩ := hstate row rfl
        cases hsame
        exact absurd (heq.trans hpending) hleft
      | @decided _ _ decision hawaiting hagrees =>
        refine ⟨decision, hrows, ?_⟩
        unfold Agrees at hagrees
        split at hagrees
        · rename_i happrove
          exact .inl ⟨happrove, hagrees⟩
        · rename_i hother
          exact .inr ⟨hother, hagrees⟩
    · intro id hnew
      obtain ⟨decisions, hrows, hchange⟩ := hmoves.change id
      generalize hfirst : before.fragments id = first at hchange
      generalize hlast : after.fragments id = last at hchange
      cases hchange with
      | kept _ => exact absurd (hrows.trans (append_nil _)) hnew
      | decided hawaiting hagrees =>
        exact ⟨_, _, rfl, (awaiting_iff.mp hawaiting).1, rfl, reviewState_of_agrees hagrees⟩
    · intro id row hrow happroved
      obtain ⟨decisions, -, hchange⟩ := hmoves.change id
      rw [hrow] at hchange
      generalize hfirst : before.fragments id = first at hchange
      cases hchange with
      | kept hstate =>
        obtain ⟨old, hold, hsame⟩ := hstate row rfl
        exact ⟨old, hold, .inl (hsame ▸ happroved)⟩
      | decided hawaiting _ => exact ⟨_, rfl, .inr (awaiting_iff.mp hawaiting)⟩
  · obtain ⟨decisions, hrows, houtcome⟩ := run_outcome hinv hrun id
    have honce := houtcome.once
    rw [hrows, length_append]
    omega

def pendingFragment : Fragment where
  keyId := none
  reviewState := some .pending
  reviewReason := none
  isAnchor := false
  validTo := none
  createdAt := 0

def onePending : State where
  fragments := fun id => if id = "f" then some pendingFragment else none
  decisions := []
  locks := fun _ => none
  nextId := 1
  calls := []
  results := []

theorem onePending_started : Started onePending :=
  ⟨Pairwise.nil, fun _ => rfl, rfl, rfl⟩

def approval : List Label :=
  [ .begin (.decideReview
      { fragmentId := "f", decision := .approve, reviewer := "master", note := none,
        idempotencyKey := some "k", applyAnchor := none }),
    .lock 0, .replay 0, .update 0 100 (fun _ => ⟨false, "denied"⟩), .insert 0 100 ]

theorem approval_brings_one_row : ∃ before after decision, reviews.Reachable before /\
    step before (.commit 0 true) = some after /\
      rowsOf after.decisions "f" = rowsOf before.decisions "f" ++ [decision] /\
        decision.decision = .approve := by
  have hrun : ((System.follow step onePending approval).bind fun before =>
      (step before (.commit 0 true)).map fun after =>
        ((before.fragments "f").map Fragment.reviewState,
          (after.fragments "f").map Fragment.reviewState)) =
        some (some (some .pending), some (some .approved)) := by decide +kernel
  obtain ⟨before, hfollow, hlater⟩ := Option.bind_eq_some_iff.mp hrun
  obtain ⟨after, hstep, hdata⟩ := Option.map_eq_some_iff.mp hlater
  obtain ⟨hfirst, hlast⟩ := Prod.mk.inj hdata
  obtain ⟨old, hold, hpending⟩ := Option.map_eq_some_iff.mp hfirst
  obtain ⟨row, hrow, happroved⟩ := Option.map_eq_some_iff.mp hlast
  have hreach : reviews.Reachable before :=
    ⟨onePending, approval, onePending_started, .of_follow (fun _ _ _ hnext => hnext) hfollow⟩
  have hleft : row.reviewState ≠ some .pending := by
    rw [happroved]
    decide
  obtain ⟨decision, hrows, hkind⟩ :=
    ((decided_once hreach).1 _ after hstep).1 "f" old row hold hpending hrow hleft
  refine ⟨before, after, decision, hreach, hstep, hrows, ?_⟩
  rcases hkind with ⟨hkind, -⟩ | ⟨-, hrejected, -⟩
  · exact hkind
  · rw [happroved] at hrejected
    cases hrejected

end AnchorMind.Admin.ReviewDecisions
