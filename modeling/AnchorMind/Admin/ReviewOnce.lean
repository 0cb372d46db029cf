import AnchorMind.Admin.ReviewDecisions

/-!
# A fragment is decided once

What a transaction is about to do to a fragment stays true until it commits, since it holds
the row.  A commit therefore changes the review state of a fragment exactly when it brings
one decision row for it, and the unique index keeps one row for each idempotency key.
-/

namespace AnchorMind.Admin.ReviewDecisions

open Kernel Kernel.Locks Kernel.RowLocks List

def Agrees (decision : Decision) (row : Fragment) : Prop :=
  match decision with
  | .approve => row.reviewState = some .approved /\ row.validTo = none
  | _ => row.reviewState = some .rejected /\ row.validTo ≠ none

/-- A fragment keeps its review state or is removed without a decision row, or it was
pending and open and is left as its one new decision row says. -/
inductive Change : Option Fragment -> Option Fragment -> List DecisionRow -> Prop where
  | kept {before after : Option Fragment}
      (hstate : ∀ row, after = some row ->
        ∃ old, before = some old /\ row.reviewState = old.reviewState) :
      Change before after []
  | decided {old row : Fragment} {decision : DecisionRow} (hawaiting : old.awaiting = true)
      (hagrees : Agrees decision.decision row) : Change (some old) (some row) [decision]

theorem Change.same (found : Option Fragment) : Change found found [] :=
  .kept fun row hrow => ⟨row, hrow, rfl⟩

variable {row : Fragment}

theorem awaiting_iff :
    row.awaiting = true <-> row.reviewState = some .pending /\ row.validTo = none := by
  simp [Fragment.awaiting]

variable {decision : Decision}

theorem reviewState_of_agrees (hagrees : Agrees decision row) :
    row.reviewState ≠ some .pending := by
  unfold Agrees at hagrees
  split at hagrees
  · rw [hagrees.1]
    decide
  · rw [hagrees.1]
    decide

variable {decisions : List DecisionRow} {found : Option Fragment}

theorem Change.none_of_same (hchange : Change found found decisions) : decisions = [] := by
  cases hchange with
  | kept _ => rfl
  | decided hawaiting hagrees =>
    exact absurd (awaiting_iff.mp hawaiting).1 (reviewState_of_agrees hagrees)

theorem Change.kept_of_nil {before after : Option Fragment} (hchange : Change before after [])
    (hrow : after = some row) : ∃ old, before = some old /\ row.reviewState = old.reviewState := by
  cases hchange with
  | kept hstate => exact hstate row hrow

theorem agrees_decided (hopen : row.validTo = none) (decision : Decision) (anchor : Anchor)
    (now : Int) : Agrees decision (row.decided decision anchor now) := by
  cases decision with
  | approve => exact ⟨rfl, hopen⟩
  | reject => exact ⟨rfl, Option.some_ne_none now⟩
  | autoReject => exact ⟨rfl, Option.some_ne_none now⟩

def rowsOf (rows : List DecisionRow) (id : String) : List DecisionRow :=
  rows.filter fun row => row.fragmentId == id

theorem rowsOf_cons_self (row : DecisionRow) (rows : List DecisionRow) :
    rowsOf (row :: rows) row.fragmentId = row :: rowsOf rows row.fragmentId :=
  filter_cons_of_pos (beq_self_eq_true row.fragmentId)

variable {id : String} {row : DecisionRow}

theorem rowsOf_cons_of_ne (hne : id ≠ row.fragmentId) (rows : List DecisionRow) :
    rowsOf (row :: rows) id = rowsOf rows id :=
  filter_cons_of_neg fun heq => hne (beq_iff_eq.mp heq).symm

theorem rowsOf_append (front back : List DecisionRow) (id : String) :
    rowsOf (front ++ back) id = rowsOf front id ++ rowsOf back id :=
  filter_append ..

def Sound (fragments : Table String Fragment) (call : Call) : Prop :=
  ∀ id, Change (fragments id) (overlay call.writes fragments id) (rowsOf call.inserted id)

variable {fragments : Table String Fragment} {call : Call} {place : Nat}
  {locks : LockTable String Nat}

/-- Other transactions do not change what a commit would do. -/
theorem Sound.mono {after : Table String Fragment} (hcovered : Covered locks place call.writes)
    (hsame : ∀ id, locks id = some place -> after id = fragments id)
    (hsound : Sound fragments call) : Sound after call := by
  intro id
  rcases Classical.em (id ∈ call.writes.map Prod.fst) with hmem | hnot
  · have hbefore := hsound id
    rw [overlay_of_mem after hmem] at hbefore
    rw [hsame id (hcovered id hmem)]
    exact hbefore
  · have hbefore := hsound id
    rw [overlay_of_not_mem hnot] at hbefore ⊢
    rw [hbefore.none_of_same]
    exact Change.same (after id)

def Named (decisions : List DecisionRow) (key : Option String) (answer : Answer) : Prop :=
  ∃ row ∈ decisions, row.idempotencyKey = key /\ row.id = answer.decisionId /\
    row.fragmentId = answer.fragmentId /\ row.decision = answer.decision

variable {key : Option String} {answer : Answer}

theorem Named.mono {more : List DecisionRow} (hnamed : Named decisions key answer)
    (hmore : ∀ row ∈ decisions, row ∈ more) : Named more key answer := by
  obtain ⟨row, hmem, hrow⟩ := hnamed
  exact ⟨row, hmore row hmem, hrow⟩

def Clean (call : Call) : Prop := call.writes = [] /\ call.inserted = []

theorem Clean.sound (hclean : Clean call) (fragments : Table String Fragment) :
    Sound fragments call := by
  intro id
  rw [hclean.1, hclean.2]
  exact Change.same (fragments id)

def Holds (state : State) (place : Nat) (id : String) (row : Fragment) : Prop :=
  state.locks id = some place /\ state.fragments id = some row

def AtPoint (state : State) (place : Nat) (call : Call) : Prop :=
  match call.work, call.point with
  | .decideReview input, .locked found =>
    Clean call /\ ∀ row, found = some row -> Holds state place input.fragmentId row
  | .decideReview input, .checked current =>
    Clean call /\ Holds state place input.fragmentId current /\ current.awaiting = true
  | .decideReview input, .updated current _ =>
    call.inserted = [] /\ Holds state place input.fragmentId current /\
      current.awaiting = true /\
        ∃ anchor now,
          call.writes = [(input.fragmentId, some (current.decided input.decision anchor now))]
  | .decideReview input, .answered answer =>
    Sound state.fragments call /\
      Named (state.decisions ++ call.inserted) input.idempotencyKey answer
  | .expireStaleReviews _ _, .scanning _ _ ids =>
    Clean call /\ ids.Nodup /\
      ∀ id ∈ ids, ∃ row, Holds state place id row /\ row.awaiting = true
  | .expireStaleReviews _ _, .rejected => Sound state.fragments call
  | .closing, .begun => Sound state.fragments call /\ call.inserted = []
  | _, _ => Clean call

variable {state after : State}

/-- Nothing another transaction does changes where a call stands. -/
theorem AtPoint.mono (hcovered : Covered state.locks place call.writes)
    (hlocks : ∀ id, state.locks id = some place -> after.locks id = some place)
    (hsame : ∀ id, state.locks id = some place -> after.fragments id = state.fragments id)
    (hmore : ∀ row ∈ state.decisions, row ∈ after.decisions) (hpoint : AtPoint state place call) :
    AtPoint after place call := by
  have hholds : ∀ {id : String} {row : Fragment}, Holds state place id row ->
      Holds after place id row := by
    intro id row hholds
    exact ⟨hlocks id hholds.1, (hsame id hholds.1).trans hholds.2⟩
  unfold AtPoint at hpoint ⊢
  split at hpoint
  · exact ⟨hpoint.1, fun row hrow => hholds (hpoint.2 row hrow)⟩
  · exact ⟨hpoint.1, hholds hpoint.2.1, hpoint.2.2⟩
  · exact ⟨hpoint.1, hholds hpoint.2.1, hpoint.2.2⟩
  · refine ⟨hpoint.1.mono hcovered hsame, hpoint.2.mono ?_⟩
    intro row hrow
    exact mem_append.mpr ((mem_append.mp hrow).imp_left (hmore row))
  · refine ⟨hpoint.1, hpoint.2.1, ?_⟩
    intro id hid
    obtain ⟨row, hrow, hawaiting⟩ := hpoint.2.2 id hid
    exact ⟨row, hholds hrow, hawaiting⟩
  · exact hpoint.mono hcovered hsame
  · exact ⟨hpoint.1.mono hcovered hsame, hpoint.2⟩
  · exact hpoint

def State.allRows (state : State) : List DecisionRow :=
  state.decisions ++ state.calls.flatMap Call.inserted

structure Inv (state : State) : Prop where
  covered : ∀ {place : Nat} {call : Call}, state.calls[place]? = some call ->
    Covered state.locks place call.writes
  point : ∀ {place : Nat} {call : Call}, state.calls[place]? = some call ->
    AtPoint state place call
  keys : UniqueIndex.Unique DecisionRow.idempotencyKey state.allRows
  results : ∀ {key : Option String} {answer : Answer},
    (key, .ok answer) ∈ state.results -> Named state.decisions key answer

theorem exists_rest {calls : List Call} (hcall : calls[place]? = some call) :
    ∃ front back, calls = front ++ call :: back /\
      ∀ now, calls.set place now = front ++ now :: back := by
  obtain ⟨hlt, hget⟩ := List.getElem?_eq_some_iff.mp hcall
  refine ⟨calls.take place, calls.drop (place + 1), ?_, ?_⟩
  · rw [← hget, getElem_cons_drop, take_append_drop]
  · intro now
    rw [set_eq_take_append_cons_drop, if_pos hlt]

theorem allRows_perm (hcall : state.calls[place]? = some call) : ∃ rest,
      state.allRows.Perm (state.decisions ++ (call.inserted ++ rest)) /\
        ∀ now, ((state.calls.set place now).flatMap Call.inserted).Perm
          (now.inserted ++ rest) := by
  obtain ⟨front, back, hcalls, hset⟩ := exists_rest hcall
  have hperm : ∀ now : Call, ((front ++ now :: back).flatMap Call.inserted).Perm
      (now.inserted ++ (front.flatMap Call.inserted ++ back.flatMap Call.inserted)) := by
    intro now
    rw [flatMap_append, flatMap_cons, ← append_assoc, ← append_assoc]
    exact perm_append_comm.append_right _
  refine ⟨front.flatMap Call.inserted ++ back.flatMap Call.inserted, ?_, ?_⟩
  · rw [State.allRows, hcalls]
    exact (hperm call).append_left _
  · intro now
    rw [hset now]
    exact hperm now

variable {now : Call}

theorem Inv.move (hinv : Inv state) (hcall : state.calls[place]? = some call)
    (hcalls : after.calls = state.calls.set place now)
    (hlocks : ∀ other, other ≠ place -> ∀ id, state.locks id = some other ->
      after.locks id = some other /\ after.fragments id = state.fragments id)
    (hmore : ∀ row ∈ state.decisions, row ∈ after.decisions)
    (hcovered : Covered after.locks place now.writes) (hpoint : AtPoint after place now)
    (hkeys : UniqueIndex.Unique DecisionRow.idempotencyKey after.allRows)
    (hresults : ∀ {key : Option String} {answer : Answer}, (key, .ok answer) ∈ after.results ->
        (key, .ok answer) ∈ state.results \/ Named after.decisions key answer) : Inv after := by
  have hcases : ∀ {other : Nat} {found : Call}, after.calls[other]? = some found ->
      (other = place /\ found = now) \/ (other ≠ place /\ state.calls[other]? = some found) := by
    intro other found hfound
    rw [hcalls, getElem?_set] at hfound
    split at hfound
    · rename_i hsame
      split at hfound
      · exact .inl ⟨hsame.symm, (Option.some.inj hfound).symm⟩
      · cases hfound
    · rename_i hne
      exact .inr ⟨fun heq => hne heq.symm, hfound⟩
  constructor
  · intro other found hfound
    rcases hcases hfound with ⟨rfl, rfl⟩ | ⟨hne, hbefore⟩
    · exact hcovered
    · intro id hid
      exact (hlocks other hne id (hinv.covered hbefore id hid)).1
  · intro other found hfound
    rcases hcases hfound with ⟨rfl, rfl⟩ | ⟨hne, hbefore⟩
    · exact hpoint
    · exact (hinv.point hbefore).mono (hinv.covered hbefore)
        (fun id hid => (hlocks other hne id hid).1) (fun id hid => (hlocks other hne id hid).2)
        hmore
  · exact hkeys
  · intro key answer hresult
    rcases hresults hresult with hbefore | hnew
    · exact (hinv.results hbefore).mono hmore
    · exact hnew

theorem Inv.setCall (hinv : Inv state) (hcall : state.calls[place]? = some call)
    (hinserted : now.inserted = call.inserted) (hcovered : Covered state.locks place now.writes)
    (hpoint : AtPoint state place now) : Inv (state.setCall place now) := by
  obtain ⟨rest, hbefore, hafter⟩ := allRows_perm hcall
  refine hinv.move hcall rfl (fun _ _ _ hlock => ⟨hlock, rfl⟩) (fun _ hrow => hrow) hcovered
    (hpoint.mono hcovered (fun _ hlock => hlock) (fun _ _ => rfl) (fun _ hrow => hrow)) ?_ .inl
  refine (hinv.keys.perm hbefore).perm ?_
  rw [← hinserted]
  exact ((hafter now).append_left state.decisions).symm

theorem Inv.takeLock (hinv : Inv state) (hcall : state.calls[place]? = some call)
    (hfree : state.locks id = none \/ state.locks id = some place)
    (hinserted : now.inserted = call.inserted)
    (hcovered : Covered (acquire state.locks place id) place now.writes)
    (hpoint : AtPoint { state.setCall place now with locks := acquire state.locks place id }
      place now) : Inv { state.setCall place now with locks := acquire state.locks place id } := by
  obtain ⟨rest, hbefore, hafter⟩ := allRows_perm hcall
  refine hinv.move hcall rfl ?_ (fun _ hrow => hrow) hcovered hpoint ?_ .inl
  · intro other hother wanted hlock
    refine ⟨?_, rfl⟩
    have hne : wanted ≠ id := by
      rintro rfl
      rcases hfree with hnone | hown
      · rw [hlock] at hnone
        cases hnone
      · rw [hlock] at hown
        exact hother (Option.some.inj hown)
    exact (acquire_of_ne place hne).trans hlock
  · refine (hinv.keys.perm hbefore).perm ?_
    rw [← hinserted]
    exact ((hafter now).append_left state.decisions).symm

theorem release_other {other : Nat} (hother : other ≠ place) (hlock : locks id = some other) :
    release locks place id = some other := by
  rw [release_of_other, hlock]
  rw [hlock]
  exact fun heq => hother (Option.some.inj heq)

theorem atPoint_ended (state : State) (place : Nat) (call : Call) :
    AtPoint state place (call.finished .ended) := by
  unfold AtPoint Call.finished
  cases call.work with
  | decideReview input => exact ⟨rfl, rfl⟩
  | expireStaleReviews days limit => exact ⟨rfl, rfl⟩
  | closing => exact ⟨rfl, rfl⟩

theorem atPoint_violated (state : State) (place : Nat) (call : Call) :
    AtPoint state place (call.finished .violated) := by
  unfold AtPoint Call.finished
  cases call.work with
  | decideReview input => exact ⟨rfl, rfl⟩
  | expireStaleReviews days limit => exact ⟨rfl, rfl⟩
  | closing => exact ⟨rfl, rfl⟩

variable {results : List (Option String × Except ReviewError Answer)}

theorem Inv.rollback (hinv : Inv state) (hcall : state.calls[place]? = some call) {point : Point}
    (hpoint : ∀ after, AtPoint after place (call.finished point))
    (hresults : ∀ {key : Option String} {answer : Answer}, (key, .ok answer) ∈ results ->
      (key, .ok answer) ∈ state.results \/ Named state.decisions key answer) :
    Inv { state.rollback place call point with results := results } := by
  obtain ⟨rest, hbefore, hafter⟩ := allRows_perm hcall
  refine hinv.move hcall rfl
    (fun other hother id hlock => ⟨release_other hother hlock, rfl⟩) (fun _ hrow => hrow)
    (fun id hid => by cases hid) (hpoint _) ?_ hresults
  have hsub : (state.decisions ++ rest).Sublist (state.decisions ++ (call.inserted ++ rest)) :=
    (sublist_append_right call.inserted rest).append_left state.decisions
  have hrest : UniqueIndex.Unique DecisionRow.idempotencyKey (state.decisions ++ rest) :=
    (hinv.keys.perm hbefore).sublist hsub
  exact hrest.perm ((hafter (call.finished point)).append_left state.decisions).symm

theorem mem_answer {work : Work} {result : Except ReviewError Answer}
    (hmem : (key, .ok answer) ∈ work.answer result results) :
    (key, .ok answer) ∈ results \/
      ∃ input, work = .decideReview input /\ key = input.idempotencyKey /\
        result = .ok answer := by
  unfold Work.answer at hmem
  split at hmem
  · rename_i input
    rcases mem_cons.mp hmem with heq | hbefore
    · obtain ⟨hkey, hresult⟩ := Prod.mk.inj heq
      exact .inr ⟨input, rfl, hkey, hresult.symm⟩
    · exact .inl hbefore
  · exact .inl hmem

theorem Inv.refuse (hinv : Inv state) (hcall : state.calls[place]? = some call)
    (error : ReviewError) : Inv (state.refuse place call error) := by
  refine hinv.rollback hcall (fun after => atPoint_ended after place call) ?_
  intro key answer hmem
  rcases mem_answer hmem with hbefore | ⟨input, -, -, hresult⟩
  · exact .inl hbefore
  · cases hresult

theorem Inv.commit (hinv : Inv state) (hcall : state.calls[place]? = some call)
    (hresults : ∀ {key : Option String} {answer : Answer}, (key, .ok answer) ∈ results ->
      (key, .ok answer) ∈ state.results \/ Named (state.decisions ++ call.inserted) key answer) :
    Inv { state.commit place call with results := results } := by
  obtain ⟨rest, hbefore, hafter⟩ := allRows_perm hcall
  refine hinv.move hcall rfl ?_ (fun _ hrow => mem_append_left _ hrow)
    (fun id hid => by cases hid) (atPoint_ended _ place call) ?_ hresults
  · intro other hother id hlock
    refine ⟨release_other hother hlock, (hinv.covered hcall).overlay_eq ?_⟩
    rw [hlock]
    exact fun heq => hother (Option.some.inj heq)
  · refine (hinv.keys.perm hbefore).perm ?_
    have hrest := (hafter (call.finished .ended)).append_left (state.decisions ++ call.inserted)
    rw [← append_assoc]
    exact hrest.symm

theorem not_clash_of_hasKey {rows : List DecisionRow}
    (hnone : hasKey row.idempotencyKey rows = false) {old : DecisionRow} (hold : old ∈ rows) :
    ¬ UniqueIndex.Clash DecisionRow.idempotencyKey row old := by
  rintro ⟨key, hkey, hother⟩
  have hhas : hasKey row.idempotencyKey rows = true := by
    rw [hasKey, hkey, Bool.and_eq_true]
    exact ⟨rfl, any_eq_true.mpr ⟨old, hold, by rw [hother]; exact beq_self_eq_true _⟩⟩
  rw [hnone] at hhas
  cases hhas

variable {fragmentId : String}

theorem named_of_find (hfind : findReplay decisions key fragmentId decision = .ok (some answer)) :
    Named decisions key answer := by
  unfold findReplay at hfind
  split at hfind
  · cases hfind
  · split at hfind
    · cases hfind
    · rename_i row hrow
      split at hfind
      · cases hfind
      · cases Except.ok.inj hfind
        have hkey := find?_some hrow
        exact ⟨row, mem_of_find?_eq_some hrow, beq_iff_eq.mp hkey, rfl, rfl, rfl⟩

theorem sound_decision {current after : Fragment}
    (hwrites : call.writes = [(row.fragmentId, some after)]) (hinserted : call.inserted = [row])
    (hcurrent : fragments row.fragmentId = some current) (hawaiting : current.awaiting = true)
    (hagrees : Agrees row.decision after) : Sound fragments call := by
  intro id
  rw [hwrites, hinserted]
  rcases eq_or_ne id row.fragmentId with rfl | hne
  · rw [overlay_cons_self, hcurrent, rowsOf_cons_self]
    exact .decided hawaiting hagrees
  · rw [overlay_cons_of_ne hne, overlay_nil, rowsOf_cons_of_ne hne]
    exact Change.same (fragments id)

theorem Inv.resolve (hinv : Inv state) {input : Input} (hcall : state.calls[place]? = some call)
    (hwork : call.work = .decideReview input) (hpoint : call.point = .locked found) :
    Inv (state.resolve place call input found) := by
  have hcovered := hinv.covered hcall
  have hat := hinv.point hcall
  unfold AtPoint at hat
  rw [hwork, hpoint] at hat
  obtain ⟨hclean, hholds⟩ := hat
  unfold State.resolve
  split
  · exact hinv.refuse hcall _
  · rename_i answer hfind
    refine hinv.setCall hcall rfl hcovered ?_
    unfold AtPoint
    rw [hwork]
    refine ⟨hclean.sound state.fragments, (named_of_find hfind).mono ?_⟩
    intro row hrow
    exact mem_append_left _ hrow
  · split
    · exact hinv.refuse hcall _
    · rename_i current
      split
      · rename_i hawaiting
        refine hinv.setCall hcall rfl hcovered ?_
        unfold AtPoint
        rw [hwork]
        exact ⟨hclean, hholds current rfl, hawaiting⟩
      · exact hinv.refuse hcall _

theorem Inv.insertDecision (hinv : Inv state) {input : Input} {current : Fragment} {anchor : Anchor}
    {now : Int} (hcall : state.calls[place]? = some call) (hwork : call.work = .decideReview input)
    (hpoint : call.point = .updated current anchor)
    (hstep : state.insertDecision place call input current anchor now = some after) :
    Inv after := by
  have hcovered := hinv.covered hcall
  have hat := hinv.point hcall
  unfold AtPoint at hat
  rw [hwork, hpoint] at hat
  obtain ⟨hnone, hholds, hawaiting, verdict, time, hwrites⟩ := hat
  unfold State.insertDecision at hstep
  split at hstep
  · cases hstep
    exact hinv.rollback hcall (fun after => atPoint_violated after place call) .inl
  · rename_i hcommitted
    split at hstep
    · cases hstep
    · rename_i hflying
      cases hstep
      obtain ⟨rest, hbefore, hafter⟩ := allRows_perm hcall
      refine hinv.move hcall rfl (fun _ _ _ hlock => ⟨hlock, rfl⟩) (fun _ hrow => hrow)
        hcovered ?_ ?_ .inl
      · unfold AtPoint
        rw [hwork]
        refine ⟨sound_decision hwrites rfl hholds.2 hawaiting
          (agrees_decided (awaiting_iff.mp hawaiting).2 input.decision verdict time), ?_⟩
        exact ⟨input.row state.nextId current now, mem_append_right _ mem_cons_self,
          rfl, rfl, rfl, rfl⟩
      · rw [hnone, nil_append] at hbefore
        have hkeys := hinv.keys.perm hbefore
        have hfree : ∀ old ∈ state.decisions ++ rest, ¬ UniqueIndex.Clash
            DecisionRow.idempotencyKey (input.row state.nextId current now) old := by
          intro old hold
          rcases mem_append.mp (hbefore.mem_iff.mpr hold) with hdecided | hother
          · exact not_clash_of_hasKey (Bool.eq_false_iff.mpr hcommitted) hdecided
          · obtain ⟨other, hmem, hrow⟩ := mem_flatMap.mp hother
            refine not_clash_of_hasKey (Bool.eq_false_iff.mpr ?_) hrow
            intro hhas
            exact hflying (any_eq_true.mpr ⟨other, hmem, hhas⟩)
        refine (hkeys.cons hfree).perm ?_
        refine perm_middle.symm.trans ?_
        refine Perm.trans ?_ ((hafter _).append_left state.decisions).symm
        exact Perm.refl _

variable {returned : List (String × Fragment)}

theorem idempotencyKey_autoRejections (now : Int) :
    ∀ {id : Nat} {row : DecisionRow}, row ∈ autoRejections now id returned ->
      row.idempotencyKey = none := by
  induction returned with
  | nil =>
    intro id row hmem
    cases hmem
  | cons entry rest ih =>
    intro id row hmem
    rcases mem_cons.mp hmem with rfl | hlater
    · rfl
    · exact ih hlater

theorem rowsOf_autoRejections_of_not_mem (now : Int) (hnot : fragmentId ∉ returned.map Prod.fst)
    (id : Nat) : rowsOf (autoRejections now id returned) fragmentId = [] := by
  induction returned generalizing id with
  | nil => rfl
  | cons entry rest ih =>
    rw [map_cons, mem_cons, not_or] at hnot
    rw [autoRejections, rowsOf_cons_of_ne hnot.1]
    exact ih hnot.2 (id + 1)

theorem sound_rejections (now : Int) (hnodup : (returned.map Prod.fst).Nodup)
    (hreturned : ∀ entry ∈ returned, fragments entry.1 = some entry.2 /\ entry.2.awaiting = true)
    (id : Nat) (fragmentId : String) :
    Change (fragments fragmentId)
      (overlay (returned.map fun entry => (entry.1, some (entry.2.reject now))) fragments
        fragmentId)
      (rowsOf (autoRejections now id returned) fragmentId) := by
  induction returned generalizing id with
  | nil => exact Change.same (fragments fragmentId)
  | cons entry rest ih =>
    rw [map_cons, nodup_cons] at hnodup
    rcases eq_or_ne fragmentId entry.1 with rfl | hne
    · obtain ⟨hcurrent, hawaiting⟩ := hreturned entry mem_cons_self
      have hown := rowsOf_cons_self
        { id := id, fragmentId := entry.1, decision := .autoReject, reviewer := "system",
          note := none, idempotencyKey := none, keyId := entry.2.keyId,
          reviewReason := entry.2.reviewReason, decidedAt := now }
        (autoRejections now (id + 1) rest)
      rw [rowsOf_autoRejections_of_not_mem now hnodup.1 (id + 1)] at hown
      rw [map_cons, overlay_cons_self, hcurrent, autoRejections, hown]
      exact .decided hawaiting ⟨rfl, Option.some_ne_none now⟩
    · rw [map_cons, overlay_cons_of_ne hne, autoRejections, rowsOf_cons_of_ne hne]
      exact ih hnodup.2 (fun later hlater => hreturned later (mem_cons_of_mem _ hlater))
        (id + 1)

end AnchorMind.Admin.ReviewDecisions
