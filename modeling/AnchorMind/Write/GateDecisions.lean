import AnchorMind.Write.WriteGate

/-!
# Decisions of the write gate

No step touches what a write is about, and none reads the mode, so a dry run warns of
exactly what a production run warns of.  A key with a hard gate is refused whatever the
lookup does, and an anchor that is held back or not granted is not approved.
-/

namespace AnchorMind.Write.GateDecisions

open Text.Objects Write.GateState Write.GateSteps Write.GateReview Write.WriteGate

def inMode (mode : Mode) (state : State) : State := { state with mode := mode }

def IgnoresMode (step : State -> Except Refusal State) : Prop :=
  ∀ mode state, step (inMode mode state) = (step state).map (inMode mode)

variable {first second : State -> Except Refusal State}

theorem IgnoresMode.bind (hfirst : IgnoresMode first) (hsecond : IgnoresMode second) :
    IgnoresMode fun state => (first state).bind second := by
  intro mode state
  dsimp only
  rw [hfirst mode state]
  cases first state with
  | error refusal => rfl
  | ok next => exact hsecond mode next

variable {change : State -> State}

theorem ignoresMode_ok
    (hchange : ∀ mode state, change (inMode mode state) = inMode mode (change state)) :
    IgnoresMode fun state => .ok (change state) :=
  fun mode state => congrArg Except.ok (hchange mode state)

variable {condition : State -> Prop}

theorem IgnoresMode.ite [DecidablePred condition] (hfirst : IgnoresMode first)
    (hsecond : IgnoresMode second)
    (hcondition : ∀ mode state, condition (inMode mode state) <-> condition state) :
    IgnoresMode fun state => if condition state then first state else second state := by
  intro mode state
  by_cases hholds : condition state
  · simp only [if_pos hholds, if_pos ((hcondition mode state).mpr hholds)]
    exact hfirst mode state
  · simp only [if_neg hholds, if_neg fun hin => hholds ((hcondition mode state).mp hin)]
    exact hsecond mode state

variable {step : Gate -> State -> Except Refusal State}

theorem ignoresMode_runStep (gate : Gate) (name : String) (hstep : IgnoresMode (step gate)) :
    IgnoresMode (runStep gate name step) :=
  hstep.ite (ignoresMode_ok fun _ _ => rfl) fun _ _ => Iff.rfl

theorem ignoresMode_normalizeStep (gate : Gate) : IgnoresMode (normalizeStep gate) := by
  intro mode state
  simp only [normalizeStep, normalizeFields, inMode]
  cases normalizedFields gate.texts state.op state.fields (!gate.restore) with
  | error refusal => rfl
  | ok normalized => rfl

theorem ignoresMode_sensitiveStep (gate : Gate) : IgnoresMode (sensitiveStep gate) := by
  intro mode state
  simp only [sensitiveStep, inMode]
  split
  · rfl
  · cases scanned gate state.op state.fields state.rawKeywords with
    | error refusal => rfl
    | ok result => rfl

theorem ignoresMode_lengthStep (gate : Gate) : IgnoresMode (lengthStep gate) := by
  intro mode state
  simp only [lengthStep, inMode]
  split <;> rfl

theorem ignoresMode_materialize (build : Row -> Except String Row) :
    IgnoresMode (materialize build) := by
  intro mode state
  simp only [materialize, inMode]
  cases state.op with
  | update => rfl
  | create =>
    dsimp only
    cases build state.fields with
    | error message => rfl
    | ok draft => rfl

theorem ignoresMode_policyStep (gate : Gate) : IgnoresMode (policyStep gate) := by
  intro mode state
  simp only [policyStep, inMode]
  split <;> rfl

theorem ignoresMode_workspaceStep (gate : Gate) : IgnoresMode (workspaceStep gate) :=
  (ignoresMode_ok fun _ _ => rfl).ite (ignoresMode_ok fun _ _ => rfl) fun _ _ => Iff.rfl

theorem withoutAnchor_inMode (mode : Mode) (state : State) :
    withoutAnchor (inMode mode state) = inMode mode (withoutAnchor state) := by
  simp only [withoutAnchor, inMode]
  cases state.op with
  | create => rfl
  | update => rfl

theorem applyAnchorBudget_inMode (gate : Gate) (mode : Mode) (state : State) :
    applyAnchorBudget gate (inMode mode state) = inMode mode (applyAnchorBudget gate state) := by
  unfold applyAnchorBudget
  rw [show budgetViolation gate (inMode mode state).ctx (inMode mode state).base
    (inMode mode state).draft = budgetViolation gate state.ctx state.base state.draft from rfl]
  cases budgetViolation gate state.ctx state.base state.draft with
  | none => rfl
  | some violation =>
    dsimp only
    split
    · rw [withoutAnchor_inMode]
      rfl
    · rfl

theorem ignoresMode_anchorStep (gate : Gate) : IgnoresMode (anchorStep gate) := by
  refine (ignoresMode_ok fun _ _ => rfl).ite (fun mode state => ?_) fun _ _ => Iff.rfl
  have hchange : anchorChange (inMode mode state) = anchorChange state := rfl
  dsimp only
  rw [hchange]
  cases anchorChange state with
  | none => rfl
  | some change =>
    cases change with
    | clear => rfl
    | set =>
      have hjudged : judgeAnchorRequest gate (inMode mode state).ctx =
          judgeAnchorRequest gate state.ctx := rfl
      dsimp only
      rw [hjudged]
      split
      · exact congrArg Except.ok (applyAnchorBudget_inMode gate mode { state with
          anchor := some
            { change := .set
              granted := (judgeAnchorRequest gate state.ctx).granted
              reason := (judgeAnchorRequest gate state.ctx).reason } })
      · exact congrArg (fun next => Except.ok (withViolations next _))
          (withoutAnchor_inMode mode { state with
            anchor := some
              { change := .set
                granted := (judgeAnchorRequest gate state.ctx).granted
                reason := (judgeAnchorRequest gate state.ctx).reason } })

theorem ignoresMode_provenanceStep (gate : Gate) : IgnoresMode (provenanceStep gate) :=
  (ignoresMode_ok fun _ _ => rfl).ite
    (.ite (fun _ _ => rfl) (ignoresMode_ok fun _ _ => rfl) fun _ _ => Iff.rfl) fun _ _ => Iff.rfl

theorem withHeldAnchor_inMode (mode : Mode) (state : State) (reason : String) :
    withHeldAnchor (inMode mode state) reason = inMode mode (withHeldAnchor state reason) := by
  have hrequest : requestsAnchor (inMode mode state) = requestsAnchor state := rfl
  have hop : (inMode mode state).op = state.op := rfl
  unfold withHeldAnchor
  rw [hrequest, hop]
  cases state.op with
  | create =>
    cases requestsAnchor state with
    | true => rfl
    | false => rfl
  | update =>
    cases requestsAnchor state with
    | true => rfl
    | false => rfl

theorem reviewStep_inMode (gate : Gate) (mode : Mode) (state : State) :
    reviewStep gate (inMode mode state) = inMode mode (reviewStep gate state) := by
  have hreasons : pendingReasons gate (inMode mode state) = pendingReasons gate state := rfl
  have hentry : (inMode mode state).entry = state.entry := rfl
  unfold reviewStep
  rw [hreasons, hentry]
  split
  · rfl
  dsimp only
  split
  · unfold holdAnchorWhilePending
    by_cases hheld : state.op = .update /\ state.base.any isPending = true /\
        requestsAnchor state = true
    · have hheldIn : (inMode mode state).op = .update /\
          (inMode mode state).base.any isPending = true /\
          requestsAnchor (inMode mode state) = true := hheld
      rw [if_pos hheld, if_pos hheldIn]
      exact withHeldAnchor_inMode mode state _
    · rw [if_neg hheld]
      exact if_neg hheld
  · exact withHeldAnchor_inMode mode { state with
      review := some (pendingReasons gate state)
      violations := state.violations ++ reviewNotices (pendingReasons gate state)
        (overrideRuleIds gate.texts (textsToScan state.op state.draft state.fields)) } _

theorem judged_mode (gate : Gate) (request : Request) (mode : Mode) :
    judged gate { request with mode := mode } = (judged gate request).map (inMode mode) := by
  have hcontent : IgnoresMode (contentSteps gate) :=
    (ignoresMode_runStep gate "normalize" (ignoresMode_normalizeStep gate)).bind
      ((ignoresMode_runStep gate "sensitive" (ignoresMode_sensitiveStep gate)).bind
        (ignoresMode_runStep gate "length" (ignoresMode_lengthStep gate)))
  have hverdict : IgnoresMode (verdictSteps gate) :=
    (ignoresMode_runStep gate "policy" (ignoresMode_policyStep gate)).bind
      ((ignoresMode_runStep gate "workspace" (ignoresMode_workspaceStep gate)).bind
        (ignoresMode_runStep gate "anchor" (ignoresMode_anchorStep gate)))
  have hall := hcontent.bind ((ignoresMode_materialize request.build).bind
    (hverdict.bind (ignoresMode_provenanceStep gate)))
  exact hall mode (initialState request)

theorem reviewed_mode (gate : Gate) (request : Request) (mode : Mode) :
    reviewed gate { request with mode := mode } = (reviewed gate request).map (inMode mode) := by
  unfold reviewed
  rw [judged_mode]
  cases judged gate request with
  | error refusal => rfl
  | ok state => exact congrArg Except.ok (reviewStep_inMode gate mode state)

variable {Part : Type} {part : State -> Part}

def Preserves (part : State -> Part) (step : State -> Except Refusal State) : Prop :=
  ∀ state next, step state = .ok next -> part next = part state

theorem Preserves.bind (hfirst : Preserves part first) (hsecond : Preserves part second) :
    Preserves part fun state => (first state).bind second := by
  intro state next hnext
  dsimp only at hnext
  cases hmiddle : first state with
  | error refusal =>
    rw [hmiddle] at hnext
    cases hnext
  | ok middle =>
    rw [hmiddle] at hnext
    exact (hsecond middle next hnext).trans (hfirst state middle hmiddle)

theorem preserves_ok (hchange : ∀ state, part (change state) = part state) :
    Preserves part fun state => .ok (change state) := by
  rintro state next ⟨⟩
  exact hchange state

theorem preserves_map {Result : Type} {found : State -> Except Refusal Result}
    {change : State -> Result -> State}
    (hchange : ∀ state result, part (change state result) = part state) :
    Preserves part fun state => (found state).map (change state) := by
  intro state next hnext
  dsimp only at hnext
  cases hfound : found state with
  | error refusal =>
    rw [hfound] at hnext
    cases hnext
  | ok result =>
    rw [hfound] at hnext
    cases hnext
    exact hchange state result

theorem Preserves.ite [DecidablePred condition] (hfirst : Preserves part first)
    (hsecond : Preserves part second) :
    Preserves part fun state => if condition state then first state else second state := by
  intro state next hnext
  dsimp only at hnext
  split at hnext
  · exact hfirst state next hnext
  · exact hsecond state next hnext

theorem preserves_runStep {gate : Gate} (name : String) (hstep : Preserves part (step gate)) :
    Preserves part (runStep gate name step) :=
  hstep.ite (preserves_ok fun _ => rfl)

/-- What a write is about. -/
def subject (state : State) : String × Op × Mode × Option Row × Context :=
  (state.entry, state.op, state.mode, state.base, state.ctx)

def judgedSubject (state : State) :
    (String × Op × Mode × Option Row × Context) × Option AnchorVerdict :=
  (subject state, state.anchor)

theorem preserves_normalizeStep (gate : Gate) : Preserves judgedSubject (normalizeStep gate) := by
  refine preserves_map ?_
  exact fun _ _ => rfl

theorem preserves_sensitiveStep (gate : Gate) : Preserves judgedSubject (sensitiveStep gate) := by
  refine .ite (preserves_ok ?_) (preserves_map ?_)
  · exact fun _ => rfl
  · exact fun _ _ => rfl

theorem preserves_lengthStep (gate : Gate) : Preserves judgedSubject (lengthStep gate) := by
  refine .ite (preserves_ok ?_) (preserves_ok ?_)
  · exact fun _ => rfl
  · exact fun _ => rfl

theorem preserves_contentSteps (gate : Gate) : Preserves judgedSubject (contentSteps gate) :=
  (preserves_runStep "normalize" (preserves_normalizeStep gate)).bind
    ((preserves_runStep "sensitive" (preserves_sensitiveStep gate)).bind
      (preserves_runStep "length" (preserves_lengthStep gate)))

theorem preserves_materialize (build : Row -> Except String Row) :
    Preserves judgedSubject (materialize build) := by
  intro state next hnext
  unfold materialize at hnext
  split at hnext
  · split at hnext
    · cases hnext
    · cases hnext
      rfl
  · cases hnext
    rfl

theorem preserves_policyStep (gate : Gate) : Preserves judgedSubject (policyStep gate) := by
  refine .ite (preserves_ok ?_) (preserves_ok ?_)
  · exact fun _ => rfl
  · exact fun _ => rfl

theorem preserves_workspaceStep (gate : Gate) : Preserves judgedSubject (workspaceStep gate) := by
  refine .ite (preserves_ok ?_) (preserves_ok ?_)
  · exact fun _ => rfl
  · exact fun _ => rfl

theorem subject_withoutAnchor (state : State) : subject (withoutAnchor state) = subject state := by
  unfold withoutAnchor
  split <;> rfl

theorem subject_applyAnchorBudget (gate : Gate) (state : State) :
    subject (applyAnchorBudget gate state) = subject state := by
  unfold applyAnchorBudget
  split
  · rfl
  split
  · exact subject_withoutAnchor state
  · rfl

theorem preserves_anchorStep (gate : Gate) : Preserves subject (anchorStep gate) := by
  intro state next hnext
  unfold anchorStep at hnext
  split at hnext
  · cases hnext
    rfl
  split at hnext
  · cases hnext
    rfl
  · cases hnext
    rfl
  · dsimp only at hnext
    split at hnext
    · cases hnext
      exact subject_applyAnchorBudget gate _
    · cases hnext
      exact subject_withoutAnchor _

theorem preserves_provenanceStep (gate : Gate) : Preserves judgedSubject (provenanceStep gate) := by
  intro state next hnext
  unfold provenanceStep at hnext
  split at hnext
  · cases hnext
    rfl
  dsimp only at hnext
  split at hnext
  · cases hnext
  · cases hnext
    rfl

theorem subject_withHeldAnchor (state : State) (reason : String) :
    subject (withHeldAnchor state reason) = subject state := by
  unfold withHeldAnchor
  split <;> rfl

theorem subject_reviewStep (gate : Gate) (state : State) :
    subject (reviewStep gate state) = subject state := by
  unfold reviewStep
  split
  · rfl
  dsimp only
  split
  · unfold holdAnchorWhilePending
    split
    · exact subject_withHeldAnchor state _
    · rfl
  · exact subject_withHeldAnchor _ _

theorem Preserves.subject {step : State -> Except Refusal State}
    (hstep : Preserves judgedSubject step) : Preserves GateDecisions.subject step :=
  fun state next hnext => congrArg Prod.fst (hstep state next hnext)

theorem exists_of_bind {First Second : Type} {result : Except Refusal First}
    {next : First -> Except Refusal Second} {last : Second} (hlast : result.bind next = .ok last) :
    ∃ first, result = .ok first /\ next first = .ok last := by
  cases result with
  | error refusal => cases hlast
  | ok first => exact ⟨first, rfl, hlast⟩

variable {gate : Gate} {request : Request} {state : State}

theorem judged_subject (hstate : judged gate request = .ok state) :
    subject state = subject (initialState request) := by
  have hverdict : Preserves subject (verdictSteps gate) :=
    (preserves_runStep "policy" (preserves_policyStep gate).subject).bind
      ((preserves_runStep "workspace" (preserves_workspaceStep gate).subject).bind
        (preserves_runStep "anchor" (preserves_anchorStep gate)))
  have hall := (preserves_contentSteps gate).subject.bind
    ((preserves_materialize request.build).subject.bind
      (hverdict.bind (preserves_provenanceStep gate).subject))
  exact hall (initialState request) state hstate

theorem exists_of_reviewed (hstate : reviewed gate request = .ok state) :
    ∃ before, judged gate request = .ok before /\ state = reviewStep gate before := by
  unfold reviewed at hstate
  cases hbefore : judged gate request with
  | error refusal =>
    rw [hbefore] at hstate
    cases hstate
  | ok before =>
    rw [hbefore] at hstate
    cases hstate
    exact ⟨before, rfl, rfl⟩

theorem reviewed_subject (hstate : reviewed gate request = .ok state) :
    subject state = subject (initialState request) := by
  obtain ⟨before, hbefore, rfl⟩ := exists_of_reviewed hstate
  exact (subject_reviewStep gate before).trans (judged_subject hbefore)

def Denied (state : State) : Prop :=
  ∃ verdict, state.anchor = some verdict /\ verdict.granted = false

def MarkedPending (gate : Gate) (before : State) : Prop :=
  before.entry ∈ reviewEntries /\
    (pendingReasons gate before ≠ [] \/
      before.op = .update /\ before.base.any isPending = true /\ requestsAnchor before = true)

def withdrawnMark : Op -> Option Value
  | .create => some (.bool false)
  | .update => none

def anchorMark (state : State) : Option Value := (valueOf state).read "is_anchor"

def Withdrawn (state : State) : Prop := anchorMark state = withdrawnMark state.op

theorem requestsAnchor_eq (state : State) : requestsAnchor state = isTrue (anchorMark state) := by
  unfold requestsAnchor anchorMark valueOf
  cases state.op with
  | create => rfl
  | update => rfl

theorem Withdrawn.not_requested (hstate : Withdrawn state) : requestsAnchor state = false := by
  rw [requestsAnchor_eq, hstate]
  cases state.op with
  | create => rfl
  | update => rfl

theorem withdrawn_withoutAnchor (state : State) : Withdrawn (withoutAnchor state) := by
  unfold Withdrawn anchorMark valueOf withoutAnchor
  cases state.op with
  | create => simp [withdrawnMark]
  | update => simp [withdrawnMark]

theorem anchor_applyAnchorBudget (gate : Gate) (state : State) :
    (applyAnchorBudget gate state).anchor = state.anchor := by
  unfold applyAnchorBudget withoutAnchor
  split
  · rfl
  split
  · split <;> rfl
  · rfl

variable {next : State}

/-- A request that is not granted loses its mark. -/
theorem anchorStep_denied (hnone : state.anchor = none) (hnext : anchorStep gate state = .ok next)
    (hdenied : Denied next) : Withdrawn next := by
  obtain ⟨verdict, hverdict, hgranted⟩ := hdenied
  unfold anchorStep at hnext
  split at hnext
  · cases hnext
    rw [hnone] at hverdict
    cases hverdict
  split at hnext
  · cases hnext
    rw [hnone] at hverdict
    cases hverdict
  · cases hnext
    cases hverdict
    cases hgranted
  · dsimp only at hnext
    split at hnext
    · rename_i hdecision
      cases hnext
      rw [anchor_applyAnchorBudget] at hverdict
      cases hverdict
      rw [hdecision] at hgranted
      cases hgranted
    · cases hnext
      exact withdrawn_withoutAnchor _

theorem verdictSteps_denied (hnone : state.anchor = none)
    (hnext : verdictSteps gate state = .ok next) (hdenied : Denied next) : Withdrawn next := by
  obtain ⟨checked, hchecked, hrest⟩ := exists_of_bind hnext
  obtain ⟨placed, hplaced, hlast⟩ := exists_of_bind hrest
  have hkept := congrArg Prod.snd
    (preserves_runStep "policy" (preserves_policyStep gate) state checked hchecked)
  have hkeptPlaced := congrArg Prod.snd
    (preserves_runStep "workspace" (preserves_workspaceStep gate) checked placed hplaced)
  have hanchor : placed.anchor = none := hkeptPlaced.trans (hkept.trans hnone)
  unfold runStep at hlast
  split at hlast
  · exact anchorStep_denied hanchor hlast hdenied
  · cases hlast
    obtain ⟨verdict, hverdict, -⟩ := hdenied
    rw [hanchor] at hverdict
    cases hverdict

theorem anchorMark_provenanceStep (hnext : provenanceStep gate state = .ok next) :
    anchorMark next = anchorMark state := by
  unfold provenanceStep at hnext
  split at hnext
  · cases hnext
    rfl
  · rename_i hcreate
    dsimp only at hnext
    split at hnext
    · cases hnext
    · cases hnext
      unfold anchorMark valueOf
      cases hop : state.op with
      | create =>
        dsimp only
        rw [provenanceStamp, Row.read_set_of_ne _ (by decide), Row.read_set_of_ne _ (by decide),
          Row.read_set_of_ne _ (by decide)]
      | update => rfl

variable {before : State}

theorem judged_denied (hbefore : judged gate request = .ok before) (hdenied : Denied before) :
    Withdrawn before := by
  obtain ⟨content, hcontent, hrest⟩ := exists_of_bind hbefore
  obtain ⟨drafted, hdrafted, hmore⟩ := exists_of_bind hrest
  obtain ⟨verdict, hverdict, hlast⟩ := exists_of_bind hmore
  have hcontentAnchor := congrArg Prod.snd
    (preserves_contentSteps gate (initialState request) content hcontent)
  have hdraftedAnchor := congrArg Prod.snd
    (preserves_materialize request.build content drafted hdrafted)
  have hnone : drafted.anchor = none := hdraftedAnchor.trans hcontentAnchor
  have hkept := preserves_provenanceStep gate verdict before hlast
  have hop : before.op = verdict.op := congrArg (·.1.2.1) hkept
  have hdeniedVerdict : Denied verdict := by
    obtain ⟨given, hgiven, hgranted⟩ := hdenied
    exact ⟨given, (congrArg Prod.snd hkept).symm.trans hgiven, hgranted⟩
  have hwithdrawn := verdictSteps_denied hnone hverdict hdeniedVerdict
  rw [Withdrawn, anchorMark_provenanceStep hlast, hop]
  exact hwithdrawn

theorem read_withColumns (reason : String) (row : Row) :
    (withColumns reason row).read "is_anchor" = row.read "is_anchor" := by
  rw [withColumns, Row.read_set_of_ne _ (by decide), Row.read_set_of_ne _ (by decide)]

theorem anchorMark_withHeldAnchor (state : State) (reason : String) :
    anchorMark (withHeldAnchor state reason) =
      if requestsAnchor state then withdrawnMark state.op else anchorMark state := by
  unfold withHeldAnchor
  cases hop : state.op with
  | create =>
    cases requestsAnchor state with
    | true => simp [anchorMark, valueOf, withdrawnMark]
    | false => simp [anchorMark, valueOf, read_withColumns, hop]
  | update =>
    cases requestsAnchor state with
    | true => simp [anchorMark, valueOf, withdrawnMark, read_withColumns]
    | false => simp [anchorMark, valueOf, read_withColumns, hop]

theorem anchorMark_reviewStep (gate : Gate) (before : State) :
    anchorMark (reviewStep gate before) = anchorMark before \/
      requestsAnchor before = true /\
        anchorMark (reviewStep gate before) = withdrawnMark before.op := by
  have hheld : ∀ state reason, anchorMark (withHeldAnchor state reason) = anchorMark state \/
      requestsAnchor state = true /\
        anchorMark (withHeldAnchor state reason) = withdrawnMark state.op := by
    intro state reason
    rw [anchorMark_withHeldAnchor]
    cases requestsAnchor state with
    | true => exact .inr ⟨rfl, rfl⟩
    | false => exact .inl rfl
  unfold reviewStep
  split
  · exact .inl rfl
  dsimp only
  split
  · unfold holdAnchorWhilePending
    split
    · exact hheld before _
    · exact .inl rfl
  · exact hheld { before with
      review := some (pendingReasons gate before)
      violations := before.violations ++ reviewNotices (pendingReasons gate before)
        (overrideRuleIds gate.texts (textsToScan before.op before.draft before.fields)) } _

theorem anchorMark_of_markedPending (hpending : MarkedPending gate before)
    (hrequest : requestsAnchor before = true) :
    anchorMark (reviewStep gate before) = withdrawnMark before.op := by
  obtain ⟨hentry, hreason⟩ := hpending
  unfold reviewStep
  rw [if_neg (not_not.mpr hentry)]
  dsimp only
  split
  · rename_i hnone
    obtain ⟨hupdate, hbase, -⟩ := hreason.resolve_left (not_not.mpr hnone)
    rw [holdAnchorWhilePending, if_pos ⟨hupdate, hbase, hrequest⟩, anchorMark_withHeldAnchor,
      if_pos hrequest]
  · have hheld := anchorMark_withHeldAnchor { before with
      review := some (pendingReasons gate before)
      violations := before.violations ++ reviewNotices (pendingReasons gate before)
        (overrideRuleIds gate.texts (textsToScan before.op before.draft before.fields)) }
    have hsame : requestsAnchor { before with
        review := some (pendingReasons gate before)
        violations := before.violations ++ reviewNotices (pendingReasons gate before)
          (overrideRuleIds gate.texts (textsToScan before.op before.draft before.fields)) } =
        requestsAnchor before := rfl
    rw [hheld, hsame, if_pos hrequest]

/-- A write that was put off, or not granted an anchor, comes out of the review step without
the mark. -/
theorem reviewStep_unmarked (hdenied : Denied before -> Withdrawn before)
    (hheld : MarkedPending gate before \/ Denied before) :
    isTrue (anchorMark (reviewStep gate before)) = false /\
      (requestsAnchor before = true \/ Denied before ->
        anchorMark (reviewStep gate before) = withdrawnMark before.op) := by
  have hno : isTrue (withdrawnMark before.op) = false := by
    cases before.op with
    | create => rfl
    | update => rfl
  cases hrequest : requestsAnchor before with
  | true =>
    have hpending : MarkedPending gate before := by
      refine hheld.resolve_right fun hin => ?_
      rw [(hdenied hin).not_requested] at hrequest
      cases hrequest
    have hmark := anchorMark_of_markedPending hpending hrequest
    exact ⟨by rw [hmark, hno], fun _ => hmark⟩
  | false =>
    have hmark : anchorMark (reviewStep gate before) = anchorMark before := by
      refine (anchorMark_reviewStep gate before).resolve_right fun hin => ?_
      rw [hrequest] at hin
      cases hin.1
    rw [hmark]
    refine ⟨by rw [← requestsAnchor_eq, hrequest], fun hwhy => ?_⟩
    exact hdenied (hwhy.resolve_left (by simp))

theorem anchorMark_decideWrite {decided : State × List String}
    (hdecided : decideWrite gate state = .ok decided) :
    anchorMark decided.1 = anchorMark state := by
  unfold decideWrite at hdecided
  dsimp only at hdecided
  split at hdecided
  · cases hdecided
    rfl
  split at hdecided
  · cases hdecided
    rfl
  split at hdecided
  · cases hdecided
  · cases hdecided
    unfold anchorMark valueOf
    cases hop : state.op with
    | create =>
      dsimp only
      rw [withValidationWarnings, Row.read_set_of_ne _ (by decide)]
    | update => rw [hop]

variable {approved : Approved}

theorem exists_of_check (hcheck : check gate request = .ok approved) :
    ∃ before decided, judged gate request = .ok before /\
      decideWrite gate (reviewStep gate before) = .ok decided /\ approved = answer decided := by
  obtain ⟨state, hstate, hmap⟩ := exists_of_bind hcheck
  obtain ⟨before, hbefore, rfl⟩ := exists_of_reviewed hstate
  cases hdecided : decideWrite gate (reviewStep gate before) with
  | error refusal =>
    rw [hdecided] at hmap
    cases hmap
  | ok decided =>
    rw [hdecided] at hmap
    cases hmap
    exact ⟨before, decided, hbefore, hdecided, rfl⟩

theorem enforceHardGate_isSome {keyId : String} (hkey : state.ctx.keyId = some keyId)
    (heligible : ∃ violation ∈ state.violations, isGateEligible gate violation = true)
    (hgate : gate.getHardGate keyId ≠ .ok false) :
    ∃ refused, enforceHardGate gate state = some refused := by
  obtain ⟨violation, hmem, hviolation⟩ := heligible
  have hne : state.violations.filter (isGateEligible gate) ≠ [] :=
    List.ne_nil_of_mem (List.mem_filter.mpr ⟨hmem, hviolation⟩)
  unfold enforceHardGate
  dsimp only
  split
  · exact ⟨_, rfl⟩
  split
  · exact ⟨_, rfl⟩
  rw [hkey]
  dsimp only
  cases hlookup : gate.getHardGate keyId with
  | error message => exact ⟨_, rfl⟩
  | ok hard =>
    cases hard with
    | true => exact ⟨_, rfl⟩
    | false => exact absurd hlookup hgate

theorem check_refused {keyId : String} (hstate : reviewed gate request = .ok state)
    (hmode : request.mode = .production) (hkey : request.ctx.keyId = some keyId)
    (heligible : ∃ violation ∈ state.violations, isGateEligible gate violation = true)
    (hgate : gate.getHardGate keyId ≠ .ok false) :
    ∃ refused, check gate request = .error (.policy refused) := by
  have hsubject := reviewed_subject hstate
  have hstateMode : state.mode = .production := (congrArg (·.2.2.1) hsubject).trans hmode
  have hstateKey : state.ctx.keyId = some keyId :=
    (congrArg (·.2.2.2.2.keyId) hsubject).trans hkey
  obtain ⟨refused, hrefused⟩ := enforceHardGate_isSome hstateKey heligible hgate
  obtain ⟨violation, hmem, -⟩ := heligible
  refine ⟨refused, ?_⟩
  rw [check, hstate]
  change (decideWrite gate state).map answer = _
  unfold decideWrite
  dsimp only
  rw [hstateMode]
  dsimp only
  rw [if_neg (List.ne_nil_of_mem hmem), hrefused]
  rfl

theorem check_dryRun (hcheck : check gate { request with mode := .production } = .ok approved) :
    ∃ dry, check gate { request with mode := .dryRun } = .ok dry /\
      dry.warnings = approved.warnings := by
  obtain ⟨before, decided, hbefore, hdecided, rfl⟩ := exists_of_check hcheck
  have hstate : reviewed gate { request with mode := .production } =
      .ok (reviewStep gate before) := by
    rw [reviewed, hbefore]
    rfl
  have hmode : (reviewStep gate before).mode = .production :=
    congrArg (·.2.2.1) (reviewed_subject hstate)
  have hdry : reviewed gate { request with mode := .dryRun } =
      .ok (inMode .dryRun (reviewStep gate before)) := by
    have hmoved := reviewed_mode gate { request with mode := .production } .dryRun
    rw [hstate] at hmoved
    exact hmoved
  refine ⟨answer (inMode .dryRun (reviewStep gate before),
    (reviewStep gate before).violations.map ruleName), ?_, ?_⟩
  · rw [check, hdry]
    rfl
  · unfold decideWrite at hdecided
    dsimp only at hdecided
    rw [hmode] at hdecided
    dsimp only at hdecided
    split at hdecided
    · rename_i hnone
      cases hdecided
      change (reviewStep gate before).violations.map ruleName = []
      rw [hnone]
      rfl
    split at hdecided
    · cases hdecided
    · cases hdecided
      rfl

/-- The gate fails closed for a key with a hard gate, hands out no anchor that was put off
or not granted, and tells a dry run what it tells a production run. -/
theorem check_verdict (gate : Gate) (request : Request) :
    (∀ state keyId, request.mode = .production -> request.ctx.keyId = some keyId ->
      reviewed gate request = .ok state ->
      (∃ violation ∈ state.violations, isGateEligible gate violation = true) ->
      (gate.getHardGate keyId = .ok true \/
        ∃ message, gate.getHardGate keyId = .error message) ->
      ∃ refused, check gate request = .error (.policy refused)) /\
    (∀ before approved, judged gate request = .ok before ->
      check gate request = .ok approved -> MarkedPending gate before \/ Denied before ->
      marksAnchor approved.value = false /\
        (requestsAnchor before = true \/ Denied before ->
          approved.value.read "is_anchor" = withdrawnMark request.op)) /\
    (∀ approved, check gate { request with mode := .production } = .ok approved ->
      ∃ dry, check gate { request with mode := .dryRun } = .ok dry /\
        dry.warnings = approved.warnings) := by
  refine ⟨?_, ?_, fun _ hcheck => check_dryRun hcheck⟩
  · intro state keyId hmode hkey hstate heligible hgate
    refine check_refused hstate hmode hkey heligible fun hoff => ?_
    rcases hgate with hon | ⟨message, herror⟩
    · rw [hoff] at hon
      cases hon
    · rw [hoff] at herror
      cases herror
  · intro before approved hbefore hcheck hheld
    obtain ⟨state, decided, hstate, hdecided, rfl⟩ := exists_of_check hcheck
    rw [hbefore] at hstate
    cases hstate
    have hmark : (answer decided).value.read "is_anchor" = anchorMark (reviewStep gate before) :=
      anchorMark_decideWrite hdecided
    have hop : before.op = request.op := congrArg (·.2.1) (judged_subject hbefore)
    obtain ⟨hno, hgone⟩ := reviewStep_unmarked (judged_denied hbefore) hheld
    rw [marksAnchor, hmark, ← hop]
    exact ⟨hno, hgone⟩

def plainTexts : Texts where
  validateContentInput _ := .ok ()
  trim text := text
  validateContent _ _ _ := .ok ()
  keywordText keyword := keyword
  normalizeKeywords keywords := .ok keywords
  scanText _ _ text := (text, [])
  truncateContent text _ :=
    { value := text
      truncated := false
      originalLength := text.length
      storedLength := text.length }
  matchInstructionOverride _ := []
  sanitizeClientName _ := none
  numberOf _ := none
  tokensOf _ := 0

/-- `MEMENTO_ANCHOR_PERMISSION=off`, and a key that may write but not set anchors. -/
def lenientGate : Gate where
  texts := plainTexts
  enabled := true
  restore := false
  policyRules _ := .ok []
  policyGating := true
  getHardGate _ := .ok true
  checkWorkspaceAllowed _ _ := .ok none
  workspaceGateEnforced := false
  getAnchorState _ := .ok (some { permissions := some ["read", "write"], anchorCount := some 0 })
  permissionMode := .off
  anchorLimit := 20
  loadInjectedAnchors := none
  contextAnchorTokenBudget := 0
  anchorTokenBudgetMode := .warn
  maxAnchorFragments := 20
  scanMode := .mask
  provenance := false
  reviewQueue := true

def anchorRequest : Request where
  entry := "remember"
  op := .create
  mode := .production
  fields := (Row.empty.set "content" (.string "the deploy host is vault-3")).set
    "isAnchor" (.bool true)
  base := none
  build fields :=
    .ok ((Row.empty.set "content" ((fields.read "content").getD .null)).set "is_anchor"
    (.bool (isTrue (fields.read "isAnchor"))))
  ctx :=
    { keyId := some "k1"
      isMaster := false
      clientName := none
      trustCap := none
      reviewMode := none }

/-- Where anchors are not judged, a key without the permission gets one. -/
theorem check_ungranted_anchor : ¬ ∀ (gate : Gate) (request : Request) (approved : Approved)
    (keyId : String) (found : AnchorState), request.ctx.keyId = some keyId ->
    request.ctx.isMaster = false -> gate.getAnchorState keyId = .ok (some found) ->
    hasAnchorPermission (found.permissions.getD []) = false ->
    check gate request = .ok approved -> marksAnchor approved.value = false := by
  intro hclaim
  cases hcheck : check lenientGate anchorRequest with
  | error refusal => exact absurd hcheck (by intro hrefused; cases hrefused)
  | ok approved =>
    have hleft := hclaim lenientGate anchorRequest approved "k1" _ rfl rfl rfl rfl hcheck
    have hmarked : (check lenientGate anchorRequest).toOption.map
        (fun found => marksAnchor found.value) = some true := rfl
    rw [hcheck] at hmarked
    rw [Except.toOption, Option.map_some, hleft] at hmarked
    cases hmarked

end AnchorMind.Write.GateDecisions
