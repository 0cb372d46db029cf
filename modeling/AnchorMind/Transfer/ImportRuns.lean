import AnchorMind.Transfer.RecordHandling

/-!
# Whole runs of an import

Every record of a run is counted once, in one of the four classes.  A record that is
rejected or fails is handled without an effect on the others, unless it is the first one,
which decides the format version.  Links join fragments that the run has met, and a dry run
reports what the real run reports.
-/

namespace AnchorMind.Transfer

open Text.Objects List

variable {Table Draft : Type} {deps : Deps Table Draft} {rec : Record}

/-- The first step of `processRecord`. -/
def resolved (deps : Deps Table Draft) (rec : Record) (run : Run Table) :
    Run Table × Except Abort Bool :=
  resolveVersion deps rec { run with report := { run.report with lines := rec.lineNo } }

structure Frame (before after : Run Table) : Prop where
  entities : after.report.entities = before.report.entities
  embeddingQueued : after.report.embeddingQueued = before.report.embeddingQueued
  idMap : after.state.idMap = before.state.idMap
  store : after.state.store = before.state.store
  session : after.state.session = before.state.session

theorem resolved_frame (deps : Deps Table Draft) (rec : Record) (run : Run Table) :
    Frame run (resolved deps rec run).1 := by
  unfold resolved resolveVersion
  split
  · exact ⟨rfl, rfl, rfl, rfl, rfl⟩
  · exact ⟨rfl, rfl, rfl, rfl, rfl⟩
  · split
    · exact ⟨rfl, rfl, rfl, rfl, rfl⟩
    · unfold resolveVersion.decided
      split <;> exact ⟨rfl, rfl, rfl, rfl, rfl⟩
  · unfold resolveVersion.decided
    split <;> exact ⟨rfl, rfl, rfl, rfl, rfl⟩

theorem entity_of_header {header : Object} (hheader : rec.header = some header) :
    rec.entity = none := by
  unfold Record.header at hheader
  split at hheader
  · rename_i hbody
    rw [entity_of_body hbody]
    rfl
  · cases hheader

variable {run : Run Table}

theorem entity_of_resolved (hdone : (resolved deps rec run).2 = .ok true) : rec.entity = none := by
  cases hheader : rec.header with
  | some header => exact entity_of_header hheader
  | none =>
    cases hversion : run.state.version with
    | some version => simp [resolved, resolveVersion, hheader, hversion] at hdone
    | none =>
      simp only [resolved, resolveVersion, hheader, hversion, resolveVersion.decided] at hdone
      split at hdone <;> cases hdone

theorem resolved_decided (deps : Deps Table Draft) (rec : Record) {version : Nat}
    (hversion : run.state.version = some version) :
    (resolved deps rec run).1.state = run.state := by
  cases hheader : rec.header with
  | none => simp only [resolved, resolveVersion, hversion, hheader]
  | some header => simp only [resolved, resolveVersion, hversion, hheader]

theorem version_of_resolved {done : Bool} (hdone : (resolved deps rec run).2 = .ok done) :
    (resolved deps rec run).1.state.version ≠ none := by
  cases hversion : run.state.version with
  | some version =>
    rw [resolved_decided deps rec hversion, hversion]
    exact Option.some_ne_none version
  | none =>
    cases hheader : rec.header with
    | none =>
      simp only [resolved, resolveVersion, hversion, hheader, resolveVersion.decided]
      split <;> exact Option.some_ne_none _
    | some header =>
      simp only [resolved, resolveVersion, hversion, hheader] at hdone ⊢
      cases hread : readHeaderVersion header with
      | error err =>
        rw [hread] at hdone
        cases hdone
      | ok version =>
        simp only [resolveVersion.decided]
        split <;> exact Option.some_ne_none _

def countedAs (deps : Deps Table Draft) (rec : Record) (run : Run Table) :
    Option (Entity × Outcome) :=
  match resolved deps rec run with
  | (next, .ok false) => (countedRows (dispatch deps rec next.state).calls).head?
  | _ => none

def countedAll (deps : Deps Table Draft) : List Record -> Run Table ->
    List (Option (Entity × Outcome))
  | [], _ => []
  | rec :: rest, run =>
    match processRecord deps rec run with
    | (next, none) => countedAs deps rec run :: countedAll deps rest next
    | (_, some _) => []

inductive Processed (deps : Deps Table Draft) (rec : Record) (run : Run Table) :
    Run Table × Option Abort -> Prop where
  | ended {next : Run Table} {abort : Abort} (hframe : Frame run next)
      (hcounted : countedAs deps rec run = none) : Processed deps rec run (next, some abort)
  | header {next : Run Table} (hframe : Frame run next) (hversion : next.state.version ≠ none)
      (hentity : rec.entity = none) (hcounted : countedAs deps rec run = none) :
      Processed deps rec run (next, none)
  | handled {before : Run Table} {handled : Handled Table} (hframe : Frame run before)
      (hversion : before.state.version ≠ none)
      (hdecided : run.state.version ≠ none -> before.state = run.state)
      (hdispatched : Dispatched deps rec before.state handled)
      (hcounted : countedAs deps rec run = (countedRows handled.calls).head?) :
      Processed deps rec run
        (⟨before.report.applyAll handled.calls, handled.state⟩, handled.aborted.map .failed)

theorem processRecord_eq (deps : Deps Table Draft) (rec : Record) (run : Run Table) :
    processRecord deps rec run =
      match resolved deps rec run with
      | (next, .error abort) => (next, some abort)
      | (next, .ok true) => (next, none)
      | (next, .ok false) =>
        (⟨next.report.applyAll (dispatch deps rec next.state).calls,
          (dispatch deps rec next.state).state⟩,
          (dispatch deps rec next.state).aborted.map .failed) := rfl

theorem processed (deps : Deps Table Draft) (rec : Record) (run : Run Table) :
    Processed deps rec run (processRecord deps rec run) := by
  have hframe := resolved_frame deps rec run
  rw [processRecord_eq]
  cases hresolved : resolved deps rec run with
  | mk next result =>
    rw [hresolved] at hframe
    cases result with
    | error abort => exact .ended hframe (by rw [countedAs, hresolved])
    | ok done =>
      have hversion : next.state.version ≠ none := by
        have hsome := version_of_resolved (congrArg Prod.snd hresolved)
        rw [hresolved] at hsome
        exact hsome
      cases done with
      | true =>
        exact .header hframe hversion (entity_of_resolved (congrArg Prod.snd hresolved))
          (by rw [countedAs, hresolved])
      | false =>
        refine .handled hframe hversion ?_ (dispatched next.state) (by rw [countedAs, hresolved])
        intro hsome
        obtain ⟨version, hfound⟩ := Option.ne_none_iff_exists'.mp hsome
        have hstate := resolved_decided deps rec hfound
        rw [hresolved] at hstate
        exact hstate

theorem Accounted.rows {entity : Option Entity} {handled : Handled Table}
    (haccounted : Accounted entity handled) (hdone : handled.aborted = none) :
    countedRows handled.calls = (countedRows handled.calls).head?.toList /\
      (countedRows handled.calls).head?.map Prod.fst = entity := by
  rw [Accounted, hdone] at haccounted
  cases entity with
  | none =>
    rw [map_eq_nil_iff.mp haccounted]
    exact ⟨rfl, rfl⟩
  | some entity =>
    obtain ⟨row, hrows, hrow⟩ := map_eq_singleton_iff.mp haccounted
    rw [hrows]
    exact ⟨rfl, congrArg some hrow⟩

theorem count_toList (row : Option (Entity × Outcome)) (other : Entity × Outcome) :
    row.toList.count other = [row].count (some other) := by
  cases row with
  | none => rfl
  | some row =>
    rcases Decidable.em (row = other) with rfl | hne
    · simp
    · simp [hne]

/-- One record adds one to the count of its class, or nothing when it is no row. -/
theorem Processed.counted {result : Run Table × Option Abort}
    (hprocessed : Processed deps rec run result) (hdone : result.2 = none) :
    (countedAs deps rec run).map Prod.fst = rec.entity /\
      ∀ entity outcome, (result.1.report.entities entity).of outcome =
        (run.report.entities entity).of outcome +
          [countedAs deps rec run].count (some (entity, outcome)) := by
  cases hprocessed with
  | ended hframe hcounted => cases hdone
  | header hframe hversion hentity hcounted =>
    rw [hcounted, hentity]
    refine ⟨rfl, fun entity outcome => ?_⟩
    rw [hframe.entities]
    rfl
  | @handled before handled hframe hversion hdecided hdispatched hcounted =>
    obtain ⟨hrows, hentity⟩ :=
      hdispatched.accounted.rows (Option.map_eq_none_iff.mp hdone)
    rw [hcounted]
    refine ⟨hentity, fun entity outcome => ?_⟩
    rw [Report.entities_applyAll, hframe.entities, hrows, count_toList]
    congr 2
    rw [<- hrows]

variable {next : Run Table}

theorem processAll_cons {rest : List Record}
    (hprocess : processRecord deps rec run = (next, none)) :
    processAll deps (rec :: rest) run = processAll deps rest next := by
  rw [processAll, hprocess]

variable {abort : Abort}

theorem processAll_ended {rest : List Record}
    (hprocess : processRecord deps rec run = (next, some abort)) :
    processAll deps (rec :: rest) run = (next, some abort) := by
  rw [processAll, hprocess]

variable {records : List Record} {last : Run Table}

theorem processAll_counted (hrun : processAll deps records run = (last, none)) :
    (countedAll deps records run).map (Option.map Prod.fst) = records.map Record.entity /\
      ∀ entity outcome, (last.report.entities entity).of outcome =
        (run.report.entities entity).of outcome +
          (countedAll deps records run).count (some (entity, outcome)) := by
  induction records generalizing run with
  | nil =>
    cases hrun
    exact ⟨rfl, fun _ _ => rfl⟩
  | cons rec rest ih =>
    cases hprocess : processRecord deps rec run with
    | mk next aborted =>
      cases aborted with
      | some abort =>
        rw [processAll_ended hprocess] at hrun
        cases hrun
      | none =>
        rw [processAll_cons hprocess] at hrun
        obtain ⟨hclasses, hcounts⟩ := ih hrun
        have hone := (processed deps rec run).counted
          (congrArg Prod.snd hprocess)
        rw [hprocess] at hone
        have hall : countedAll deps (rec :: rest) run =
            countedAs deps rec run :: countedAll deps rest next := by
          rw [countedAll, hprocess]
        rw [hall]
        refine ⟨congrArg₂ cons hone.1 hclasses, fun entity outcome => ?_⟩
        have hsplit : ([countedAs deps rec run] ++ countedAll deps rest next).count
            (some (entity, outcome)) = [countedAs deps rec run].count
              (some (entity, outcome)) + (countedAll deps rest next).count
                (some (entity, outcome)) :=
          count_append
        rw [singleton_append] at hsplit
        rw [hcounts entity outcome, hone.2 entity outcome, hsplit]
        omega

structure Matches (same : Prop) (left right : Run Table) : Prop where
  state : Like same left.state right.state
  report : same -> right.report = left.report

section

variable {same : Prop} {left right : Run Table} (dry : Bool)

section

variable (hmatches : Matches same left right)
include hmatches

theorem decided_matches (version : Nat) (synthetic isHeader : Bool) :
    (resolveVersion.decided { deps with dryRun := dry } right version synthetic isHeader).2 =
        (resolveVersion.decided deps left version synthetic isHeader).2 /\
      Matches same (resolveVersion.decided deps left version synthetic isHeader).1
        (resolveVersion.decided { deps with dryRun := dry } right version synthetic isHeader).1 :=
          by
  obtain ⟨hlike, hreport⟩ := hmatches
  have hdecided : Matches same (resolveVersion.decided deps left version synthetic isHeader).1
      (resolveVersion.decided { deps with dryRun := dry } right version synthetic isHeader).1 := by
    unfold resolveVersion.decided
    split <;> exact
      { state := ⟨⟨rfl, hlike.idMap, hlike.created, hlike.endSeen, rfl, rfl, hlike.store⟩,
          hlike.seen⟩
        report := fun hsame => by rw [hreport hsame] }
  refine ⟨?_, hdecided⟩
  unfold resolveVersion.decided
  split <;> rfl

theorem resolveVersion_matches :
    (resolveVersion { deps with dryRun := dry } rec right).2 = (resolveVersion deps rec left).2 /\
      Matches same (resolveVersion deps rec left).1
        (resolveVersion { deps with dryRun := dry } rec right).1 := by
  have hversion := hmatches.state.version
  unfold resolveVersion
  rw [hversion]
  split
  · exact ⟨rfl, hmatches.state, fun hsame => by rw [hmatches.report hsame]⟩
  · exact ⟨rfl, hmatches⟩
  · split
    · exact ⟨rfl, hmatches⟩
    · exact decided_matches dry hmatches _ _ _
  · exact decided_matches dry hmatches _ _ _

theorem resolved_matches :
    (resolved { deps with dryRun := dry } rec right).2 = (resolved deps rec left).2 /\
      Matches same (resolved deps rec left).1 (resolved { deps with dryRun := dry } rec right).1 :=
  resolveVersion_matches dry ⟨hmatches.state, fun hsame => by rw [hmatches.report hsame]⟩

end

theorem processRecord_matches (deps : Deps Table Draft) (rec : Record)
    (hmatches : Matches same left right) :
    countedAs { deps with dryRun := dry } rec right = countedAs deps rec left /\
      (processRecord { deps with dryRun := dry } rec right).2 = (processRecord deps rec left).2 /\
      Matches same (processRecord deps rec left).1
        (processRecord { deps with dryRun := dry } rec right).1 := by
  obtain ⟨hresult, hresolved⟩ := resolved_matches dry hmatches
  rw [processRecord_eq, processRecord_eq, countedAs, countedAs]
  cases hleft : resolved deps rec left with
  | mk leftNext result =>
    cases hright : resolved { deps with dryRun := dry } rec right with
    | mk rightNext other =>
      rw [hleft, hright] at hresult hresolved
      have hsame : other = result := hresult
      rw [hsame]
      cases result with
      | error abort => exact ⟨rfl, rfl, hresolved⟩
      | ok done =>
        cases done with
        | true => exact ⟨rfl, rfl, hresolved⟩
        | false =>
          have hagrees := dispatch_agrees dry deps rec hresolved.state
          refine ⟨?_, ?_, hagrees.state, ?_⟩
          · exact congrArg head? hagrees.counted
          · exact congrArg (Option.map Abort.failed) hagrees.aborted
          · intro hboth
            have hreport : rightNext.report = leftNext.report := hresolved.report hboth
            show rightNext.report.applyAll _ = leftNext.report.applyAll _
            rw [hreport, hagrees.calls hboth]

theorem processAll_matches (deps : Deps Table Draft) (records : List Record)
    (hmatches : Matches same left right) :
    countedAll { deps with dryRun := dry } records right = countedAll deps records left /\
      (processAll { deps with dryRun := dry } records right).2 =
        (processAll deps records left).2 /\
      Matches same (processAll deps records left).1
        (processAll { deps with dryRun := dry } records right).1 := by
  induction records generalizing left right with
  | nil => exact ⟨rfl, rfl, hmatches⟩
  | cons rec rest ih =>
    obtain ⟨hcounted, haborted, hnext⟩ := processRecord_matches dry deps rec hmatches
    cases hleft : processRecord deps rec left with
    | mk leftNext aborted =>
      cases hright : processRecord { deps with dryRun := dry } rec right with
      | mk rightNext other =>
        rw [hleft, hright] at haborted hnext
        have hsame : other = aborted := haborted
        subst hsame
        cases other with
        | some abort =>
          rw [countedAll, countedAll, processAll_ended hleft, processAll_ended hright,
            hleft, hright]
          exact ⟨rfl, rfl, hnext⟩
        | none =>
          obtain ⟨hall, hend, hlast⟩ := ih hnext
          rw [countedAll, countedAll, processAll_cons hleft, processAll_cons hright, hleft,
            hright]
          exact ⟨congrArg₂ cons hcounted hall, hend, hlast⟩

end

variable {front : List Record}

theorem processAll_append {back : List Record} (hfront : processAll deps front run = (next, none)) :
    processAll deps (front ++ back) run = processAll deps back next := by
  induction front generalizing run with
  | nil =>
    cases hfront
    rfl
  | cons rec rest ih =>
    cases hprocess : processRecord deps rec run with
    | mk middle aborted =>
      cases aborted with
      | some abort =>
        rw [processAll_ended hprocess] at hfront
        cases hfront
      | none =>
        rw [processAll_cons hprocess] at hfront
        rw [cons_append, processAll_cons hprocess]
        exact ih hfront

theorem processAll_append_ended {back : List Record}
    (hfront : processAll deps front run = (last, some abort)) :
    processAll deps (front ++ back) run = (last, some abort) := by
  induction front generalizing run with
  | nil => cases hfront
  | cons rec rest ih =>
    cases hprocess : processRecord deps rec run with
    | mk middle aborted =>
      cases aborted with
      | some other =>
        rw [processAll_ended hprocess] at hfront
        rw [cons_append, processAll_ended hprocess, hfront]
      | none =>
        rw [processAll_cons hprocess] at hfront
        rw [cons_append, processAll_cons hprocess]
        exact ih hfront

theorem processAll_snoc (deps : Deps Table Draft) (front : List Record) (rec : Record)
    (run : Run Table) :
    (∃ last abort, processAll deps front run = (last, some abort) /\
      processAll deps (front ++ [rec]) run = (last, some abort)) \/
    (∃ before, processAll deps front run = (before, none) /\
      processAll deps (front ++ [rec]) run = processRecord deps rec before) := by
  cases hfront : processAll deps front run with
  | mk before aborted =>
    cases aborted with
    | some abort => exact .inl ⟨before, abort, rfl, processAll_append_ended hfront⟩
    | none =>
      refine .inr ⟨before, rfl, (processAll_append hfront).trans ?_⟩
      cases hprocess : processRecord deps rec before with
      | mk next aborted =>
        cases aborted with
        | some abort => exact processAll_ended hprocess
        | none => exact processAll_cons hprocess

theorem processAll_preserves {P : Run Table -> Prop}
    (hstep : ∀ rec before, P before -> P (processRecord deps rec before).1) (records : List Record)
    (hrun : P run) : P (processAll deps records run).1 := by
  induction records generalizing run with
  | nil => exact hrun
  | cons rec rest ih =>
    have hnext := hstep rec run hrun
    cases hprocess : processRecord deps rec run with
    | mk next aborted =>
      rw [hprocess] at hnext
      cases aborted with
      | some abort =>
        rw [processAll_ended hprocess]
        exact hnext
      | none =>
        rw [processAll_cons hprocess]
        exact ih hnext

theorem processRecord_version (hprocess : processRecord deps rec run = (next, none)) :
    next.state.version ≠ none := by
  have hprocessed := processed deps rec run
  rw [hprocess] at hprocessed
  generalize hresult : (next, (none : Option Abort)) = result at hprocessed
  cases hprocessed with
  | ended hframe hcounted => cases hresult
  | header hframe hversion hentity hcounted =>
    cases hresult
    exact hversion
  | handled hframe hversion hdecided hdispatched hcounted =>
    rw [(Prod.mk.inj hresult).1]
    show Not (_ = _)
    rw [hdispatched.version_eq]
    exact hversion

theorem processAll_version (hrun : processAll deps records run = (last, none))
    (hversion : records ≠ [] \/ run.state.version ≠ none) : last.state.version ≠ none := by
  induction records generalizing run with
  | nil =>
    cases hrun
    exact hversion.resolve_left fun hne => hne rfl
  | cons rec rest ih =>
    cases hprocess : processRecord deps rec run with
    | mk next aborted =>
      cases aborted with
      | some abort =>
        rw [processAll_ended hprocess] at hrun
        cases hrun
      | none =>
        rw [processAll_cons hprocess] at hrun
        exact ih hrun (.inr (processRecord_version hprocess))

theorem processRecord_closed (hdry : deps.dryRun = true) (run : Run Table) :
    (processRecord deps rec run).1.state.closed = run.state.closed := by
  have hframe {before : Run Table} (hframe : Frame run before) :
      before.state.closed = run.state.closed := by
    rw [State.closed, State.closed, hframe.session, hframe.store]
  have hprocessed := processed deps rec run
  generalize processRecord deps rec run = result at hprocessed
  cases hprocessed with
  | ended hended _ => exact hframe hended
  | header hheader _ _ _ => exact hframe hheader
  | handled hhandled _ _ hdispatched _ => exact (hdispatched.closed hdry).trans (hframe hhandled)

theorem processRecord_session (hreal : deps.dryRun = false) (run : Run Table) :
    (processRecord deps rec run).1.state.session = run.state.session := by
  have hprocessed := processed deps rec run
  generalize processRecord deps rec run = result at hprocessed
  cases hprocessed with
  | ended hended _ => exact hended.session
  | header hheader _ _ _ => exact hheader.session
  | handled hhandled _ _ hdispatched _ => exact (hdispatched.session hreal).trans hhandled.session

theorem processAll_closed (records : List Record) (store : Store Table) :
    (processAll deps records (.start store)).1.state.closed =
      if deps.dryRun then store else (processAll deps records (.start store)).1.state.store := by
  split
  · rename_i hdry
    exact processAll_preserves (P := fun run => run.state.closed = store)
      (fun rec before hbefore => (processRecord_closed hdry before).trans hbefore) records rfl
  · rename_i hreal
    have hstart : (Run.start store).state.session = none := rfl
    have hsession := processAll_preserves (P := fun run : Run Table => run.state.session = none)
      (fun rec before hbefore =>
        (processRecord_session (Bool.eq_false_iff.mpr hreal) before).trans hbefore)
      records hstart
    rw [State.closed, hsession]
    rfl

theorem runImport_store (records : List Record) (store : Store Table) :
    (runImport deps records store).store =
      (processAll deps records (.start store)).1.state.closed := by
  unfold runImport
  split
  · rename_i run abort hrun
    rw [hrun]
  · rename_i run hrun
    rw [hrun]
    dsimp only
    split <;> split <;> rfl

def Undone (row : Option (Entity × Outcome)) : Prop :=
  ∃ entity outcome, row = some (entity, outcome) /\
    (outcome = .rejected \/ outcome = .failed)

theorem processRecord_undone (hversion : run.state.version ≠ none)
    (hprocess : processRecord deps rec run = (next, none))
    (hundone : Undone (countedAs deps rec run)) : Unchanged run.state next.state := by
  obtain ⟨entity, outcome, hrow, houtcome⟩ := hundone
  have hprocessed := processed deps rec run
  rw [hprocess] at hprocessed
  have hentity : rec.entity ≠ none := by
    rw [<- (hprocessed.counted rfl).1, hrow]
    exact Option.some_ne_none entity
  generalize hresult : (next, (none : Option Abort)) = result at hprocessed
  cases hprocessed with
  | ended hframe hcounted => cases hresult
  | header hframe _ hnone hcounted => exact absurd hnone hentity
  | @handled before handled hframe _ hdecided hdispatched hcounted =>
    obtain ⟨hnext, haborted⟩ := Prod.mk.inj hresult
    rw [hnext, <- hdecided hversion]
    refine hdispatched.unchanged hentity ?_
    have hrows := (hdispatched.accounted.rows (Option.map_eq_none_iff.mp haborted.symm)).1
    rw [<- hcounted, hrow] at hrows
    intro other hother
    rw [hrows, Option.toList_some, mem_singleton] at hother
    rw [hother]
    exact houtcome

def Isolated (deps : Deps Table Draft) (store : Store Table) (front : List Record) (rec : Record)
    (back : List Record) : Prop :=
  ∀ run next, processAll deps front (.start store) = (run, none) ->
    processRecord deps rec run = (next, none) -> Undone (countedAs deps rec run) ->
    countedAll deps back next = countedAll deps back run /\
      (processAll deps back next).2 = (processAll deps back run).2 /\
      Unchanged (processAll deps back run).1.state (processAll deps back next).1.state /\
      (runImport deps (front ++ rec :: back) store).store =
        (runImport deps (front ++ back) store).store

theorem isolated (store : Store Table) (rec : Record) (back : List Record) (hfront : front ≠ []) :
    Isolated deps store front rec back := by
  intro run next hrun hprocess hundone
  have hversion : run.state.version ≠ none := processAll_version hrun (.inl hfront)
  have hmatches : Matches False run next :=
    ⟨⟨processRecord_undone hversion hprocess hundone, False.elim⟩, False.elim⟩
  obtain ⟨hcounted, haborted, hlast⟩ := processAll_matches deps.dryRun deps back hmatches
  refine ⟨hcounted, haborted, hlast.state.toUnchanged, ?_⟩
  rw [runImport_store, runImport_store, processAll_closed, processAll_closed,
    processAll_append hrun, processAll_append hrun, processAll_cons hprocess]
  split
  · rfl
  · exact hlast.state.store

def Stored (deps : Deps Table Draft) (store : Store Table) (earlier : List Record)
    (stored : String) : Prop :=
  ∃ front rec rest run fileId outcome, earlier = front ++ rec :: rest /\
    processAll deps front (.start store) = (run, none) /\
    countedAs deps rec run = some (.fragments, outcome) /\
    (outcome = .imported \/ outcome = .duplicate) /\ rec.fileId = some fileId /\
    (processRecord deps rec run).1.state.idMap.lookup fileId = some stored

variable {store : Store Table} {stored : String}

theorem Stored.append {earlier : List Record} (hstored : Stored deps store earlier stored)
    (more : List Record) : Stored deps store (earlier ++ more) stored := by
  obtain ⟨front, rec, rest, run, fileId, outcome, rfl, hrest⟩ := hstored
  refine ⟨front, rec, rest ++ more, run, fileId, outcome, ?_, hrest⟩
  rw [append_assoc, cons_append]

theorem processRecord_ids (deps : Deps Table Draft) (rec : Record) (run : Run Table) :
    (processRecord deps rec run).1.state.idMap = run.state.idMap \/
      ∃ fileId stored outcome, rec.fileId = some fileId /\
        (processRecord deps rec run).1.state.idMap = (fileId, stored) :: run.state.idMap /\
        countedAs deps rec run = some (.fragments, outcome) /\
        (outcome = .imported \/ outcome = .duplicate) := by
  have hprocessed := processed deps rec run
  generalize processRecord deps rec run = result at hprocessed
  cases hprocessed with
  | ended hframe _ => exact .inl hframe.idMap
  | header hframe _ _ _ => exact .inl hframe.idMap
  | handled hframe _ _ hdispatched hcounted =>
    rcases hdispatched.ids with hsame | ⟨fileId, stored, outcome, hfile, hmap, hrows, houtcome⟩
    · exact .inl (hsame.trans hframe.idMap)
    · refine .inr ⟨fileId, stored, outcome, hfile, hmap.trans ?_, ?_, houtcome⟩
      · rw [hframe.idMap]
      · rw [hcounted, hrows]
        rfl

theorem processAll_ids (hrun : processAll deps records (.start store) = (run, none))
    {fileId : String} (hknown : run.state.idMap.lookup fileId = some stored) :
    Stored deps store records stored := by
  induction records using reverseRecOn generalizing run with
  | nil =>
    cases hrun
    cases hknown
  | append_singleton front rec ih =>
    rcases processAll_snoc deps front rec (.start store) with
      ⟨last, abort, hfront, hall⟩ | ⟨before, hfront, hall⟩
    · rw [hall] at hrun
      cases hrun
    · have hnext : (processRecord deps rec before).1 = run :=
        congrArg Prod.fst (hall.symm.trans hrun)
      have hold (hsame : before.state.idMap.lookup fileId = some stored) :
          Stored deps store (front ++ [rec]) stored := (ih hfront hsame).append [rec]
      rw [<- hnext] at hknown
      rcases processRecord_ids deps rec before with
        hsame | ⟨recId, found, outcome, hfile, hmap, hcounted, houtcome⟩
      · rw [hsame] at hknown
        exact hold hknown
      · rcases Decidable.em (fileId = recId) with rfl | hne
        · exact ⟨front, rec, [], before, fileId, outcome, rfl, hfront, hcounted, houtcome, hfile,
            hknown⟩
        · rw [hmap, lookup_cons, beq_eq_false_iff_ne.mpr hne] at hknown
          exact hold hknown

theorem processRecord_links {link : StoredLink}
    (hmem : link ∈ (processRecord deps rec run).1.state.store.links) :
    link ∈ run.state.store.links \/ rec.entity = some .links /\ Resolved run.state link := by
  have hprocessed := processed deps rec run
  generalize processRecord deps rec run = result at hprocessed hmem
  cases hprocessed with
  | ended hframe _ => exact .inl (hframe.store ▸ hmem)
  | header hframe _ _ _ => exact .inl (hframe.store ▸ hmem)
  | handled hframe _ _ hdispatched _ =>
    rcases hdispatched.links hmem with hold | ⟨hentity, hne, hfrom, hto⟩
    · exact .inl (hframe.store ▸ hold)
    · refine .inr ⟨hentity, hne, ?_, ?_⟩
      · simpa only [State.storedId, hframe.idMap] using hfrom
      · simpa only [State.storedId, hframe.idMap] using hto

theorem stored_of_storedId (hrun : processAll deps records (.start store) = (run, none))
    (hknown : ∃ fileId, run.state.storedId fileId = some stored) :
    Stored deps store records stored := by
  obtain ⟨fileId, hfile⟩ := hknown
  exact processAll_ids hrun (Option.filter_eq_some_iff.mp hfile).1

/-- A link of the run comes from a link record, and its two different ends were imported or
found to be duplicates by records before it. -/
def Joined (deps : Deps Table Draft) (store : Store Table) (records : List Record)
    (link : StoredLink) : Prop :=
  ∃ earlier rec later, records = earlier ++ rec :: later /\ rec.entity = some .links /\
    link.fromId ≠ link.toId /\ Stored deps store earlier link.fromId /\
    Stored deps store earlier link.toId

theorem processAll_links (records : List Record) {link : StoredLink}
    (hmem : link ∈ (processAll deps records (.start store)).1.state.store.links) :
    link ∈ store.links \/ Joined deps store records link := by
  induction records using reverseRecOn with
  | nil => exact .inl hmem
  | append_singleton front rec ih =>
    have hold (hfront : link ∈ (processAll deps front (.start store)).1.state.store.links) :
        link ∈ store.links \/ Joined deps store (front ++ [rec]) link := by
      rcases ih hfront with hthere | ⟨earlier, other, later, hsplit, hrest⟩
      · exact .inl hthere
      · refine .inr ⟨earlier, other, later ++ [rec], ?_, hrest⟩
        rw [hsplit, append_assoc, cons_append]
    rcases processAll_snoc deps front rec (.start store) with
      ⟨last, abort, hfront, hall⟩ | ⟨before, hfront, hall⟩
    · rw [hall] at hmem
      exact hold (by rw [hfront]; exact hmem)
    · rw [hall] at hmem
      rcases processRecord_links hmem with hthere | ⟨hentity, hne, hfrom, hto⟩
      · exact hold (by rw [hfront]; exact hthere)
      · exact .inr ⟨front, rec, [], rfl, hentity, hne, stored_of_storedId hfront hfrom,
          stored_of_storedId hfront hto⟩

theorem embeddingQueued_apply (report : Report) (call : ReportCall) :
    (report.apply call).embeddingQueued = report.embeddingQueued := by
  cases call with
  | transform reasons =>
    rcases Decidable.em (reasons = []) with rfl | hreasons
    · rfl
    · simp only [Report.apply, hreasons, if_false]
  | _ => rfl

theorem embeddingQueued_applyAll (report : Report) (calls : List ReportCall) :
    (report.applyAll calls).embeddingQueued = report.embeddingQueued := by
  induction calls generalizing report with
  | nil => rfl
  | cons call rest ih => exact (ih (report.apply call)).trans (embeddingQueued_apply report call)

theorem processAll_embeddingQueued (records : List Record) (store : Store Table) :
    (processAll deps records (.start store)).1.report.embeddingQueued = none := by
  have hstart : (Run.start store).report.embeddingQueued = none := rfl
  refine processAll_preserves (P := fun run : Run Table => run.report.embeddingQueued = none)
    ?_ records hstart
  intro rec before hbefore
  have hprocessed := processed deps rec before
  generalize processRecord deps rec before = result at hprocessed
  cases hprocessed with
  | ended hframe _ => exact hframe.embeddingQueued.trans hbefore
  | header hframe _ _ _ => exact hframe.embeddingQueued.trans hbefore
  | handled hframe _ _ _ _ =>
    exact (embeddingQueued_applyAll _ _).trans (hframe.embeddingQueued.trans hbefore)

def Report.unqueued (report : Report) : Report := { report with embeddingQueued := none }

theorem unqueued_of_none {report : Report} (hnone : report.embeddingQueued = none) :
    report.unqueued = report := by
  rw [Report.unqueued, <- hnone]

def DryRunAgrees (deps : Deps Table Draft) (records : List Record) (store : Store Table) : Prop :=
  let real := runImport { deps with dryRun := false } records store
  let dry := runImport { deps with dryRun := true } records store
  dry.report = real.report.unqueued /\ dry.aborted = real.aborted /\ dry.store = store

theorem queueEmbeddings_unqueued (state : State Table) {report : Report}
    (hnone : report.embeddingQueued = none) :
    (queueEmbeddings deps state report).unqueued = report := by
  unfold queueEmbeddings
  split
  · exact unqueued_of_none hnone
  · split <;> exact unqueued_of_none hnone

def warned (run : Run Table) : Run Table :=
  if decide (2 ≤ run.state.version.getD 0) && !run.state.synthetic && !run.state.endSeen then
    { run with report := run.report.apply (.warn .trailerMissing) }
  else run

variable {left right : Run Table}

theorem warned_matches (hmatches : Matches True left right) :
    Matches True (warned left) (warned right) := by
  obtain ⟨hlike, hreport⟩ := hmatches
  unfold warned
  rw [hlike.version, hlike.synthetic, hlike.endSeen]
  split
  · exact ⟨hlike, fun hsame => by rw [hreport hsame]⟩
  · exact ⟨hlike, hreport⟩

theorem warned_embeddingQueued (run : Run Table) :
    (warned run).report.embeddingQueued = run.report.embeddingQueued := by
  unfold warned
  split
  · exact embeddingQueued_apply _ _
  · rfl

theorem isUnrecognizedInput_matches (hmatches : Matches True left right) :
    isUnrecognizedInput right = isUnrecognizedInput left := by
  unfold isUnrecognizedInput
  rw [hmatches.report trivial, hmatches.state.headerSeen, hmatches.state.endSeen]

theorem runImport_ended (hrun : processAll deps records (.start store) = (run, some abort)) :
    runImport deps records store = ⟨run.report, some abort, run.state.closed⟩ := by
  rw [runImport, hrun]

theorem runImport_done (hrun : processAll deps records (.start store) = (run, none)) :
    runImport deps records store =
      if isUnrecognizedInput (warned run) then
        ⟨(warned run).report, some .unrecognizedInput, (warned run).state.closed⟩
      else
        ⟨queueEmbeddings deps (warned run).state (warned run).report, none,
          (warned run).state.closed⟩ := by
  rw [runImport, hrun]
  rfl

theorem dryRunAgrees (records : List Record) (store : Store Table) :
    DryRunAgrees deps records store := by
  have hstart : Matches True (.start store) (Run.start store) :=
    ⟨⟨.refl _, fun _ => rfl⟩, fun _ => rfl⟩
  have hruns :
      (processAll { deps with dryRun := true } records (.start store)).2 =
          (processAll { deps with dryRun := false } records (.start store)).2 /\
        Matches True (processAll { deps with dryRun := false } records (.start store)).1
          (processAll { deps with dryRun := true } records (.start store)).1 :=
    (processAll_matches true { deps with dryRun := false } records hstart).2
  have hnone : (processAll { deps with dryRun := false } records
      (.start store)).1.report.embeddingQueued = none := processAll_embeddingQueued records store
  have hstore : (runImport { deps with dryRun := true } records store).store = store := by
    rw [runImport_store, processAll_closed]
    rfl
  suffices hreport : (runImport { deps with dryRun := true } records store).report =
      (runImport { deps with dryRun := false } records store).report.unqueued /\
        (runImport { deps with dryRun := true } records store).aborted =
          (runImport { deps with dryRun := false } records store).aborted from
    ⟨hreport.1, hreport.2, hstore⟩
  obtain ⟨haborted, hlast⟩ := hruns
  cases hreal : processAll { deps with dryRun := false } records (.start store) with
  | mk left ended =>
    cases hdry : processAll { deps with dryRun := true } records (.start store) with
    | mk right other =>
      rw [hreal, hdry] at haborted hlast
      rw [hreal] at hnone
      have hended : other = ended := haborted
      subst hended
      cases other with
      | some abort =>
        rw [runImport_ended hreal, runImport_ended hdry]
        exact ⟨(hlast.report trivial).trans (unqueued_of_none hnone).symm, rfl⟩
      | none =>
        have hwarned := warned_matches hlast
        have hqueued := (warned_embeddingQueued left).trans hnone
        rw [runImport_done hreal, runImport_done hdry, isUnrecognizedInput_matches hwarned]
        split
        · exact ⟨(hwarned.report trivial).trans (unqueued_of_none hqueued).symm, rfl⟩
        · refine ⟨?_, rfl⟩
          have hdryQueue : queueEmbeddings { deps with dryRun := true } (warned right).state
              (warned right).report = (warned right).report := by
            unfold queueEmbeddings
            split <;> rfl
          show queueEmbeddings { deps with dryRun := true } _ _ = _
          rw [hdryQueue, hwarned.report trivial]
          exact (queueEmbeddings_unqueued _ hqueued).symm

/-- In every front part of a stream that is done with, the records are counted once each:
a fragment, a link, or a version as such, a malformed record as a fragment, and the report
holds the sums of the four classes. -/
def CountedOnce (deps : Deps Table Draft) (records : List Record) (store : Store Table) : Prop :=
  ∀ front back run, records = front ++ back ->
    processAll deps front (.start store) = (run, none) ->
    (countedAll deps front (.start store)).map (Option.map Prod.fst) = front.map Record.entity /\
      ∀ entity outcome, (run.report.entities entity).of outcome =
        (countedAll deps front (.start store)).count (some (entity, outcome))

theorem countedOnce (records : List Record) (store : Store Table) :
    CountedOnce deps records store := by
  intro front back run _ hrun
  obtain ⟨hclasses, hcounts⟩ := processAll_counted hrun
  refine ⟨hclasses, fun entity outcome => ?_⟩
  rw [hcounts entity outcome]
  cases outcome <;> exact Nat.zero_add _

def openDeps : Deps (List String) Object where
  profile := ⟨none, "cli", none, true, false, fun h => nomatch h⟩
  gate := { check := .ok, contentOf := fun row => (asString (get row "content")).getD "" }
  writer :=
    { idOf := fun row => (asString (get row "id")).getD ""
      insertDetailed := fun row _ table =>
        let id := (asString (get row "id")).getD ""
        (.ok (some ⟨id, true, none⟩), table ++ [id])
      findKeyOfId := fun _ _ => .ok none }
  database := { now := .null, refusesLink := fun _ _ => none, refusesVersion := fun _ _ => none }
  dryRun := false
  idempotent := false
  failFast := false
  maskSensitiveText := id
  describe := fun _ => ""
  onCreated := none

def emptyStore : Store (List String) := ⟨[], [], []⟩

def brokenLine : Record := ⟨1, .malformed .invalidJson "Unexpected token"⟩

def fileHeader : Record :=
  ⟨2, .readable .header [("format", .string FORMAT_NAME), ("version", .number (.finite 2))]⟩

def fileFragment (lineNo : Nat) (id : String) : Record :=
  ⟨lineNo, .readable .fragment
    [("id", .string id), ("content", .string "c"), ("topic", .string "t")]⟩

def fileLink : Record :=
  ⟨5, .readable .link [("from_id", .string "a"), ("to_id", .string "b")]⟩

def fileLines : List Record := [fileHeader, fileFragment 3 "a", fileFragment 4 "b", fileLink]

end AnchorMind.Transfer
