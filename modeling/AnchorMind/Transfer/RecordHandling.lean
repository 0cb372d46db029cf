import AnchorMind.Transfer.ImportRunner

/-!
# What handling a record can do

Each handler is taken apart once.  From it: a record is counted once, a record that is not
imported leaves what others use as it was, states that look alike are handled alike whether
or not the run is dry, and links and ids come from what is known.
-/

namespace AnchorMind.Transfer

open Kernel.Transactions Text.Objects List

variable {Table Draft : Type} {deps : Deps Table Draft} {rec : Record} {Result : Type}
  {keep : Result -> Bool}

theorem onFragments_tidy {work : Work Table Failure Result} (htidy : Tidy keep work) :
    Tidy keep (onFragments work) := by
  intro store result changed hwork hkeep
  unfold onFragments at hwork
  split at hwork
  rename_i found table htable
  obtain ⟨hresult, hchanged⟩ := Prod.mk.inj hwork
  rw [<- hchanged, htidy store.fragments result table (htable.trans (by rw [hresult])) hkeep]

variable {work : Work (Store Table) Failure Result}

theorem inWrite_eq (htidy : Tidy keep work) (state : State Table) :
    inWrite deps keep work state =
      ((transaction work state.store).1,
        { state with
          store := (transaction work state.store).2
          session := if deps.dryRun then some state.closed else state.session }) := by
  unfold inWrite
  split
  · rw [savepoint_eq_transaction htidy]
    rfl
  · rfl

/-! ## What the handlers can do -/

def fragmentWrite (deps : Deps Table Draft) (draft : Draft) (state : State Table) :
    Except Failure RowOutcome × State Table :=
  inWrite deps RowOutcome.keep
    (onFragments (writeImportRow deps.writer deps.profile deps.idempotent draft)) state

def linkWrite (deps : Deps Table Draft) (link : Object) (fromId toId : String)
    (state : State Table) : Except Failure Bool × State Table :=
  inWrite deps (fun _ => true) (restoreLink deps.database link fromId toId) state

def versionWrite (deps : Deps Table Draft) (version : Object) (fragmentId content : String)
    (state : State Table) : Except Failure Unit × State Table :=
  inWrite deps (fun _ => true)
    (restoreVersion deps.database
      (versionRow deps.database version fragmentId (deps.maskSensitiveText content))) state

theorem guarded_error (deps : Deps Table Draft) (rec : Record) (entity : Entity)
    (next : Result -> State Table -> Handled Table) (err : Failure) (state : State Table) :
    (∃ call outcome, (outcome = .rejected \/ outcome = .failed) /\
      call.counted = some (entity, outcome) /\
      guarded deps rec entity next (.error err, state) = ⟨[call], state, none⟩) \/
    guarded deps rec entity next (.error err, state) = ⟨[], state, some err⟩ := by
  simp only [guarded]
  split
  · exact .inl ⟨_, .rejected, .inl rfl, rfl, rfl⟩
  · split
    · exact .inr rfl
    · exact .inl ⟨_, .failed, .inr rfl, rfl, rfl⟩

def Handled.ignoring (fields : List IgnoredField) (handled : Handled Table) : Handled Table :=
  { handled with calls := fields.map .ignoredField ++ handled.calls }

/-- A fragment is refused before the write, ends the run there, or is written. -/
theorem importFragmentRecord_cases (deps : Deps Table Draft) (rec : Record) (row : Object)
    (start : State Table) :
    ∃ fields handled, importFragmentRecord deps rec row start = .ignoring fields handled /\
      ((∃ call outcome, (outcome = .rejected \/ outcome = .failed) /\
          call.counted = some (.fragments, outcome) /\
          handled = ⟨[call], start.countSeen .fragments, none⟩) \/
        (∃ err, handled = ⟨[], start.countSeen .fragments, some err⟩) \/
        (∃ draft contentChanged, handled =
          guarded deps rec .fragments
            (fun outcome state => recordFragmentOutcome deps rec row contentChanged outcome state)
            (fragmentWrite deps draft (start.countSeen .fragments)))) := by
  simp only [importFragmentRecord]
  split
  · refine ⟨ignoredFields row deps.profile, _, rfl, ?_⟩
    cases checkImportRow deps.gate row with
    | error err =>
      rcases guarded_error deps rec .fragments _ err (start.countSeen .fragments) with
        hcounted | hended
      · exact .inl hcounted
      · exact .inr (.inl ⟨err, hended⟩)
    | ok prepared =>
      cases prepared with
      | rejected reason detail => exact .inl ⟨_, .rejected, .inl rfl, rfl, rfl⟩
      | ready draft contentChanged => exact .inr (.inr ⟨draft, contentChanged, rfl⟩)
  · exact ⟨[], _, rfl, .inl ⟨_, .rejected, .inl rfl, rfl, rfl⟩⟩

theorem importLinkRecord_cases (deps : Deps Table Draft) (rec : Record) (link : Object)
    (start : State Table) :
    (∃ reason detail, importLinkRecord deps rec link start =
      rejected rec .links reason detail (start.countSeen .links)) \/
    (∃ fileFrom fileTo fromId toId,
      start.storedId fileFrom = some fromId /\ start.storedId fileTo = some toId /\
      fromId ≠ toId /\
      importLinkRecord deps rec link start =
        guarded deps rec .links
          (fun created state =>
            ⟨[if created then .imported .links else .duplicate .links], state, none⟩)
          (linkWrite deps link fromId toId (start.countSeen .links))) := by
  simp only [importLinkRecord]
  split
  · exact .inl ⟨_, _, rfl⟩
  · split
    · rename_i fromId toId hfrom hto
      split
      · exact .inl ⟨_, _, rfl⟩
      · rename_i hne
        exact .inr ⟨_, _, fromId, toId, hfrom, hto, hne, rfl⟩
    · exact .inl ⟨_, _, rfl⟩

theorem importVersionRecord_cases (deps : Deps Table Draft) (rec : Record) (version : Object)
    (start : State Table) :
    (∃ reason detail, importVersionRecord deps rec version start =
      rejected rec .versions reason detail (start.countSeen .versions)) \/
    importVersionRecord deps rec version start =
      ⟨[.duplicate .versions], start.countSeen .versions, none⟩ \/
    (∃ fragmentId content, importVersionRecord deps rec version start =
      guarded deps rec .versions (fun _ state => ⟨[.imported .versions], state, none⟩)
        (versionWrite deps version fragmentId content (start.countSeen .versions))) := by
  simp only [importVersionRecord]
  split
  · split
    · exact .inl ⟨_, _, rfl⟩
    · split
      · exact .inr (.inr ⟨_, _, rfl⟩)
      · exact .inr (.inl rfl)
  · exact .inl ⟨_, _, rfl⟩

def Record.entity (rec : Record) : Option Entity :=
  match rec.body with
  | .malformed _ _ => some .fragments
  | .readable kind _ => kind.entity

inductive Dispatched (deps : Deps Table Draft) (rec : Record) (state : State Table) :
    Handled Table -> Prop where
  | rejected {entity : Entity} (reason : RejectReason) (detail : String)
      (hentity : rec.entity = some entity) :
      Dispatched deps rec state (rejected rec entity reason detail state)
  | noted {calls : List ReportCall} (hentity : rec.entity = none)
      (hcalls : countedRows calls = []) : Dispatched deps rec state ⟨calls, state, none⟩
  | trailer (data : Object) (hentity : rec.entity = none) :
      Dispatched deps rec state (checkTrailer data state)
  | fragment {row : Object} (hbody : rec.body = .readable .fragment row) :
      Dispatched deps rec state (importFragmentRecord deps rec row state)
  | link {link : Object} (hbody : rec.body = .readable .link link) :
      Dispatched deps rec state (importLinkRecord deps rec link state)
  | version {version : Object} (hbody : rec.body = .readable .version version) :
      Dispatched deps rec state (importVersionRecord deps rec version state)

theorem dispatched (state : State Table) : Dispatched deps rec state (dispatch deps rec state) := by
  obtain ⟨lineNo, body⟩ := rec
  cases body with
  | malformed reason detail => exact .rejected reason detail rfl
  | readable kind data =>
    simp only [dispatch]
    split
    · rename_i htrailer
      obtain ⟨rfl, _⟩ := htrailer
      exact .trailer data rfl
    · split
      · cases kind with
        | fragment => exact .rejected _ _ rfl
        | link => exact .rejected _ _ rfl
        | version => exact .rejected _ _ rfl
        | header => exact .noted rfl rfl
        | trailer => exact .noted rfl rfl
      · cases kind with
        | fragment => exact .fragment rfl
        | link => exact .link rfl
        | version => exact .version rfl
        | header => exact .noted rfl rfl
        | trailer => exact .noted rfl rfl

def Accounted (entity : Option Entity) (handled : Handled Table) : Prop :=
  (countedRows handled.calls).map Prod.fst =
    if handled.aborted.isSome then [] else entity.toList

variable {entity : Entity} {next : Result -> State Table -> Handled Table}

theorem guarded_accounted (hnext : ∀ result state, Accounted (some entity) (next result state))
    (written : Except Failure Result × State Table) :
    Accounted (some entity) (guarded deps rec entity next written) := by
  obtain ⟨result, state⟩ := written
  cases result with
  | ok result => exact hnext result state
  | error err =>
    rcases guarded_error deps rec entity next err state with
      ⟨call, outcome, _, hcounted, hguarded⟩ | hguarded
    · rw [hguarded]
      simp [Accounted, countedRows, hcounted]
    · rw [hguarded]
      rfl

theorem countedRows_ignored (fields : List IgnoredField) (calls : List ReportCall) :
    countedRows (fields.map .ignoredField ++ calls) = countedRows calls := by
  induction fields with
  | nil => rfl
  | cons field rest ih => exact ih

theorem fragment_accounted (row : Object) (state : State Table) :
    Accounted (some .fragments) (importFragmentRecord deps rec row state) := by
  obtain ⟨fields, handled, hfragment, hcase⟩ := importFragmentRecord_cases deps rec row state
  rw [hfragment, Accounted, Handled.ignoring, countedRows_ignored]
  rcases hcase with ⟨call, outcome, _, hcounted, rfl⟩ | ⟨err, rfl⟩ | ⟨draft, contentChanged, rfl⟩
  · simp [countedRows, hcounted]
  · rfl
  · refine guarded_accounted ?_ _
    intro outcome state
    cases outcome <;> rfl

theorem link_accounted (link : Object) (state : State Table) :
    Accounted (some .links) (importLinkRecord deps rec link state) := by
  rcases importLinkRecord_cases deps rec link state with ⟨reason, detail, hlink⟩ | ⟨_, _, _, _, _,
    _, _, hlink⟩
  · rw [hlink]
    rfl
  · rw [hlink]
    refine guarded_accounted ?_ _
    intro created state
    cases created <;> rfl

theorem version_accounted (version : Object) (state : State Table) :
    Accounted (some .versions) (importVersionRecord deps rec version state) := by
  rcases importVersionRecord_cases deps rec version state with
    ⟨reason, detail, hversion⟩ | hversion | ⟨_, _, hversion⟩
  · rw [hversion]
    rfl
  · rw [hversion]
    rfl
  · rw [hversion]
    refine guarded_accounted ?_ _
    intro written state
    rfl

theorem trailer_accounted (trailer : Object) (state : State Table) :
    Accounted none (checkTrailer trailer state) := by
  have hcounted : countedRows (checkTrailer trailer state).calls = [] := by
    refine filterMap_eq_nil_iff.mpr ?_
    intro call hmem
    obtain ⟨entity, _, hcall⟩ := mem_filterMap.mp hmem
    split at hcall
    · split at hcall
      · cases hcall
      · cases hcall
        rfl
    · cases hcall
  unfold Accounted
  rw [hcounted]
  rfl

theorem entity_of_body {kind : Kind} {data : Object} (hbody : rec.body = .readable kind data) :
    rec.entity = kind.entity := by
  rw [Record.entity, hbody]

variable {state : State Table} {handled : Handled Table}

theorem Dispatched.accounted (hdispatched : Dispatched deps rec state handled) :
    Accounted rec.entity handled := by
  cases hdispatched with
  | rejected reason detail hentity =>
    rw [hentity]
    rfl
  | noted hentity hcalls =>
    rw [hentity, Accounted, hcalls]
    rfl
  | trailer data hentity =>
    rw [hentity]
    exact trailer_accounted data state
  | fragment hbody =>
    rw [entity_of_body hbody]
    exact fragment_accounted _ state
  | link hbody =>
    rw [entity_of_body hbody]
    exact link_accounted _ state
  | version hbody =>
    rw [entity_of_body hbody]
    exact version_accounted _ state

/-! ## What is not imported changes nothing that others use -/

structure Unchanged (before after : State Table) : Prop where
  version : after.version = before.version
  idMap : after.idMap = before.idMap
  created : after.created = before.created
  endSeen : after.endSeen = before.endSeen
  synthetic : after.synthetic = before.synthetic
  headerSeen : after.headerSeen = before.headerSeen
  store : after.store = before.store

theorem Unchanged.refl (state : State Table) : Unchanged state state :=
  ⟨rfl, rfl, rfl, rfl, rfl, rfl, rfl⟩

theorem Unchanged.trans {first second third : State Table} (hfirst : Unchanged first second)
    (hsecond : Unchanged second third) : Unchanged first third where
  version := hsecond.version.trans hfirst.version
  idMap := hsecond.idMap.trans hfirst.idMap
  created := hsecond.created.trans hfirst.created
  endSeen := hsecond.endSeen.trans hfirst.endSeen
  synthetic := hsecond.synthetic.trans hfirst.synthetic
  headerSeen := hsecond.headerSeen.trans hfirst.headerSeen
  store := hsecond.store.trans hfirst.store

theorem unchanged_countSeen (state : State Table) (entity : Entity) :
    Unchanged state (state.countSeen entity) := ⟨rfl, rfl, rfl, rfl, rfl, rfl, rfl⟩

def NotImported (calls : List ReportCall) : Prop :=
  ∀ row ∈ countedRows calls, row.2 = .rejected \/ row.2 = .failed

theorem inWrite_unchanged (htidy : Tidy keep work) (state : State Table)
    (hresult : ∀ result, (inWrite deps keep work state).1 = .ok result -> keep result = false) :
    Unchanged state (inWrite deps keep work state).2 := by
  rw [inWrite_eq htidy] at hresult ⊢
  have hstore : (transaction work state.store).2 = state.store := by
    cases hdone : (transaction work state.store).1 with
    | ok result => exact transaction_of_tidy htidy hdone (hresult result hdone)
    | error err => exact transaction_of_error hdone
  exact ⟨rfl, rfl, rfl, rfl, rfl, rfl, hstore⟩

variable {written : Except Failure Result × State Table}

theorem guarded_unchanged {start : State Table}
    (herror : ∀ err, written.1 = .error err -> Unchanged start written.2)
    (hnext : ∀ result, written.1 = .ok result -> NotImported (next result written.2).calls ->
      Unchanged start (next result written.2).state)
    (hnot : NotImported (guarded deps rec entity next written).calls) :
    Unchanged start (guarded deps rec entity next written).state := by
  obtain ⟨result, state⟩ := written
  cases result with
  | ok result => exact hnext result rfl hnot
  | error err =>
    rcases guarded_error deps rec entity next err state with
      ⟨call, outcome, _, hcounted, hguarded⟩ | hguarded
    · rw [hguarded]
      exact herror err rfl
    · rw [hguarded]
      exact herror err rfl

theorem not_notImported {call : ReportCall} {rest : List ReportCall} {outcome : Outcome}
    (hcounted : call.counted = some (entity, outcome))
    (houtcome : outcome = .imported \/ outcome = .duplicate) :
    Not (NotImported (call :: rest)) := by
  intro hnot
  have hmem : (entity, outcome) ∈ countedRows (call :: rest) :=
    mem_filterMap.mpr ⟨call, mem_cons_self, hcounted⟩
  rcases houtcome with rfl | rfl <;> rcases hnot _ hmem with hwrong | hwrong <;> cases hwrong

theorem fragmentWrite_unchanged {draft : Draft}
    (hresult : ∀ outcome, (fragmentWrite deps draft state).1 = .ok outcome ->
      outcome.keep = false) : Unchanged state (fragmentWrite deps draft state).2 :=
  inWrite_unchanged (onFragments_tidy (writeImportRow_tidy _ _ _ _)) state hresult

variable {row : Object}

theorem fragment_unchanged (hnot : NotImported (importFragmentRecord deps rec row state).calls) :
    Unchanged state (importFragmentRecord deps rec row state).state := by
  have hseen := unchanged_countSeen state .fragments
  obtain ⟨fields, handled, hfragment, hcase⟩ := importFragmentRecord_cases deps rec row state
  rw [hfragment, NotImported, Handled.ignoring, countedRows_ignored] at hnot
  rw [hfragment]
  rcases hcase with ⟨call, outcome, _, _, rfl⟩ | ⟨err, rfl⟩ | ⟨draft, contentChanged, rfl⟩
  · exact hseen
  · exact hseen
  · refine hseen.trans (guarded_unchanged ?_ ?_ hnot)
    · intro err herror
      refine fragmentWrite_unchanged ?_
      intro outcome hok
      cases herror.symm.trans hok
    · intro outcome hwritten hrecorded
      have hkept : outcome.keep = false -> Unchanged (state.countSeen .fragments)
          (fragmentWrite deps draft (state.countSeen .fragments)).2 := by
        intro hkeep
        refine fragmentWrite_unchanged ?_
        intro other hother
        cases hwritten.symm.trans hother
        exact hkeep
      cases outcome with
      | imported id importance => exact absurd hrecorded (not_notImported rfl (.inl rfl))
      | duplicate id => exact absurd hrecorded (not_notImported rfl (.inr rfl))
      | conflict => exact hkept rfl
      | rejected reason detail => exact hkept rfl

variable {link : Object}

theorem link_unchanged (hnot : NotImported (importLinkRecord deps rec link state).calls) :
    Unchanged state (importLinkRecord deps rec link state).state := by
  have hseen := unchanged_countSeen state .links
  rcases importLinkRecord_cases deps rec link state with
    ⟨reason, detail, hlink⟩ | ⟨_, _, fromId, toId, _, _, _, hlink⟩
  · rw [hlink]
    exact hseen
  · rw [hlink] at hnot ⊢
    refine guarded_unchanged ?_ ?_ hnot
    · intro err herror
      refine hseen.trans (inWrite_unchanged tidy_keepAll _ ?_)
      intro created hok
      cases herror.symm.trans hok
    · intro created _ hcreated
      cases created with
      | true => exact absurd hcreated (not_notImported rfl (.inl rfl))
      | false => exact absurd hcreated (not_notImported rfl (.inr rfl))

theorem version_unchanged {version : Object}
    (hnot : NotImported (importVersionRecord deps rec version state).calls) :
    Unchanged state (importVersionRecord deps rec version state).state := by
  have hseen := unchanged_countSeen state .versions
  rcases importVersionRecord_cases deps rec version state with
    ⟨reason, detail, hversion⟩ | hversion | ⟨_, _, hversion⟩
  · rw [hversion]
    exact hseen
  · rw [hversion]
    exact hseen
  · rw [hversion] at hnot ⊢
    refine guarded_unchanged ?_ ?_ hnot
    · intro err herror
      refine hseen.trans (inWrite_unchanged tidy_keepAll _ ?_)
      intro written hok
      cases herror.symm.trans hok
    · intro written _ hwritten
      exact absurd hwritten (not_notImported rfl (.inl rfl))

theorem Dispatched.unchanged (hdispatched : Dispatched deps rec state handled)
    (hentity : rec.entity ≠ none) (hnot : NotImported handled.calls) :
    Unchanged state handled.state := by
  cases hdispatched with
  | rejected reason detail _ => exact .refl state
  | noted hnone hcalls => exact absurd hnone hentity
  | trailer data hnone => exact absurd hnone hentity
  | fragment hbody => exact fragment_unchanged hnot
  | link hbody => exact link_unchanged hnot
  | version hbody => exact version_unchanged hnot

/-! ## Handling a record in states that look alike -/

/-- Nothing that a handler uses is different; `same` is whether the lines seen agree too. -/
structure Like (same : Prop) (left right : State Table) : Prop extends Unchanged left right where
  seen : same -> right.seen = left.seen

structure Agrees (same : Prop) (left right : Handled Table) : Prop where
  counted : countedRows right.calls = countedRows left.calls
  calls : same -> right.calls = left.calls
  aborted : right.aborted = left.aborted
  state : Like same left.state right.state

section

variable {same : Prop} {left right : State Table} (dry : Bool)

section

variable (hlike : Like same left right)
include hlike

theorem agrees_of_calls {calls : List ReportCall} {aborted : Option Failure} :
    Agrees same ⟨calls, left, aborted⟩ ⟨calls, right, aborted⟩ :=
  ⟨rfl, fun _ => rfl, rfl, hlike⟩

theorem Like.countSeen (entity : Entity) :
    Like same (left.countSeen entity) (right.countSeen entity) where
  toUnchanged := ⟨hlike.version, hlike.idMap, hlike.created, hlike.endSeen, hlike.synthetic,
    hlike.headerSeen, hlike.store⟩
  seen := by
    intro hsame
    simp only [State.countSeen, hlike.seen hsame]

theorem Like.setId (fileId : Option String) (stored : String) :
    Like same (left.setId fileId stored) (right.setId fileId stored) := by
  cases fileId with
  | none => exact hlike
  | some fileId =>
    exact
      { version := hlike.version
        idMap := congrArg (cons (fileId, stored)) hlike.idMap
        created := hlike.created
        endSeen := hlike.endSeen
        synthetic := hlike.synthetic
        headerSeen := hlike.headerSeen
        store := hlike.store
        seen := hlike.seen }

theorem Like.addCreated (stored : String) :
    Like same (left.addCreated stored) (right.addCreated stored) where
  version := hlike.version
  idMap := hlike.idMap
  created := by simp only [State.addCreated, hlike.created]
  endSeen := hlike.endSeen
  synthetic := hlike.synthetic
  headerSeen := hlike.headerSeen
  store := hlike.store
  seen := hlike.seen

theorem Like.storedId (fileId : String) : right.storedId fileId = left.storedId fileId := by
  rw [State.storedId, State.storedId, hlike.idMap]

variable {Result : Type}

omit hlike in
theorem inWrite_like (deps : Deps Table Draft) {keep : Result -> Bool}
    {work : Work (Store Table) Failure Result} (htidy : Tidy keep work)
    (hlike : Like same left right) :
    (inWrite { deps with dryRun := dry } keep work right).1 = (inWrite deps keep work left).1 /\
      Like same (inWrite deps keep work left).2
        (inWrite { deps with dryRun := dry } keep work right).2 := by
  rw [inWrite_eq htidy, inWrite_eq htidy, hlike.store]
  exact ⟨rfl, ⟨hlike.version, hlike.idMap, hlike.created, hlike.endSeen, hlike.synthetic,
    hlike.headerSeen, rfl⟩, hlike.seen⟩

theorem guarded_agrees {entity : Entity} {next other : Result -> State Table -> Handled Table}
    {result : Except Failure Result}
    (hnext : ∀ found, result = .ok found -> Agrees same (next found left) (other found right)) :
    Agrees same (guarded deps rec entity next (result, left))
      (guarded { deps with dryRun := dry } rec entity other (result, right)) := by
  cases result with
  | ok found => exact hnext found rfl
  | error err =>
    simp only [guarded]
    split
    · exact agrees_of_calls hlike
    · split <;> exact agrees_of_calls hlike

omit hlike in
theorem written_agrees {entity : Entity} {keep : Result -> Bool}
    {work : Work (Store Table) Failure Result} {next other : Result -> State Table -> Handled Table}
    (htidy : Tidy keep work) (hlike : Like same left right)
    (hnext : ∀ found (before after : State Table), Like same before after ->
      Agrees same (next found before) (other found after)) :
    Agrees same (guarded deps rec entity next (inWrite deps keep work left))
      (guarded { deps with dryRun := dry } rec entity other
        (inWrite { deps with dryRun := dry } keep work right)) := by
  obtain ⟨hresult, hstate⟩ := inWrite_like dry deps htidy hlike
  rw [<- Prod.mk.eta (p := inWrite deps keep work left),
    <- Prod.mk.eta (p := inWrite { deps with dryRun := dry } keep work right), hresult]
  exact guarded_agrees dry hstate fun found _ => hnext found _ _ hstate

theorem recordFragmentOutcome_agrees {contentChanged : Bool} {outcome : RowOutcome} :
    Agrees same (recordFragmentOutcome deps rec row contentChanged outcome left)
      (recordFragmentOutcome { deps with dryRun := dry } rec row contentChanged outcome right) := by
  cases outcome with
  | imported id importance => exact agrees_of_calls ((hlike.setId _ id).addCreated id)
  | duplicate id => exact agrees_of_calls (hlike.setId _ id)
  | conflict => exact agrees_of_calls hlike
  | rejected reason detail => exact agrees_of_calls hlike

omit hlike in
theorem Agrees.ignored {first second : Handled Table} (hagrees : Agrees same first second)
    (fields : List IgnoredField) :
    Agrees same { first with calls := fields.map .ignoredField ++ first.calls }
      { second with calls := fields.map .ignoredField ++ second.calls } where
  counted := by
    rw [countedRows_ignored, countedRows_ignored]
    exact hagrees.counted
  calls := fun hsame => congrArg (fields.map ReportCall.ignoredField ++ ·) (hagrees.calls hsame)
  aborted := hagrees.aborted
  state := hagrees.state

theorem fragment_agrees :
    Agrees same (importFragmentRecord deps rec row left)
      (importFragmentRecord { deps with dryRun := dry } rec row right) := by
  have hseen := hlike.countSeen .fragments
  unfold importFragmentRecord
  split
  · refine Agrees.ignored (guarded_agrees dry hseen ?_) _
    intro prepared _
    cases prepared with
    | rejected reason detail => exact agrees_of_calls hseen
    | ready draft contentChanged =>
      refine written_agrees dry (onFragments_tidy (writeImportRow_tidy _ _ _ _)) hseen ?_
      intro outcome before after hboth
      exact recordFragmentOutcome_agrees dry hboth
  · exact agrees_of_calls hseen

theorem link_agrees :
    Agrees same (importLinkRecord deps rec link left)
      (importLinkRecord { deps with dryRun := dry } rec link right) := by
  have hseen := hlike.countSeen .links
  simp only [importLinkRecord, hseen.storedId]
  split
  · exact agrees_of_calls hseen
  · split
    · split
      · exact agrees_of_calls hseen
      · refine written_agrees dry tidy_keepAll hseen ?_
        intro created before after hboth
        exact agrees_of_calls hboth
    · exact agrees_of_calls hseen

theorem version_agrees {version : Object} :
    Agrees same (importVersionRecord deps rec version left)
      (importVersionRecord { deps with dryRun := dry } rec version right) := by
  have hseen := hlike.countSeen .versions
  simp only [importVersionRecord, hseen.storedId, hseen.created]
  split
  · split
    · exact agrees_of_calls hseen
    · split
      · refine written_agrees dry tidy_keepAll hseen ?_
        intro written before after hboth
        exact agrees_of_calls hboth
      · exact agrees_of_calls hseen
  · exact agrees_of_calls hseen

theorem trailer_agrees {trailer : Object} :
    Agrees same (checkTrailer trailer left) (checkTrailer trailer right) where
  counted := by
    have hleft := trailer_accounted trailer left
    have hright := trailer_accounted trailer right
    rw [map_eq_nil_iff.mp hleft, map_eq_nil_iff.mp hright]
  calls := by
    intro hsame
    simp only [checkTrailer, hlike.seen hsame]
  aborted := rfl
  state :=
    { version := hlike.version
      idMap := hlike.idMap
      created := hlike.created
      endSeen := rfl
      synthetic := hlike.synthetic
      headerSeen := hlike.headerSeen
      store := hlike.store
      seen := hlike.seen }

end

theorem dispatch_agrees (deps : Deps Table Draft) (rec : Record) (hlike : Like same left right) :
    Agrees same (dispatch deps rec left) (dispatch { deps with dryRun := dry } rec right) := by
  simp only [dispatch, hlike.version]
  split
  · exact agrees_of_calls hlike
  · split
    · exact trailer_agrees hlike
    · split
      · split <;> exact agrees_of_calls hlike
      · split
        · exact fragment_agrees dry hlike
        · exact link_agrees dry hlike
        · exact version_agrees dry hlike
        · exact agrees_of_calls hlike
        · exact agrees_of_calls hlike

end

variable {P : State Table -> Prop}

theorem guarded_preserves {entity : Entity} (hwritten : P written.2)
    (hnext : ∀ result, P (next result written.2).state) :
    P (guarded deps rec entity next written).state := by
  obtain ⟨result, state⟩ := written
  cases result with
  | ok result => exact hnext result
  | error err =>
    rcases guarded_error deps rec entity next err state with
      ⟨call, outcome, _, _, hguarded⟩ | hguarded
    · rw [hguarded]
      exact hwritten
    · rw [hguarded]
      exact hwritten

theorem setId_store (state : State Table) (fileId : Option String) (stored : String) :
    (state.setId fileId stored).store = state.store := by
  cases fileId <;> rfl

theorem setId_session (state : State Table) (fileId : Option String) (stored : String) :
    (state.setId fileId stored).session = state.session := by
  cases fileId <;> rfl

theorem setId_version (state : State Table) (fileId : Option String) (stored : String) :
    (state.setId fileId stored).version = state.version := by
  cases fileId <;> rfl

variable {handled : Handled Table}

theorem Dispatched.preserves (hdispatched : Dispatched deps rec state handled)
    (hframe : ∀ before after : State Table, after.store = before.store ->
      after.session = before.session -> after.version = before.version -> P before -> P after)
    (hfragment : ∀ draft before, P before -> P (fragmentWrite deps draft before).2)
    (hlink : ∀ link fileFrom fileTo fromId toId before, rec.entity = some .links ->
      state.storedId fileFrom = some fromId -> state.storedId fileTo = some toId ->
      fromId ≠ toId -> P before -> P (linkWrite deps link fromId toId before).2)
    (hversion : ∀ version fragmentId content before, P before ->
      P (versionWrite deps version fragmentId content before).2) (hstate : P state) :
    P handled.state := by
  cases hdispatched with
  | rejected reason detail _ => exact hstate
  | noted _ _ => exact hstate
  | trailer data _ => exact hframe state _ rfl rfl rfl hstate
  | @fragment row hbody =>
    have hseen : P (state.countSeen .fragments) := hframe state _ rfl rfl rfl hstate
    obtain ⟨fields, handled, hfragment', hcase⟩ := importFragmentRecord_cases deps rec row state
    rw [hfragment']
    rcases hcase with ⟨call, outcome, _, _, rfl⟩ | ⟨err, rfl⟩ | ⟨draft, contentChanged, rfl⟩
    · exact hseen
    · exact hseen
    · have hwritten := hfragment draft (state.countSeen .fragments) hseen
      refine guarded_preserves hwritten ?_
      intro outcome
      cases outcome with
      | imported id importance =>
        exact hframe _ _ (setId_store _ _ id) (setId_session _ _ id) (setId_version _ _ id)
          hwritten
      | duplicate id =>
        exact hframe _ _ (setId_store _ _ id) (setId_session _ _ id) (setId_version _ _ id)
          hwritten
      | conflict => exact hwritten
      | rejected reason detail => exact hwritten
  | @link link hbody =>
    have hseen : P (state.countSeen .links) := hframe state _ rfl rfl rfl hstate
    rcases importLinkRecord_cases deps rec link state with
      ⟨reason, detail, hcase⟩ | ⟨fileFrom, fileTo, fromId, toId, hfrom, hto, hne, hcase⟩
    · rw [hcase]
      exact hseen
    · rw [hcase]
      have hwritten := hlink link fileFrom fileTo fromId toId (state.countSeen .links)
        (entity_of_body hbody) hfrom hto hne hseen
      exact guarded_preserves hwritten fun _ => hwritten
  | @version version hbody =>
    have hseen : P (state.countSeen .versions) := hframe state _ rfl rfl rfl hstate
    rcases importVersionRecord_cases deps rec version state with
      ⟨reason, detail, hcase⟩ | hcase | ⟨fragmentId, content, hcase⟩
    · rw [hcase]
      exact hseen
    · rw [hcase]
      exact hseen
    · rw [hcase]
      have hwritten := hversion version fragmentId content (state.countSeen .versions) hseen
      exact guarded_preserves hwritten fun _ => hwritten

theorem fragmentWrite_tidy (draft : Draft) :
    Tidy RowOutcome.keep
      (onFragments (writeImportRow deps.writer deps.profile deps.idempotent draft)) :=
  onFragments_tidy (writeImportRow_tidy _ _ _ _)

theorem inWrite_closed (htidy : Tidy keep work) (hdry : deps.dryRun = true) (before : State Table) :
    (inWrite deps keep work before).2.closed = before.closed := by
  rw [inWrite_eq htidy]
  simp only [State.closed, hdry, if_true, Option.getD_some]

theorem inWrite_session (htidy : Tidy keep work) (hreal : deps.dryRun = false)
    (before : State Table) : (inWrite deps keep work before).2.session = before.session := by
  rw [inWrite_eq htidy]
  simp only [hreal, Bool.false_eq_true, if_false]

section

variable (hdispatched : Dispatched deps rec state handled)
include hdispatched

theorem Dispatched.closed (hdry : deps.dryRun = true) : handled.state.closed = state.closed := by
  refine hdispatched.preserves (P := fun after => after.closed = state.closed) ?_ ?_ ?_ ?_ rfl
  · intro before after hstore hsession _ hclosed
    rw [State.closed, hsession, hstore]
    exact hclosed
  · intro draft before hclosed
    exact (inWrite_closed (fragmentWrite_tidy draft) hdry before).trans hclosed
  · intro link _ _ fromId toId before _ _ _ _ hclosed
    exact (inWrite_closed tidy_keepAll hdry before).trans hclosed
  · intro version fragmentId content before hclosed
    exact (inWrite_closed tidy_keepAll hdry before).trans hclosed

theorem Dispatched.session (hreal : deps.dryRun = false) :
    handled.state.session = state.session := by
  refine hdispatched.preserves (P := fun after => after.session = state.session) ?_ ?_ ?_ ?_ rfl
  · intro before after _ hsession _ hbefore
    exact hsession.trans hbefore
  · intro draft before hbefore
    exact (inWrite_session (fragmentWrite_tidy draft) hreal before).trans hbefore
  · intro link _ _ fromId toId before _ _ _ _ hbefore
    exact (inWrite_session tidy_keepAll hreal before).trans hbefore
  · intro version fragmentId content before hbefore
    exact (inWrite_session tidy_keepAll hreal before).trans hbefore

omit hdispatched in
theorem inWrite_version {keep : Result -> Bool} {work : Work (Store Table) Failure Result}
    (before : State Table) : (inWrite deps keep work before).2.version = before.version := by
  unfold inWrite
  split <;> rfl

theorem Dispatched.version_eq : handled.state.version = state.version := by
  refine hdispatched.preserves (P := fun after => after.version = state.version) ?_ ?_ ?_ ?_ rfl
  · intro before after _ _ hversion hbefore
    exact hversion.trans hbefore
  · intro draft before hbefore
    exact (inWrite_version before).trans hbefore
  · intro link _ _ fromId toId before _ _ _ _ hbefore
    exact (inWrite_version before).trans hbefore
  · intro version fragmentId content before hbefore
    exact (inWrite_version before).trans hbefore

end

/-- A link between two different fragments that the run knows. -/
def Resolved (state : State Table) (link : StoredLink) : Prop :=
  link.fromId ≠ link.toId /\ (∃ fileFrom, state.storedId fileFrom = some link.fromId) /\
    ∃ fileTo, state.storedId fileTo = some link.toId

variable {store : Store Table} {P : List StoredLink -> Prop}

theorem transaction_links (hstore : P store.links) (hwork : P (work store).2.links) :
    P (transaction work store).2.links := by
  unfold transaction
  split
  · rename_i result changed hdone
    rw [hdone] at hwork
    exact hwork
  · exact hstore

theorem inWrite_links (htidy : Tidy keep work) (before : State Table)
    (hstore : P before.store.links) (hwork : P (work before.store).2.links) :
    P (inWrite deps keep work before).2.store.links := by
  rw [inWrite_eq htidy]
  exact transaction_links hstore hwork

variable {database : Database Table} {stored : StoredLink}

theorem restoreLink_links {fromId toId : String}
    (hmem : stored ∈ (restoreLink database link fromId toId store).2.links) :
    stored ∈ store.links \/ stored = linkRow database link fromId toId := by
  simp only [restoreLink] at hmem
  split at hmem
  · exact .inl hmem
  · split at hmem
    · exact .inl hmem
    · rcases mem_append.mp hmem with hold | hnew
      · exact .inl hold
      · exact .inr (mem_singleton.mp hnew)

theorem restoreVersion_links {row : VersionRow} :
    (restoreVersion database row store).2.links = store.links := by
  unfold restoreVersion
  split <;> rfl

theorem Dispatched.links (hdispatched : Dispatched deps rec state handled)
    (hmem : stored ∈ handled.state.store.links) :
    stored ∈ state.store.links \/ rec.entity = some .links /\ Resolved state stored := by
  let Known : List StoredLink -> Prop := fun links => ∀ stored ∈ links,
    stored ∈ state.store.links \/ rec.entity = some .links /\ Resolved state stored
  have hknown : Known handled.state.store.links := by
    refine hdispatched.preserves (P := fun after => Known after.store.links) ?_ ?_ ?_ ?_ ?_
    · intro before after hstore _ _ hbefore
      rw [hstore]
      exact hbefore
    · intro draft before hbefore
      exact inWrite_links (fragmentWrite_tidy draft) before hbefore hbefore
    · intro link fileFrom fileTo fromId toId before hentity hfrom hto hne hbefore
      refine inWrite_links tidy_keepAll before hbefore ?_
      intro stored hstored
      rcases restoreLink_links hstored with hold | rfl
      · exact hbefore stored hold
      · exact .inr ⟨hentity, hne, ⟨fileFrom, hfrom⟩, ⟨fileTo, hto⟩⟩
    · intro version fragmentId content before hbefore
      refine inWrite_links tidy_keepAll before hbefore ?_
      rw [restoreVersion_links]
      exact hbefore
    · intro stored hstored
      exact .inl hstored
  exact hknown stored hmem

def Record.fileId (rec : Record) : Option String :=
  match rec.body with
  | .readable .fragment row => asString (get row "id")
  | _ => none

def Learned (rec : Record) (state : State Table) (handled : Handled Table) : Prop :=
  ∃ fileId stored outcome, rec.fileId = some fileId /\
    handled.state.idMap = (fileId, stored) :: state.idMap /\
    countedRows handled.calls = [(.fragments, outcome)] /\
    (outcome = .imported \/ outcome = .duplicate)

theorem inWrite_idMap (before : State Table) :
    (inWrite deps keep work before).2.idMap = before.idMap := by
  unfold inWrite
  split <;> rfl

theorem recorded_ids (hbody : rec.body = .readable .fragment row) (contentChanged : Bool)
    (outcome : RowOutcome) (written : State Table) (hwritten : written.idMap = state.idMap) :
    (recordFragmentOutcome deps rec row contentChanged outcome written).state.idMap =
        state.idMap \/
      Learned rec state (recordFragmentOutcome deps rec row contentChanged outcome written) := by
  have hfileId : rec.fileId = asString (get row "id") := by rw [Record.fileId, hbody]
  cases outcome with
  | conflict => exact .inl hwritten
  | rejected reason detail => exact .inl hwritten
  | imported id importance =>
    cases hid : asString (get row "id") with
    | none =>
      left
      simp only [recordFragmentOutcome, hid, State.setId, State.addCreated]
      exact hwritten
    | some fileId =>
      refine .inr ⟨fileId, id, .imported, hfileId.trans hid, ?_, rfl, .inl rfl⟩
      simp only [recordFragmentOutcome, hid, State.setId, State.addCreated, hwritten]
  | duplicate id =>
    cases hid : asString (get row "id") with
    | none =>
      left
      simp only [recordFragmentOutcome, hid, State.setId]
      exact hwritten
    | some fileId =>
      refine .inr ⟨fileId, id, .duplicate, hfileId.trans hid, ?_, rfl, .inr rfl⟩
      simp only [recordFragmentOutcome, hid, State.setId, hwritten]

theorem fragment_ids (hbody : rec.body = .readable .fragment row) :
    (importFragmentRecord deps rec row state).state.idMap = state.idMap \/
      Learned rec state (importFragmentRecord deps rec row state) := by
  obtain ⟨fields, handled, hfragment, hcase⟩ := importFragmentRecord_cases deps rec row state
  have hhandled : handled.state.idMap = state.idMap \/ Learned rec state handled := by
    rcases hcase with ⟨call, outcome, _, _, rfl⟩ | ⟨err, rfl⟩ | ⟨draft, contentChanged, rfl⟩
    · exact .inl rfl
    · exact .inl rfl
    · have hmap : (fragmentWrite deps draft (state.countSeen .fragments)).2.idMap = state.idMap :=
        inWrite_idMap _
      cases hwritten : fragmentWrite deps draft (state.countSeen .fragments) with
      | mk result written =>
        rw [hwritten] at hmap
        cases result with
        | ok outcome => exact recorded_ids hbody contentChanged outcome written hmap
        | error err =>
          rcases guarded_error deps rec .fragments _ err written with
            ⟨call, outcome, _, _, hguarded⟩ | hguarded
          · rw [hguarded]
            exact .inl hmap
          · rw [hguarded]
            exact .inl hmap
  rw [hfragment]
  rcases hhandled with hsame | ⟨fileId, stored, outcome, hfile, hlearned, hcounted, houtcome⟩
  · exact .inl hsame
  · exact .inr ⟨fileId, stored, outcome, hfile, hlearned,
      (countedRows_ignored _ _).trans hcounted, houtcome⟩

theorem Dispatched.ids (hdispatched : Dispatched deps rec state handled) :
    handled.state.idMap = state.idMap \/ Learned rec state handled := by
  cases hdispatched with
  | rejected reason detail _ => exact .inl rfl
  | noted _ _ => exact .inl rfl
  | trailer data _ => exact .inl rfl
  | fragment hbody => exact fragment_ids hbody
  | @link link hbody =>
    left
    rcases importLinkRecord_cases deps rec link state with
      ⟨reason, detail, hcase⟩ | ⟨_, _, fromId, toId, _, _, _, hcase⟩
    · rw [hcase]
      rfl
    · rw [hcase]
      have hmap : (linkWrite deps link fromId toId (state.countSeen .links)).2.idMap =
          state.idMap := inWrite_idMap _
      exact guarded_preserves (P := fun after => after.idMap = state.idMap) hmap fun _ => hmap
  | @version version hbody =>
    left
    rcases importVersionRecord_cases deps rec version state with
      ⟨reason, detail, hcase⟩ | hcase | ⟨fragmentId, content, hcase⟩
    · rw [hcase]
      rfl
    · rw [hcase]
      rfl
    · rw [hcase]
      have hmap :
          (versionWrite deps version fragmentId content (state.countSeen .versions)).2.idMap =
            state.idMap := inWrite_idMap _
      exact guarded_preserves (P := fun after => after.idMap = state.idMap) hmap fun _ => hmap

end AnchorMind.Transfer
