import AnchorMind.Link.ContradictionDetector

/-!
# What the steps of the detector leave alone

Most steps of the detector move from one point of the code to the next and write nothing
but counters and the queue.  They keep the fragments and the record of what was done,
they judge and resolve pairs of two fragments only, and a scan that goes on stays where
it was.
-/

namespace AnchorMind.Link.ContradictionDetector

open List

variable {Id : Type*}

def naming : Point Id -> Option (Resolution Id)
  | .resolving resolution .supersede _ => some resolution
  | _ => none

def closing : Point Id -> Option (Resolution Id)
  | .resolving resolution .close _ => some resolution
  | _ => none

def Resolution.Apart : Resolution Id -> Prop
  | .contradiction newFrag candidate => candidate.id ≠ newFrag.id
  | .supersession pair => pair.b.id ≠ pair.a.id

variable {resolution : Resolution Id}

theorem Resolution.Apart.loser_ne_winner (hapart : resolution.Apart) :
    resolution.loser.id ≠ resolution.winner.id := by
  cases resolution with
  | contradiction newFrag candidate =>
    simp only [Resolution.loser, Resolution.winner]
    split
    · exact hapart
    · exact Ne.symm hapart
  | supersession pair =>
    simp only [Resolution.loser, Resolution.winner]
    split
    · exact Ne.symm hapart
    · exact hapart

def Examined.Apart (examined : Examined Id) : Prop :=
  ∀ found ∈ examined.candidates, found.row.id ≠ examined.newFrag.id

def PairsApart (pairs : List (Pair Id)) : Prop :=
  ∀ pair ∈ pairs, pair.b.id ≠ pair.a.id

def Caller.Apart : Caller Id -> Prop
  | .detecting _ examined _ => examined.Apart
  | .pending entry _ => entry.1 ≠ entry.2
  | .superseding rest => PairsApart rest

def Point.Apart : Point Id -> Prop
  | .idle => True
  | .scanning _ => True
  | .examining _ examined => examined.Apart
  | .pending _ => True
  | .asking entry rowA rowB _ => entry.1 ≠ entry.2 /\ rowB.id ≠ rowA.id
  | .collecting _ pairs _ => PairsApart pairs
  | .superseding rest => PairsApart rest
  | .resolving resolution _ caller => resolution.Apart /\ caller.Apart

variable {caller : Caller Id}

theorem Caller.Apart.returned (hapart : caller.Apart) : (State.returned caller).Apart := by
  cases caller with
  | detecting => exact hapart
  | pending => trivial
  | superseding => exact hapart

def Queued (state : State Id) : Prop :=
  ∀ entry ∈ state.pendingContradictions, entry.1 ≠ entry.2

theorem PairsApart.addPairs [LinearOrder Id] {pairs found : List (Pair Id)}
    (hpairs : PairsApart pairs) (hfound : PairsApart found) :
    PairsApart (addPairs pairs found) := by
  induction found generalizing pairs with
  | nil => exact hpairs
  | cons pair rest ih =>
    have hrest : PairsApart rest := fun other hother => hfound other (mem_cons_of_mem _ hother)
    simp only [ContradictionDetector.addPairs, foldl_cons]
    split
    · exact ih hpairs hrest
    · refine ih (fun other hother => ?_) hrest
      rcases mem_append.mp hother with hold | hnew
      · exact hpairs other hold
      · obtain rfl := mem_singleton.mp hnew
        exact hfound _ mem_cons_self

variable {pairs : List (Pair Id)}

theorem PairsApart.judged (hpairs : PairsApart pairs) : PairsApart (judged pairs) := by
  intro pair hpair
  exact hpairs pair ((perm_insertionSort _ pairs).mem_iff.mp (mem_of_mem_take hpair))

def progress : Point Id -> Option (Option (Watermark Id) × Bool)
  | .scanning scan => some (scan.latestProcessed, scan.blocked)
  | .examining scan _ => some (scan.latestProcessed, scan.blocked)
  | .resolving _ _ (.detecting scan _ _) => some (scan.latestProcessed, scan.blocked)
  | _ => none

def waiting : Point Id -> List (Fragment Id)
  | .scanning scan => scan.rest
  | .examining scan examined => examined.newFrag :: scan.rest
  | .resolving _ _ (.detecting scan examined _) => examined.newFrag :: scan.rest
  | _ => []

/-- The scan stays where it was, or the code has left it. -/
def GoesOn (before after : Point Id) : Prop :=
  progress after = none \/ (progress after = progress before /\ waiting after = waiting before)

theorem GoesOn.resolving {point : Point Id} (hgoes : GoesOn point (State.returned caller))
    (resolution : Resolution Id) (statement : Statement) :
    GoesOn point (.resolving resolution statement caller) := by
  cases caller with
  | detecting => exact hgoes
  | pending => exact Or.inl rfl
  | superseding => exact Or.inl rfl

theorem goesOn_returned (resolution : Resolution Id) (statement : Statement) (caller : Caller Id) :
    GoesOn (.resolving resolution statement caller) (State.returned caller) := by
  cases caller with
  | detecting => exact Or.inr ⟨rfl, rfl⟩
  | pending => exact Or.inl rfl
  | superseding => exact Or.inl rfl

/-- The step leaves the fragments and the record of resolutions, and does not come to a
closing statement. -/
structure Calm (before after : State Id) : Prop where
  fragments : after.fragments = before.fragments
  superseded : after.history.superseded = before.history.superseded
  closings : after.history.closings = before.history.closings
  queued : Queued before -> Queued after
  apart : after.point.Apart
  opening : closing after.point = none

/-- Only links, counters of pairs, the queue, and what the supersessions keep may change. -/
structure Quiet (before after : State Id) : Prop where
  fragments : after.fragments = before.fragments
  history : after.history = before.history
  memoryWatermark : after.memoryWatermark = before.memoryWatermark
  contradictionCheckAt : after.contradictionCheckAt = before.contradictionCheckAt
  failureCounts : after.failureCounts = before.failureCounts
  queued : Queued before -> Queued after

structure Still (before after : State Id) : Prop extends Quiet before after where
  apart : after.point.Apart
  opening : closing after.point = none
  goesOn : GoesOn before.point after.point

variable {before state : State Id}

theorem Still.calm {after : State Id} (hstill : Still before after) : Calm before after where
  fragments := hstill.fragments
  superseded := by rw [hstill.history]
  closings := by rw [hstill.history]
  queued := hstill.queued
  apart := hstill.apart
  opening := hstill.opening

theorem Quiet.refl (state : State Id) : Quiet state state where
  fragments := rfl
  history := rfl
  memoryWatermark := rfl
  contradictionCheckAt := rfl
  failureCounts := rfl
  queued := id

theorem Quiet.at {point : Point Id} (hquiet : Quiet before state) (hapart : point.Apart)
    (hopening : closing point = none) (hgoes : GoesOn before.point point) :
    Still before { state with point := point } where
  fragments := hquiet.fragments
  history := hquiet.history
  memoryWatermark := hquiet.memoryWatermark
  contradictionCheckAt := hquiet.contradictionCheckAt
  failureCounts := hquiet.failureCounts
  queued := hquiet.queued
  apart := hapart
  opening := hopening
  goesOn := hgoes

theorem closing_returned (caller : Caller Id) : closing (State.returned caller) = none := by
  cases caller <;> rfl

theorem Quiet.requeue {entry : Id × Id} (hquiet : Quiet before state) (hentry : entry.1 ≠ entry.2)
    (requeued : Bool) : Quiet before (state.requeue entry requeued) := by
  unfold State.requeue
  split
  · refine { hquiet with queued := fun hqueued other hother => ?_ }
    rcases mem_append.mp hother with hold | hnew
    · exact hquiet.queued hqueued other hold
    · obtain rfl := mem_singleton.mp hnew
      exact hentry
  · exact hquiet

theorem Quiet.beginResolution (hquiet : Quiet before state) (hresolution : resolution.Apart)
    (hcaller : caller.Apart) (hgoes : GoesOn before.point (State.returned caller)) :
    Still before (state.beginResolution resolution caller) := by
  unfold State.beginResolution
  cases hfirst : firstStatement resolution with
  | none => exact hquiet.at hcaller.returned (closing_returned caller) hgoes
  | some statement =>
    refine hquiet.at ⟨hresolution, hcaller⟩ ?_ (hgoes.resolving resolution statement)
    cases resolution with
    | contradiction newFrag candidate =>
      simp only [firstStatement] at hfirst
      split_ifs at hfirst <;> cases hfirst <;> rfl
    | supersession pair =>
      cases hfirst
      rfl

theorem still_caught {statement : Statement}
    (hpoint : state.point = .resolving resolution statement caller) (hcaller : caller.Apart)
    (requeued : Bool) : Still state (state.caught caller requeued) := by
  cases caller with
  | detecting scan examined byNli =>
    have hgoes : ∀ failed : Examined Id, failed.newFrag = examined.newFrag ->
        GoesOn state.point (.examining scan failed) := by
      intro failed hfailed
      rw [hpoint]
      exact Or.inr ⟨rfl, by rw [waiting, waiting, hfailed]⟩
    simp only [State.caught]
    split
    · exact (Quiet.refl state).at (fun found hfound => absurd hfound not_mem_nil) rfl
        (hgoes _ rfl)
    · exact (Quiet.refl state).at hcaller rfl (hgoes _ rfl)
  | pending entry left =>
    exact ((Quiet.refl state).requeue hcaller requeued).at trivial rfl (Or.inl rfl)
  | superseding rest => exact (Quiet.refl state).at hcaller rfl (Or.inl rfl)

section

variable [LinearOrder Id]

theorem quiet_acquirePairCheck {idA idB : Id} {checked : State Id}
    (hcheck : state.acquirePairCheck idA idB = some checked) : Quiet state checked := by
  simp only [State.acquirePairCheck] at hcheck
  split at hcheck
  · cases hcheck
  · cases hcheck
    exact ⟨rfl, rfl, rfl, rfl, rfl, fun hqueued => hqueued⟩

theorem calm_detect (redisReady nliAvail cliAvail : Bool) :
    Calm state (state.detect redisReady nliAvail cliAvail) := by
  refine ⟨rfl, rfl, rfl, fun hqueued => hqueued, ?_, ?_⟩
  · simp only [State.detect]
    split <;> trivial
  · simp only [State.detect]
    split <;> rfl

theorem still_examine {scan : Scan Id} {newFrag : Fragment Id} {rest : List (Fragment Id)}
    {answer : Option (List (Candidate Id))} (hpoint : state.point = .scanning scan)
    (hrest : scan.rest = newFrag :: rest)
    (hanswer : ∀ found, answer = some found -> IsAnswer state.fragments state.links newFrag found) :
    Still state (state.examine { scan with rest := rest } newFrag answer) := by
  refine (Quiet.refl state).at (fun found hfound => ?_) rfl ?_
  · cases answer with
    | none => exact absurd hfound not_mem_nil
    | some listed =>
      have hcandidate := ((hanswer listed rfl).2.2.2 found hfound).2
      simp only [isCandidate, Bool.and_eq_true, decide_eq_true_eq] at hcandidate
      exact hcandidate.1.1.1.1.1.1.1.1
  · rw [hpoint]
    exact Or.inr ⟨rfl, hrest.symm⟩

omit [LinearOrder Id] in
theorem Quiet.askGemini {scan : Scan Id} {rest : Examined Id} {found : Candidate Id}
    (hquiet : Quiet before state) (hrest : rest.Apart) (hfound : found.row.id ≠ rest.newFrag.id)
    (hgoes : GoesOn before.point (.examining scan rest)) (gemini : GeminiAnswer) (pushed : Bool) :
    Still before (state.askGemini scan rest found gemini pushed) := by
  have hnext : ∀ outcome, (rest.came outcome).Apart := fun _ => hrest
  have hscan : ∀ outcome, GoesOn before.point (.examining scan (rest.came outcome)) :=
    fun _ => hgoes
  unfold State.askGemini
  split
  · refine Quiet.at ?_ (hnext .putAside) rfl (hscan .putAside)
    unfold State.flag
    split
    · exact hquiet.requeue (Ne.symm hfound) pushed
    · exact hquiet
  · cases gemini with
    | answered flag =>
      cases flag with
      | true => exact hquiet.beginResolution hfound (hnext .verdict) (hscan .verdict)
      | false => exact hquiet.at (hnext .verdict) rfl (hscan .verdict)
    | thrown => exact hquiet.at (hnext .unanswered) rfl (hscan .unanswered)
    | null => exact hquiet.at (hnext .unanswered) rfl (hscan .unanswered)

theorem still_judge {scan : Scan Id} {examined : Examined Id} {found : Candidate Id}
    {candidates : List (Candidate Id)} (hpoint : state.point = .examining scan examined)
    (hcandidates : examined.candidates = found :: candidates) (hapart : examined.Apart)
    (nli : NliAnswer) (gemini : GeminiAnswer) (pushed : Bool) :
    Still state (state.judge scan examined found candidates nli gemini pushed) := by
  have hfound : found.row.id ≠ examined.newFrag.id :=
    hapart found (hcandidates ▸ mem_cons_self)
  have hrest : { examined with candidates := candidates }.Apart :=
    fun other hother => hapart other (hcandidates ▸ mem_cons_of_mem _ hother)
  have hnext : ∀ outcome,
      ({ examined with candidates := candidates }.came outcome).Apart := fun _ => hrest
  have hscan : ∀ next : Examined Id, next.newFrag = examined.newFrag ->
      GoesOn state.point (.examining scan next) := by
    intro next hfrag
    rw [hpoint]
    exact Or.inr ⟨rfl, by rw [waiting, waiting, hfrag]⟩
  unfold State.judge
  cases hcheck : state.acquirePairCheck examined.newFrag.id found.row.id with
  | none => exact (Quiet.refl state).at (hnext .putAside) rfl (hscan _ rfl)
  | some checked =>
    have hquiet := quiet_acquirePairCheck hcheck
    simp only
    split
    · split
      · exact hquiet.beginResolution hfound (hnext .verdict) (hscan _ rfl)
      · exact hquiet.at (hnext .verdict) rfl (hscan _ rfl)
      · exact hquiet.at (fun _ hnil => absurd hnil not_mem_nil) rfl (hscan _ rfl)
      · exact hquiet.askGemini hrest hfound (hscan _ rfl) gemini pushed
    · exact hquiet.askGemini hrest hfound (hscan _ rfl) gemini pushed

theorem calm_settle (scan : Scan Id) (examined : Examined Id) :
    Calm state (state.settle scan examined) := by
  exact ⟨rfl, rfl, rfl, fun hqueued => hqueued, trivial, rfl⟩

omit [LinearOrder Id] in
theorem calm_finish (scan : Scan Id) (redisReady : Bool) :
    Calm state (state.finish scan redisReady) := by
  unfold State.finish
  split <;> exact ⟨rfl, rfl, rfl, fun hqueued => hqueued, trivial, rfl⟩

theorem still_pop {left : Nat} (hqueued : Queued state) (readable requeued : Bool) :
    Still state (state.pop left readable requeued) := by
  unfold State.pop
  cases hentries : state.pendingContradictions with
  | nil =>
    exact ⟨⟨rfl, rfl, rfl, rfl, rfl, fun _ _ hnil => absurd hnil not_mem_nil⟩, trivial, rfl,
      Or.inl rfl⟩
  | cons entry rest =>
    have hentry : entry.1 ≠ entry.2 := hqueued entry (hentries ▸ mem_cons_self)
    have hpopped : Quiet state { state with pendingContradictions := rest } :=
      ⟨rfl, rfl, rfl, rfl, rfl, fun _ other hother =>
        hqueued other (hentries ▸ mem_cons_of_mem _ hother)⟩
    simp only
    cases hcheck : State.acquirePairCheck { state with pendingContradictions := rest }
        entry.1 entry.2 with
    | none => exact hpopped.at trivial rfl (Or.inl rfl)
    | some checked =>
      have hquiet : Quiet state checked := by
        have hacquired := quiet_acquirePairCheck hcheck
        exact { hacquired with queued := fun h => hacquired.queued (hpopped.queued h) }
      simp only
      split
      · exact (hquiet.requeue hentry requeued).at trivial rfl (Or.inl rfl)
      · split
        · rename_i rowA rowB hrowA hrowB
          have hidA : rowA.id = entry.1 := by simpa using find?_some hrowA
          have hidB : rowB.id = entry.2 := by simpa using find?_some hrowB
          exact hquiet.at ⟨hentry, by rw [hidA, hidB]; exact Ne.symm hentry⟩ rfl (Or.inl rfl)
        · exact hquiet.at trivial rfl (Or.inl rfl)

omit [LinearOrder Id] in
theorem still_verdict {entry : Id × Id} {rowA rowB : Fragment Id} {left : Nat}
    (hapart : (Point.asking entry rowA rowB left).Apart) (requeued : Bool) (gemini : GeminiAnswer) :
    Still state (state.verdict entry rowA rowB left requeued gemini) := by
  obtain ⟨hentry, hrows⟩ := hapart
  cases gemini with
  | answered flag =>
    cases flag with
    | true => exact (Quiet.refl state).beginResolution hrows hentry (Or.inl rfl)
    | false => exact (Quiet.refl state).at trivial rfl (Or.inl rfl)
  | thrown => exact (Quiet.refl state).at trivial rfl (Or.inl rfl)
  | null => exact ((Quiet.refl state).requeue hentry requeued).at trivial rfl (Or.inl rfl)

theorem still_scanSupersessions (redisReady : Bool) (now : Int) (hidle : state.point = .idle) :
    Still state (state.scanSupersessions redisReady now) := by
  simp only [State.scanSupersessions]
  split
  · exact ⟨.refl state, by rw [hidle]; trivial, by rw [hidle]; rfl, Or.inr ⟨rfl, rfl⟩⟩
  · exact (Quiet.refl state).at (fun _ hnil => absurd hnil not_mem_nil) rfl (Or.inl rfl)

theorem still_collect {rest chunk : List (Fragment Id)} {latestProcessed : Option (Watermark Id)}
    {answer : Option (List (Pair Id))} (hpairs : PairsApart pairs)
    (hanswer : ∀ found, answer = some found ->
      AreNeighbors state.fragments state.links chunk found) :
    Still state (state.collect rest pairs latestProcessed answer) := by
  unfold State.collect
  cases answer with
  | none => exact (Quiet.refl state).at hpairs rfl (Or.inl rfl)
  | some found =>
    refine (Quiet.refl state).at (hpairs.addPairs fun pair hpair => ?_) rfl (Or.inl rfl)
    have hneighbor := (hanswer found rfl pair hpair).2.2
    simp only [isNeighbor, Bool.and_eq_true, decide_eq_true_eq] at hneighbor
    exact hneighbor.1.1.1.1.1.1.1.1.1.1

omit [LinearOrder Id] in
theorem still_collected {pairs : List (Pair Id)} (hpairs : PairsApart pairs)
    (latestProcessed : Option (Watermark Id)) (redisReady : Bool) :
    Still state (state.collected pairs latestProcessed redisReady) := by
  unfold State.collected
  split <;>
    exact ⟨⟨rfl, rfl, rfl, rfl, rfl, fun hqueued => hqueued⟩, hpairs.judged, rfl, Or.inl rfl⟩

omit [LinearOrder Id] in
theorem still_supersedes {pair : Pair Id} {rest : List (Pair Id)}
    (hpairs : PairsApart (pair :: rest)) (gemini : GeminiAnswer) :
    Still state (state.supersedes pair rest gemini) := by
  have hrest : PairsApart rest := fun other hother => hpairs other (mem_cons_of_mem _ hother)
  unfold State.supersedes
  split
  · exact (Quiet.refl state).beginResolution (hpairs pair mem_cons_self) hrest (Or.inl rfl)
  · exact (Quiet.refl state).at hrest rfl (Or.inl rfl)

/-- The steps of the detector that are more than a move: the start of a scan, the end of a
fragment's turn, the end of a scan, and the statements of a resolution. -/
def Writes : Label Id -> Prop
  | .detect _ _ _ => True
  | .settle => True
  | .finish _ => True
  | .execute _ => True
  | _ => False

variable {after : State Id} {label : Label Id}

theorem still_detectorStep (hqueued : Queued state) (hapart : state.point.Apart)
    (hlabel : Not (Writes label)) (hstep : detectorStep state state.point label = some after) :
    Still state after := by
  generalize hpoint : state.point = point at hstep hapart
  cases point with
  | idle =>
    cases label <;> simp only [detectorStep, reduceCtorEq, Option.some.injEq] at hstep <;>
      subst hstep
    case resetCheckedPairs =>
      exact ⟨⟨rfl, rfl, rfl, rfl, rfl, fun h => h⟩, by rw [hpoint]; trivial, by rw [hpoint]; rfl,
        Or.inr ⟨rfl, rfl⟩⟩
    case detect redisReady nliAvail cliAvail => exact absurd trivial hlabel
    case processPending => exact (Quiet.refl state).at trivial rfl (Or.inl rfl)
    case scanSupersessions redisReady now => exact still_scanSupersessions _ _ hpoint
  | scanning scan =>
    cases label <;> simp only [detectorStep, reduceCtorEq] at hstep
    case candidates answer =>
      split at hstep
      · cases hstep
      · rename_i hrest
        split at hstep
        · rename_i hanswer
          cases hstep
          exact still_examine hpoint hrest hanswer
        · cases hstep
    case finish redisReady => exact absurd trivial hlabel
  | examining scan examined =>
    cases label <;> simp only [detectorStep, reduceCtorEq] at hstep
    case judge nli gemini pushed =>
      split at hstep
      · cases hstep
      · rename_i hcandidates
        cases hstep
        exact still_judge hpoint hcandidates hapart nli gemini pushed
    case settle => exact absurd trivial hlabel
  | pending left =>
    cases label <;> simp only [detectorStep, reduceCtorEq] at hstep
    case pop readable requeued =>
      split at hstep
      · cases hstep
        exact (Quiet.refl state).at trivial rfl (Or.inl rfl)
      · cases hstep
        exact still_pop hqueued readable requeued
    case popFails =>
      cases hstep
      exact (Quiet.refl state).at trivial rfl (Or.inl rfl)
  | asking entry rowA rowB left =>
    cases label <;> simp only [detectorStep, reduceCtorEq] at hstep
    case verdict gemini requeued =>
      cases hstep
      exact still_verdict hapart requeued gemini
  | collecting rest pairs latestProcessed =>
    cases label
    case neighbors answer =>
      simp only [detectorStep] at hstep
      split at hstep
      · rename_i hanswer
        cases hstep
        exact still_collect hapart hanswer.2
      · cases hstep
    case collected redisReady =>
      cases rest with
      | nil =>
        cases hstep
        exact still_collected hapart latestProcessed redisReady
      | cons => cases hstep
    all_goals simp only [detectorStep, reduceCtorEq] at hstep
  | superseding rest =>
    cases label <;> simp only [detectorStep, reduceCtorEq] at hstep
    case supersedes gemini =>
      split at hstep
      · cases hstep
        exact (Quiet.refl state).at trivial rfl (Or.inl rfl)
      · cases hstep
        exact still_supersedes hapart gemini
  | resolving resolution statement caller =>
    cases label <;> simp only [detectorStep, reduceCtorEq] at hstep
    case execute now => exact absurd trivial hlabel
    case fail requeued =>
      cases hstep
      exact still_caught hpoint hapart.2 requeued

inductive WritingStep (state : State Id) : Label Id -> State Id -> Prop where
  | detect (redisReady nliAvail cliAvail : Bool) (hpoint : state.point = .idle) :
      WritingStep state (.detect redisReady nliAvail cliAvail)
        (state.detect redisReady nliAvail cliAvail)
  | settle {scan : Scan Id} {examined : Examined Id}
      (hpoint : state.point = .examining scan examined) (hdone : examined.candidates = []) :
      WritingStep state .settle (state.settle scan examined)
  | finish {scan : Scan Id} (redisReady : Bool) (hpoint : state.point = .scanning scan)
      (hdone : scan.rest = []) :
      WritingStep state (.finish redisReady) (state.finish scan redisReady)
  | execute {resolution : Resolution Id} {statement : Statement} {caller : Caller Id} (now : Int)
      (hpoint : state.point = .resolving resolution statement caller) :
      WritingStep state (.execute now) (state.execute resolution statement caller now)

theorem writingStep_of_detectorStep (hlabel : Writes label)
    (hstep : detectorStep state state.point label = some after) :
    WritingStep state label after := by
  cases label <;> simp only [Writes] at hlabel
  case detect redisReady nliAvail cliAvail =>
    cases hpoint : state.point <;> simp only [hpoint, detectorStep, reduceCtorEq] at hstep
    cases hstep
    exact .detect redisReady nliAvail cliAvail hpoint
  case settle =>
    cases hpoint : state.point <;> simp only [hpoint, detectorStep, reduceCtorEq] at hstep
    split at hstep
    · rename_i hdone
      cases hstep
      exact .settle hpoint hdone
    · cases hstep
  case finish redisReady =>
    cases hpoint : state.point <;> simp only [hpoint, detectorStep, reduceCtorEq] at hstep
    split at hstep
    · rename_i hdone
      cases hstep
      exact .finish redisReady hpoint hdone
    · cases hstep
  case execute now =>
    cases hpoint : state.point <;> simp only [hpoint, detectorStep, reduceCtorEq] at hstep
    cases hstep
    exact .execute now hpoint

/-- What other writers leave alone. -/
structure Others (before after : State Id) : Prop where
  point : after.point = before.point
  history : after.history = before.history
  pending : after.pendingContradictions = before.pendingContradictions
  memoryWatermark : after.memoryWatermark = before.memoryWatermark
  contradictionCheckAt : after.contradictionCheckAt = before.contradictionCheckAt
  failureCounts : after.failureCounts = before.failureCounts

theorem others_otherStep (hstep : otherStep before label = some after) : Others before after := by
  cases label <;> simp only [otherStep, reduceCtorEq, Option.some.injEq] at hstep
  case create row =>
    split at hstep
    · cases hstep
      exact ⟨rfl, rfl, rfl, rfl, rfl, rfl⟩
    · cases hstep
  all_goals
    subst hstep
    exact ⟨rfl, rfl, rfl, rfl, rfl, rfl⟩

structure Resolves (before after : State Id) (resolution : Resolution Id) (caller : Caller Id) :
    Prop where
  turns : after.history.turns = before.history.turns
  held : after.history.held = before.history.held
  readings : after.history.readings = before.history.readings
  pending : after.pendingContradictions = before.pendingContradictions
  memoryWatermark : after.memoryWatermark = before.memoryWatermark
  contradictionCheckAt : after.contradictionCheckAt = before.contradictionCheckAt
  failureCounts : after.failureCounts = before.failureCounts
  point : after.point = State.returned caller \/
    ∃ statement, after.point = .resolving resolution statement caller

theorem resolves_execute (resolution : Resolution Id) (statement : Statement) (caller : Caller Id)
    (now : Int) :
    Resolves state (state.execute resolution statement caller now) resolution caller := by
  cases statement with
  | supersede => exact ⟨rfl, rfl, rfl, rfl, rfl, rfl, rfl, Or.inr ⟨.close, rfl⟩⟩
  | close =>
    cases resolution with
    | contradiction =>
      simp only [State.execute, nextStatement, State.close]
      split <;> exact ⟨rfl, rfl, rfl, rfl, rfl, rfl, rfl, Or.inr ⟨.contradict, rfl⟩⟩
    | supersession =>
      simp only [State.execute, nextStatement, State.close]
      split <;> exact ⟨rfl, rfl, rfl, rfl, rfl, rfl, rfl, Or.inl rfl⟩
  | contradict => cases resolution <;> exact ⟨rfl, rfl, rfl, rfl, rfl, rfl, rfl, Or.inl rfl⟩

/-- No pair of a fragment with itself is queued, judged, or resolved. -/
structure Ready (state : State Id) : Prop where
  queued : Queued state
  apart : state.point.Apart

theorem Ready.step (hready : Ready state)
    (hstep : ContradictionDetector.step state label = some after) : Ready after := by
  have hcalm : Calm state after -> Ready after :=
    fun hcalm => ⟨hcalm.queued hready.queued, hcalm.apart⟩
  rcases Option.or_eq_some_iff.mp hstep with hother | ⟨-, hown⟩
  · have hothers := others_otherStep hother
    constructor
    · unfold Queued
      rw [hothers.pending]
      exact hready.queued
    · rw [hothers.point]
      exact hready.apart
  · by_cases hlabel : Writes label
    · cases writingStep_of_detectorStep hlabel hown with
      | detect => exact hcalm (calm_detect _ _ _)
      | settle => exact hcalm (calm_settle _ _)
      | finish => exact hcalm (calm_finish _ _)
      | @execute resolution statement caller now hpoint =>
        have hresolves : Resolves state _ resolution caller :=
          resolves_execute resolution statement caller now
        have hapart := hready.apart
        rw [hpoint] at hapart
        constructor
        · unfold Queued
          rw [hresolves.pending]
          exact hready.queued
        · rcases hresolves.point with hback | ⟨next, hnext⟩
          · rw [hback]
            exact hapart.2.returned
          · rw [hnext]
            exact hapart
    · exact hcalm (still_detectorStep hready.queued hready.apart hlabel hown).calm

omit [LinearOrder Id] in
theorem Ready.ofFresh (hfresh : Fresh state) : Ready state where
  queued := hfresh.queued
  apart := by
    rw [hfresh.point]
    trivial

end

end AnchorMind.Link.ContradictionDetector
