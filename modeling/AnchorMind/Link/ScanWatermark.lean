import AnchorMind.Link.DetectorSteps

/-!
# The watermark of the contradiction scan

A scan takes the oldest fragments after the watermark and leaves it at the last one whose
turn, and every turn before it, ended well or for the last time.  As long as fragments come
into sight only above the watermark and the scan under way, and every call of Gemini answers,
no fragment is passed over: it had a turn in which every pair was judged or put aside, or it
failed often enough, or a review held it when the scan went past.
-/

namespace AnchorMind.Link.ContradictionDetector

open Kernel.KeyedTable Kernel.Transition List

variable {Id : Type*}

def Fragment.due (fragment : Fragment Id) : Bool :=
  fragment.isLive && fragment.hasEmbedding && decide (fragment.topic ≠ auditTopic)

def Turn.EveryVerdict (turn : Turn Id) : Prop :=
  turn.failed = false /\ ∀ outcome ∈ turn.outcomes, outcome = .verdict

/-- Every selected pair got a verdict or was put aside. -/
def Turn.Complete (turn : Turn Id) : Prop :=
  turn.failed = false /\ ∀ outcome ∈ turn.outcomes, outcome ≠ .unanswered

section

variable [LinearOrder Id]

def failures (state : State Id) (id : Id) : Nat :=
  state.history.turns.countP fun turn => decide (turn.id = id) && turn.failed

def AtOrBelow (state : State Id) (fragment : Fragment Id) : Prop :=
  isAfter state.memoryWatermark fragment = false \/
    isAfter state.contradictionCheckAt fragment = false

/-- The fragment had a turn in which every pair was judged or put aside, or its last
failure, or a review held it when a scan went past. -/
def Accounted (state : State Id) (id : Id) : Prop :=
  (∃ turn ∈ state.history.turns, turn.id = id /\ turn.Complete) \/
    3 ≤ failures state id \/ id ∈ state.history.held

def NonePassedOver (state : State Id) : Prop :=
  ∀ fragment ∈ state.fragments, fragment.due = true ->
    AtOrBelow state fragment -> Accounted state fragment.id

def UpTo (earlier later : Option (Watermark Id)) : Prop :=
  ∀ fragment : Fragment Id, isAfter later fragment = true -> isAfter earlier fragment = true

/-- Of two readings of one store in a row, newest first, the later is not behind. -/
def NeverBack : List (Reading Id) -> Prop
  | later :: earlier :: rest =>
    (later.fromRedis = earlier.fromRedis -> UpTo earlier.watermark later.watermark) /\
      NeverBack (earlier :: rest)
  | _ => True

variable {fragment other : Fragment Id} {watermark : Option (Watermark Id)}

theorem isAfter_watermarkOf :
    isAfter (some (watermarkOf other)) fragment = true <->
      other.createdAt < fragment.createdAt \/
        (other.createdAt = fragment.createdAt /\ other.id < fragment.id) := by
  simp [isAfter, watermarkOf]

theorem isAfter_congr (hid : fragment.id = other.id)
    (hcreated : fragment.createdAt = other.createdAt) :
    isAfter watermark fragment = isAfter watermark other := by
  unfold isAfter
  rw [hid, hcreated]

theorem isAfter_trans (hother : isAfter watermark other = true)
    (hafter : isAfter (some (watermarkOf other)) fragment = true) :
    isAfter watermark fragment = true := by
  rw [isAfter_watermarkOf] at hafter
  rcases watermark with _ | ⟨instant, _ | id⟩
  · rfl
  · simp only [isAfter, decide_eq_true_eq] at hother ⊢
    omega
  · simp only [isAfter, Bool.or_eq_true, Bool.and_eq_true, decide_eq_true_eq] at hother ⊢
    rcases hafter with hlt | ⟨heq, hid⟩
    · omega
    · rcases hother with hlt | ⟨heq', hid'⟩
      · omega
      · exact Or.inr ⟨heq'.trans heq, hid'.trans hid⟩

theorem upTo_watermarkOf (hother : isAfter watermark other = true) :
    UpTo watermark (some (watermarkOf other)) :=
  fun _ hafter => isAfter_trans hother hafter

theorem isAfter_of_not_createdBefore (hbefore : Not (createdBefore fragment other)) :
    isAfter (some (watermarkOf other)) fragment = true := by
  rw [isAfter_watermarkOf]
  unfold createdBefore at hbefore
  push Not at hbefore
  obtain ⟨hle, hid⟩ := hbefore
  rcases lt_or_eq_of_le hle with hlt | heq
  · exact .inl hlt
  · exact Or.inr ⟨heq, hid heq.symm⟩

theorem isAfter_of_createdBefore (hbefore : createdBefore other fragment)
    (hid : other.id ≠ fragment.id) : isAfter (some (watermarkOf other)) fragment = true := by
  rw [isAfter_watermarkOf]
  rcases hbefore with hlt | ⟨heq, hle⟩
  · exact .inl hlt
  · exact Or.inr ⟨heq, lt_of_le_of_ne hle hid⟩

instance : Std.Total (createdBefore : Fragment Id -> Fragment Id -> Prop) where
  total a b := by
    unfold createdBefore
    rcases lt_trichotomy a.createdAt b.createdAt with hlt | heq | hgt
    · exact .inl (.inl hlt)
    · rcases le_total a.id b.id with hle | hle
      · exact .inl (Or.inr ⟨heq, hle⟩)
      · exact .inr (Or.inr ⟨heq.symm, hle⟩)
    · exact .inr (.inl hgt)

instance : IsTrans (Fragment Id) createdBefore where
  trans a b c hab hbc := by
    unfold createdBefore at *
    rcases hab with hlt | ⟨heq, hle⟩
    · rcases hbc with hlt' | ⟨heq', -⟩
      · exact .inl (hlt.trans hlt')
      · exact .inl (heq' ▸ hlt)
    · rcases hbc with hlt' | ⟨heq', hle'⟩
      · exact .inl (heq ▸ hlt')
      · exact Or.inr ⟨heq.trans heq', hle.trans hle'⟩

theorem scanAfter_pairwise (fragments : Fragments Id) (limit : Nat) :
    (scanAfter fragments watermark limit).Pairwise fun a b =>
      isAfter (some (watermarkOf a)) b = true := by
  have hordered : (scanAfter fragments watermark limit).Pairwise createdBefore :=
    Table.pairwise_selectOrdered
  have hdistinct : (scanAfter fragments watermark limit).Pairwise fun a b => a.id ≠ b.id :=
    pairwise_map.mp Table.selectOrdered_keys_nodup
  exact (hordered.and hdistinct).imp fun hboth => isAfter_of_createdBefore hboth.1 hboth.2

theorem mem_scanAfter {fragments : Fragments Id} {limit : Nat}
    (hscan : fragment ∈ scanAfter fragments watermark limit) :
    fragment ∈ fragments /\ isAfter watermark fragment = true := by
  obtain ⟨hrow, hselect⟩ := Table.mem_of_mem_selectOrdered hscan
  rw [Bool.and_eq_true] at hselect
  exact ⟨hrow, hselect.2⟩

/-- The step leaves the watermarks, the counts, and the record of turns and readings, and a
scan under way stays where it was. -/
structure Steady (before after : State Id) : Prop where
  turns : after.history.turns = before.history.turns
  held : after.history.held = before.history.held
  readings : after.history.readings = before.history.readings
  memoryWatermark : after.memoryWatermark = before.memoryWatermark
  contradictionCheckAt : after.contradictionCheckAt = before.contradictionCheckAt
  failureCounts : after.failureCounts = before.failureCounts
  goesOn : GoesOn before.point after.point

variable {before after state : State Id}

omit [LinearOrder Id] in
theorem Others.steady (hothers : Others before after) : Steady before after where
  turns := by rw [hothers.history]
  held := by rw [hothers.history]
  readings := by rw [hothers.history]
  memoryWatermark := hothers.memoryWatermark
  contradictionCheckAt := hothers.contradictionCheckAt
  failureCounts := hothers.failureCounts
  goesOn := by
    rw [hothers.point]
    exact Or.inr ⟨rfl, rfl⟩

omit [LinearOrder Id] in
theorem Still.steady (hstill : Still before after) : Steady before after where
  turns := by rw [hstill.history]
  held := by rw [hstill.history]
  readings := by rw [hstill.history]
  memoryWatermark := hstill.memoryWatermark
  contradictionCheckAt := hstill.contradictionCheckAt
  failureCounts := hstill.failureCounts
  goesOn := hstill.goesOn

omit [LinearOrder Id] in
theorem Resolves.steady {resolution : Resolution Id} {statement : Statement} {caller : Caller Id}
    (hpoint : before.point = .resolving resolution statement caller)
    (hresolves : Resolves before after resolution caller) : Steady before after where
  turns := hresolves.turns
  held := hresolves.held
  readings := hresolves.readings
  memoryWatermark := hresolves.memoryWatermark
  contradictionCheckAt := hresolves.contradictionCheckAt
  failureCounts := hresolves.failureCounts
  goesOn := by
    rw [hpoint]
    rcases hresolves.point with hback | ⟨next, hnext⟩
    · rw [hback]
      exact goesOn_returned resolution statement caller
    · rw [hnext]
      exact (goesOn_returned resolution statement caller).resolving resolution next

inductive ScanStep (state : State Id) : Label Id -> State Id -> Prop where
  | detect (redisReady nliAvail cliAvail : Bool) (hpoint : state.point = .idle) :
      ScanStep state (.detect redisReady nliAvail cliAvail)
        (state.detect redisReady nliAvail cliAvail)
  | settle {scan : Scan Id} {examined : Examined Id}
      (hpoint : state.point = .examining scan examined) :
      ScanStep state .settle (state.settle scan examined)
  | finish {scan : Scan Id} (redisReady : Bool) (hpoint : state.point = .scanning scan) :
      ScanStep state (.finish redisReady) (state.finish scan redisReady)

variable {label : Label Id}

theorem steady_or_scanStep (hready : Ready before) (hstep : step before label = some after) :
    Steady before after \/ ScanStep before label after := by
  rcases Option.or_eq_some_iff.mp hstep with hother | ⟨-, hown⟩
  · exact .inl (others_otherStep hother).steady
  · by_cases hlabel : Writes label
    · cases writingStep_of_detectorStep hlabel hown with
      | detect redisReady nliAvail cliAvail hpoint => exact .inr (.detect _ _ _ hpoint)
      | settle hpoint => exact .inr (.settle hpoint)
      | finish redisReady hpoint => exact .inr (.finish _ hpoint)
      | execute now hpoint => exact .inl (Resolves.steady hpoint (resolves_execute _ _ _ now))
    · exact .inl (still_detectorStep hready.queued hready.apart hlabel hown).steady

structure ReadKept (state : State Id) : Prop where
  back : NeverBack state.history.readings
  stored : ∀ reading, state.history.readings.head? = some reading ->
    UpTo reading.watermark
      (if reading.fromRedis then state.contradictionCheckAt else state.memoryWatermark)
  scan : ∀ latest blocked, progress state.point = some (latest, blocked) ->
    ∃ reading, state.history.readings.head? = some reading /\
      (∀ watermark, latest = some watermark -> UpTo reading.watermark (some watermark)) /\
        ∀ fragment ∈ waiting state.point,
          isAfter reading.watermark fragment = true

theorem ReadKept.ofFresh (hfresh : Fresh state) : ReadKept state where
  back := by
    rw [hfresh.readings]
    trivial
  stored reading hreading := by
    rw [hfresh.readings] at hreading
    cases hreading
  scan latest blocked hprogress := by
    rw [hfresh.point] at hprogress
    cases hprogress

theorem ReadKept.steady (hkept : ReadKept before) (hsteady : Steady before after) :
    ReadKept after where
  back := by
    rw [hsteady.readings]
    exact hkept.back
  stored := by
    rw [hsteady.readings, hsteady.contradictionCheckAt, hsteady.memoryWatermark]
    exact hkept.stored
  scan latest blocked hprogress := by
    rcases hsteady.goesOn with hnone | ⟨hsame, hwaiting⟩
    · rw [hnone] at hprogress
      cases hprogress
    · rw [hsame] at hprogress
      rw [hsteady.readings, hwaiting]
      exact hkept.scan latest blocked hprogress

theorem upTo_refl : UpTo watermark watermark := fun _ hafter => hafter

omit [LinearOrder Id] in
theorem stored_readWatermark (redisReady : Bool) :
    (if (state.readWatermark redisReady).fromRedis then state.contradictionCheckAt
      else state.memoryWatermark) = (state.readWatermark redisReady).watermark := by
  unfold State.readWatermark
  split
  · rename_i stored hstored
    rw [if_pos rfl]
    split at hstored
    · exact hstored
    · cases hstored
  · rfl

theorem ReadKept.detect (hkept : ReadKept before) (redisReady nliAvail cliAvail : Bool) :
    ReadKept (before.detect redisReady nliAvail cliAvail) where
  back := by
    change NeverBack (before.readWatermark redisReady :: before.history.readings)
    cases hreadings : before.history.readings with
    | nil => trivial
    | cons earlier rest =>
      refine ⟨fun hstore => ?_, hreadings ▸ hkept.back⟩
      have hstored := hkept.stored earlier (by rw [hreadings]; rfl)
      rwa [<- hstore, stored_readWatermark] at hstored
  stored reading hreading := by
    cases hreading
    change UpTo _ (if (before.readWatermark redisReady).fromRedis then
      before.contradictionCheckAt else before.memoryWatermark)
    rw [stored_readWatermark]
    exact upTo_refl
  scan latest blocked hprogress := by
    refine ⟨before.readWatermark redisReady, rfl, ?_⟩
    simp only [State.detect] at hprogress ⊢
    split at hprogress
    · cases hprogress
    · rename_i hscanned
      rw [if_neg hscanned]
      cases hprogress
      exact ⟨fun watermark hnone => (by cases hnone), fun fragment hmem => (mem_scanAfter hmem).2⟩

variable {scan : Scan Id} {examined : Examined Id}

theorem ReadKept.settle (hkept : ReadKept before)
    (hpoint : before.point = .examining scan examined) :
    ReadKept (before.settle scan examined) where
  back := hkept.back
  stored := hkept.stored
  scan latest blocked hprogress := by
    obtain ⟨reading, hreading, hlatest, hwaiting⟩ :=
      hkept.scan scan.latestProcessed scan.blocked (by rw [hpoint]; rfl)
    rw [hpoint] at hwaiting
    refine ⟨reading, hreading, fun watermark hwatermark => ?_,
      fun fragment hmem => hwaiting fragment (mem_cons_of_mem _ hmem)⟩
    simp only [State.settle, progress, Option.some.injEq, Prod.mk.injEq] at hprogress
    obtain ⟨rfl, -⟩ := hprogress
    split at hwatermark
    · cases hwatermark
      exact upTo_watermarkOf (hwaiting examined.newFrag mem_cons_self)
    · exact hlatest watermark hwatermark

theorem ReadKept.finish (hkept : ReadKept before) (hpoint : before.point = .scanning scan)
    (redisReady : Bool) : ReadKept (before.finish scan redisReady) := by
  obtain ⟨reading, hreading, hlatest, -⟩ :=
    hkept.scan scan.latestProcessed scan.blocked (by rw [hpoint]; rfl)
  unfold State.finish
  split
  · exact ⟨hkept.back, hkept.stored, fun latest blocked hprogress => (by cases hprogress)⟩
  · rename_i latest hprocessed
    refine ⟨hkept.back, fun other hother => ?_,
      fun latest blocked hprogress => (by cases hprogress)⟩
    cases hreading.symm.trans hother
    have hstored := hkept.stored reading hreading
    have hup := hlatest latest hprocessed
    cases hredis : reading.fromRedis with
    | true =>
      rw [hredis] at hstored
      simp only [if_true] at hstored ⊢
      split
      · exact hup
      · exact hstored
    | false => exact hup

/-- Of two readings of one store in a row the later is never behind, whatever happens. -/
theorem readKept_reachable (hreach : (detectorSystem Id).Reachable state) :
    Ready state /\ ReadKept state := by
  have hstart : ∀ origin : State Id, Fresh origin -> Ready origin /\ ReadKept origin :=
    fun origin hfresh => ⟨.ofFresh hfresh, .ofFresh hfresh⟩
  have hkeep : ∀ before label after, (detectorSystem Id).Reachable before ->
      Ready before /\ ReadKept before -> (detectorSystem Id).step before label after ->
        Ready after /\ ReadKept after := by
    intro before label after _ hboth hstep
    obtain ⟨hready, hkept⟩ := hboth
    refine ⟨hready.step hstep, ?_⟩
    rcases steady_or_scanStep hready hstep with hsteady | hscan
    · exact hkept.steady hsteady
    · cases hscan with
      | detect redisReady nliAvail cliAvail => exact hkept.detect _ _ _
      | settle hpoint => exact hkept.settle hpoint
      | finish redisReady hpoint => exact hkept.finish hpoint redisReady
  exact hreach.invariant hstart hkeep

/-- The fragment under examination. -/
def current : Point Id -> Option (Examined Id)
  | .examining _ examined => some examined
  | .resolving _ _ (.detecting _ examined _) => some examined
  | _ => none

/-- No pair went unanswered without the examination failing. -/
def Sure (point : Point Id) : Prop :=
  ∀ examined, current point = some examined -> examined.fragOk = true ->
    ∀ outcome ∈ examined.outcomes, outcome ≠ .unanswered

def Ahead (state : State Id) (fragment : Fragment Id) : Prop :=
  Not (AtOrBelow state fragment) /\
    (∀ scan, progress state.point = some scan -> isAfter scan.1 fragment = true) /\
    ∀ other ∈ waiting state.point,
      isAfter (some (watermarkOf other)) fragment = true

instance (state : State Id) (fragment : Fragment Id) : Decidable (Ahead state fragment) := by
  unfold Ahead AtOrBelow
  infer_instance

/-- The steps that pass no fragment over: a fragment that is created or embedded is above
the watermarks and the scan under way, and no call of Gemini fails while a scan judges. -/
def Answered (state : State Id) : Label Id -> Prop
  | .create row => row.due = true -> Ahead state row
  | .embed id =>
    ∀ row ∈ state.fragments.rows, row.id = id -> row.due = false ->
      { row with hasEmbedding := true }.due = true -> Ahead state row
  | .judge _ .thrown _ => False
  | _ => True

instance (state : State Id) (label : Label Id) : Decidable (Answered state label) := by
  apply Label.casesOn (motive := fun label => Decidable (Answered state label)) label
  case judge =>
    intro nli gemini pushed
    cases gemini <;> simp only [Answered] <;> infer_instance
  all_goals
    intros
    simp only [Answered]
    infer_instance

omit [LinearOrder Id] in
theorem sure_of_progress_none {point : Point Id} (hnone : progress point = none) : Sure point := by
  intro examined hcurrent
  cases point with
  | resolving resolution statement caller =>
    cases caller with
    | detecting => cases hnone
    | pending => cases hcurrent
    | superseding => cases hcurrent
  | examining => cases hnone
  | _ => cases hcurrent

omit [LinearOrder Id] in
theorem sure_came {scan : Scan Id} {examined : Examined Id} {outcome : Outcome}
    (hsure : Sure (.examining scan examined)) (houtcome : outcome ≠ .unanswered) :
    Sure (.examining scan (examined.came outcome)) := by
  intro other hother hok came hcame
  cases hother
  rcases mem_append.mp hcame with hold | hnew
  · exact hsure examined rfl hok came hold
  · obtain rfl := mem_singleton.mp hnew
    exact houtcome

omit [LinearOrder Id] in
theorem sure_failed {scan : Scan Id} {examined : Examined Id} (hfailed : examined.fragOk = false) :
    Sure (.examining scan examined) := by
  intro other hother hok
  cases hother
  rw [hfailed] at hok
  cases hok

omit [LinearOrder Id] in
theorem sure_beginResolution {resolution : Resolution Id} {scan : Scan Id} {examined : Examined Id}
    {byNli : Bool} (hsure : Sure (.examining scan examined)) :
    Sure (state.beginResolution resolution (.detecting scan examined byNli)).point := by
  unfold State.beginResolution
  split <;> exact hsure

omit [LinearOrder Id] in
theorem sure_askGemini {scan : Scan Id} {rest : Examined Id} {found : Candidate Id}
    {gemini : GeminiAnswer} {pushed : Bool} (hsure : Sure (.examining scan rest))
    (hgemini : gemini ≠ .thrown) : Sure (state.askGemini scan rest found gemini pushed).point := by
  have hverdict : Sure (.examining scan (rest.came .verdict)) := sure_came hsure (by decide)
  unfold State.askGemini
  split
  · exact sure_came hsure (by decide)
  · cases gemini with
    | answered flag =>
      cases flag with
      | true => exact sure_beginResolution hverdict
      | false => exact hverdict
    | thrown => exact absurd rfl hgemini
    | null => exact sure_failed rfl

theorem sure_judge {found : Candidate Id} {candidates : List (Candidate Id)} {nli : NliAnswer}
    {gemini : GeminiAnswer} {pushed : Bool} (hsure : Sure (.examining scan examined))
    (hgemini : gemini ≠ .thrown) :
    Sure (state.judge scan examined found candidates nli gemini pushed).point := by
  have hrest : Sure (.examining scan { examined with candidates := candidates }) := by
    intro other hother
    cases hother
    exact hsure examined rfl
  unfold State.judge
  cases state.acquirePairCheck examined.newFrag.id found.row.id with
  | none => exact sure_came hrest (by decide)
  | some checked =>
    simp only
    split
    · split
      · exact sure_beginResolution (sure_came hrest (by decide))
      · exact sure_came hrest (by decide)
      · exact sure_failed rfl
      · exact sure_askGemini hrest hgemini
    · exact sure_askGemini hrest hgemini

omit [LinearOrder Id] in
theorem sure_returned {resolution : Resolution Id} {statement : Statement} {caller : Caller Id}
    {point : Point Id} (hsure : Sure (.resolving resolution statement caller))
    (hpoint : point = State.returned caller \/ ∃ next, point = .resolving resolution next caller) :
    Sure point := by
  rcases hpoint with rfl | ⟨next, rfl⟩ <;> cases caller <;> exact hsure

theorem sure_step (hready : Ready before) (hsure : Sure before.point)
    (hanswered : Answered before label) (hstep : step before label = some after) :
    Sure after.point := by
  rcases Option.or_eq_some_iff.mp hstep with hother | ⟨-, hown⟩
  · rw [(others_otherStep hother).point]
    exact hsure
  · by_cases hlabel : Writes label
    · cases writingStep_of_detectorStep hlabel hown with
      | detect redisReady nliAvail cliAvail hpoint =>
        intro examined hcurrent
        simp only [State.detect] at hcurrent
        split at hcurrent <;> cases hcurrent
      | settle hpoint => exact fun examined hcurrent => (by cases hcurrent)
      | finish redisReady hpoint =>
        intro examined hcurrent
        unfold State.finish at hcurrent
        split at hcurrent <;> cases hcurrent
      | @execute resolution statement caller now hpoint =>
        rw [hpoint] at hsure
        exact sure_returned hsure (resolves_execute resolution statement caller now).point
    · have hgoes := (still_detectorStep hready.queued hready.apart hlabel hown).goesOn
      have hleft : progress before.point = none -> Sure after.point := by
        intro hnone
        rcases hgoes with hout | ⟨hsame, -⟩
        · exact sure_of_progress_none hout
        · exact sure_of_progress_none (hsame.trans hnone)
      cases hpoint : before.point with
      | scanning scan =>
        cases label <;> simp only [hpoint, detectorStep, reduceCtorEq] at hown
        case candidates answer =>
          split at hown
          · cases hown
          · split at hown
            · cases hown
              intro examined hcurrent _ outcome hempty
              cases hcurrent
              exact absurd hempty not_mem_nil
            · cases hown
        case finish redisReady => exact absurd trivial hlabel
      | examining scan examined =>
        rw [hpoint] at hsure
        cases label <;> simp only [hpoint, detectorStep, reduceCtorEq] at hown
        case judge nli gemini pushed =>
          split at hown
          · cases hown
          · cases hown
            refine sure_judge hsure ?_
            rintro rfl
            exact hanswered
        case settle => exact absurd trivial hlabel
      | resolving resolution statement caller =>
        cases label <;> simp only [hpoint, detectorStep, reduceCtorEq] at hown
        case execute now => exact absurd trivial hlabel
        case fail requeued =>
          cases hown
          cases caller with
          | detecting scan examined byNli =>
            simp only [State.caught]
            split <;> exact sure_failed rfl
          | pending => exact hleft (by rw [hpoint]; rfl)
          | superseding => exact hleft (by rw [hpoint]; rfl)
      | idle => exact hleft (by rw [hpoint]; rfl)
      | pending => exact hleft (by rw [hpoint]; rfl)
      | asking => exact hleft (by rw [hpoint]; rfl)
      | collecting => exact hleft (by rw [hpoint]; rfl)
      | superseding => exact hleft (by rw [hpoint]; rfl)

structure Grows (before after : State Id) : Prop where
  stays : ∀ row ∈ before.fragments,
    ∃ later ∈ after.fragments, later.id = row.id /\
      later.createdAt = row.createdAt
  inSight : ∀ later ∈ after.fragments, later.due = true ->
    (∃ row ∈ before.fragments, row.due = true /\ row.id = later.id /\
      row.createdAt = later.createdAt) \/ Ahead before later

theorem Grows.of_eq (hfragments : after.fragments = before.fragments) : Grows before after where
  stays row hrow := ⟨row, by rwa [hfragments], rfl, rfl⟩
  inSight later hlater hdue := Or.inl ⟨later, by rwa [<- hfragments], hdue, rfl, rfl⟩

theorem Ahead.congr {row later : Fragment Id} (hid : later.id = row.id)
    (hcreated : later.createdAt = row.createdAt) (hahead : Ahead before row) :
    Ahead before later := by
  have hsame : ∀ watermark, isAfter watermark later = isAfter watermark row :=
    fun watermark => isAfter_congr hid hcreated
  unfold Ahead AtOrBelow at *
  simp only [hsame]
  exact hahead

theorem grows_apply {update : Table.Update (Fragment.id : Fragment Id -> Id) (fun _ => True)}
    (hfragments : after.fragments = before.fragments.apply update)
    (hcreated : ∀ row, (update.image row).createdAt = row.createdAt)
    (hdue : ∀ row ∈ before.fragments, update.select row = true ->
      (update.image row).due = true -> row.due = true \/ Ahead before row) :
    Grows before after where
  stays row hrow := by
    rw [hfragments]
    cases hselect : update.select row with
    | true => exact ⟨_, Table.mem_apply_of_selected hrow hselect, update.keepsKey row, hcreated row⟩
    | false => exact ⟨row, Table.mem_apply_of_unselected hrow hselect, rfl, rfl⟩
  inSight later hlater hsight := by
    rw [hfragments] at hlater
    obtain ⟨row, hrow, ⟨hselect, rfl⟩ | ⟨-, rfl⟩⟩ := Table.mem_apply.mp hlater
    · rcases hdue row hrow hselect hsight with hbefore | hahead
      · exact Or.inl ⟨row, hrow, hbefore, (update.keepsKey row).symm, (hcreated row).symm⟩
      · exact .inr (hahead.congr (update.keepsKey row) (hcreated row))
    · exact Or.inl ⟨later, hrow, hsight, rfl, rfl⟩

theorem grows_otherStep (hanswered : Answered before label)
    (hstep : otherStep before label = some after) : Grows before after := by
  cases label <;> simp only [otherStep, reduceCtorEq, Option.some.injEq] at hstep
  case create new =>
    split at hstep
    · rename_i hfresh
      cases hstep
      constructor
      · intro row hrow
        refine ⟨row, ?_, rfl, rfl⟩
        change row ∈ Table.insert _ _ hfresh trivial
        exact Table.mem_insert.mpr (.inl hrow)
      · intro later hlater hdue
        change later ∈ Table.insert _ _ hfresh trivial at hlater
        rcases Table.mem_insert.mp hlater with hold | rfl
        · exact Or.inl ⟨later, hold, hdue, rfl, rfl⟩
        · exact .inr (hanswered hdue)
    · cases hstep
  case embed id =>
    subst hstep
    refine grows_apply rfl (fun _ => rfl) fun row hrow hselect hdue => ?_
    cases hbefore : row.due with
    | true => exact .inl rfl
    | false =>
      have hid : row.id = id := by simpa [embedRow] using hselect
      exact .inr (hanswered row hrow hid hbefore hdue)
  case review id reviewState =>
    subst hstep
    exact grows_apply rfl (fun _ => rfl) fun row _ _ hdue => .inl hdue
  case closeRow id now =>
    subst hstep
    refine grows_apply rfl (fun _ => rfl) fun row _ _ hdue => ?_
    simp [Fragment.due, closeRow, Fragment.isLive] at hdue
  case relink fromId toId link =>
    subst hstep
    exact .of_eq rfl

theorem grows_execute (resolution : Resolution Id) (statement : Statement) (caller : Caller Id)
    (now : Int) : Grows before (before.execute resolution statement caller now) := by
  cases statement with
  | supersede => exact .of_eq rfl
  | close =>
    have hfragments : (before.execute resolution .close caller now).fragments =
        (before.close resolution now).fragments := by cases resolution <;> rfl
    unfold State.close at hfragments
    split at hfragments
    · refine grows_apply hfragments (fun _ => rfl) fun row _ _ hdue => ?_
      simp [Fragment.due, closeLoser, Fragment.isLive] at hdue
    · exact .of_eq hfragments
  | contradict => cases resolution <;> exact .of_eq rfl

theorem grows_step (hready : Ready before) (hanswered : Answered before label)
    (hstep : step before label = some after) : Grows before after := by
  rcases Option.or_eq_some_iff.mp hstep with hother | ⟨-, hown⟩
  · exact grows_otherStep hanswered hother
  · by_cases hlabel : Writes label
    · cases writingStep_of_detectorStep hlabel hown with
      | detect => exact .of_eq (calm_detect _ _ _).fragments
      | settle => exact .of_eq (calm_settle _ _).fragments
      | finish => exact .of_eq (calm_finish _ _).fragments
      | execute now hpoint => exact grows_execute _ _ _ now
    · exact .of_eq (still_detectorStep hready.queued hready.apart hlabel hown).fragments

/-- Of a scan under way: what is at or below the watermark it would leave is accounted for,
and unless it is held back, so is what comes before the fragments that wait. -/
structure ScanKept (state : State Id) (latest : Option (Watermark Id)) (blocked : Bool)
    (rows : List (Fragment Id)) : Prop where
  settled : ∀ fragment ∈ state.fragments, fragment.due = true ->
    isAfter latest fragment = false -> Accounted state fragment.id
  sorted : rows.Pairwise fun a b => isAfter (some (watermarkOf a)) b = true
  present : ∀ row ∈ rows, ∃ stored ∈ state.fragments,
    stored.id = row.id /\ stored.createdAt = row.createdAt
  before : blocked = false ->
    ∀ fragment ∈ state.fragments, fragment.due = true ->
      Accounted state fragment.id \/ (∃ row ∈ rows, row.id = fragment.id) \/
        ∀ row ∈ rows, isAfter (some (watermarkOf row)) fragment = true

structure WatermarkKept (state : State Id) : Prop where
  counted : ∀ id, state.failureCounts id ≤ failures state id
  passed : NonePassedOver state
  sure : Sure state.point
  scan : ∀ latest blocked, progress state.point = some (latest, blocked) ->
    ScanKept state latest blocked (waiting state.point)

theorem WatermarkKept.ofFresh (hfresh : Fresh state) (hnone : NonePassedOver state) :
    WatermarkKept state where
  counted id := by
    rw [hfresh.failureCounts]
    exact Nat.zero_le _
  passed := hnone
  sure := sure_of_progress_none (by rw [hfresh.point]; rfl)
  scan latest blocked hprogress := by
    rw [hfresh.point] at hprogress
    cases hprogress

theorem Steady.accounted (hsteady : Steady before after) {id : Id} :
    Accounted after id <-> Accounted before id := by
  unfold Accounted failures
  rw [hsteady.turns, hsteady.held]

section

variable (hkept : WatermarkKept before)
include hkept

theorem WatermarkKept.steady (hsteady : Steady before after) (hgrows : Grows before after)
    (hsure : Sure after.point) : WatermarkKept after where
  counted := by
    unfold failures
    rw [hsteady.failureCounts, hsteady.turns]
    exact hkept.counted
  passed := by
    intro later hlater hdue hbelow
    unfold AtOrBelow at hbelow
    rw [hsteady.memoryWatermark, hsteady.contradictionCheckAt] at hbelow
    rw [hsteady.accounted]
    rcases hgrows.inSight later hlater hdue with ⟨row, hrow, hbefore, hid, hcreated⟩ | hahead
    · rw [<- hid]
      refine hkept.passed row hrow hbefore ?_
      unfold AtOrBelow
      rwa [isAfter_congr hid hcreated, isAfter_congr hid hcreated]
    · exact absurd hbelow hahead.1
  sure := hsure
  scan latest blocked hprogress := by
    rcases hsteady.goesOn with hnone | ⟨hsame, hwaiting⟩
    · rw [hnone] at hprogress
      cases hprogress
    · rw [hsame] at hprogress
      have hscan := hkept.scan latest blocked hprogress
      rw [hwaiting]
      constructor
      · intro later hlater hdue hafter
        rw [hsteady.accounted]
        rcases hgrows.inSight later hlater hdue with ⟨row, hrow, hbefore, hid, hcreated⟩ | hahead
        · rw [<- hid]
          exact hscan.settled row hrow hbefore (by rwa [isAfter_congr hid hcreated])
        · rw [hahead.2.1 _ hprogress] at hafter
          cases hafter
      · exact hscan.sorted
      · intro row hrow
        obtain ⟨stored, hstored, hid, hcreated⟩ := hscan.present row hrow
        obtain ⟨later, hlater, hid', hcreated'⟩ := hgrows.stays stored hstored
        exact ⟨later, hlater, hid'.trans hid, hcreated'.trans hcreated⟩
      · intro hblocked later hlater hdue
        rw [hsteady.accounted]
        rcases hgrows.inSight later hlater hdue with ⟨row, hrow, hbefore, hid, hcreated⟩ | hahead
        · have hwas := hscan.before hblocked row hrow hbefore
          rw [hid] at hwas
          simpa only [isAfter_congr hid hcreated] using hwas
        · exact .inr (.inr hahead.2.2)

omit hkept in
theorem atOrBelow_of_reading {redisReady : Bool}
    (hbelow : isAfter (state.readWatermark redisReady).watermark fragment = false) :
    AtOrBelow state fragment := by
  unfold State.readWatermark at hbelow
  split at hbelow
  · rename_i stored hstored
    split at hstored
    · rw [<- hstored] at hbelow
      exact .inr hbelow
    · cases hstored
  · exact .inl hbelow

theorem before_detect {rows : List (Fragment Id)} (redisReady nliAvail cliAvail : Bool)
    (hrows : rows = scanAfter before.fragments (before.readWatermark redisReady).watermark 20)
    (hmem : fragment ∈ before.fragments) (hdue : fragment.due = true) :
    Accounted (before.detect redisReady nliAvail cliAvail) fragment.id \/
      (∃ row ∈ rows, row.id = fragment.id) \/
        ∀ row ∈ rows, isAfter (some (watermarkOf row)) fragment = true := by
  cases hafter : isAfter (before.readWatermark redisReady).watermark fragment with
  | false =>
    rcases hkept.passed fragment hmem hdue (atOrBelow_of_reading hafter) with
      hturn | hfailures | hheld
    · exact .inl (.inl hturn)
    · exact .inl (.inr (.inl hfailures))
    · exact .inl (.inr (.inr (mem_append_right _ hheld)))
  | true =>
    cases hheld : fragment.isReviewHeld with
    | true =>
      by_cases hleft : ∃ row ∈ rows, createdBefore fragment row
      · refine .inl (.inr (.inr (mem_append_left _ ?_)))
        refine mem_map.mpr ⟨fragment, mem_filter.mpr ⟨hmem, ?_⟩, rfl⟩
        rw [hrows] at hleft
        simpa [hheld, hafter] using hleft
      · refine .inr (.inr fun row hrow => ?_)
        exact isAfter_of_not_createdBefore fun hcreated => hleft ⟨row, hrow, hcreated⟩
    | false =>
      have hselect : (fragment.scannable &&
          isAfter (before.readWatermark redisReady).watermark fragment) = true := by
        simp only [Fragment.due, Bool.and_eq_true] at hdue
        simp [Fragment.scannable, hdue, hheld, hafter]
      have hscanned : fragment ∈ rows \/
          ∀ row ∈ rows, createdBefore row fragment := by
        rw [hrows]
        exact Table.mem_selectOrdered_or_before hmem hselect
      rcases hscanned with hrow | hlast
      · exact .inr (Or.inl ⟨fragment, hrow, rfl⟩)
      · by_cases hid : ∃ row ∈ rows, row.id = fragment.id
        · exact .inr (.inl hid)
        · exact .inr (.inr fun row hrow =>
            isAfter_of_createdBefore (hlast row hrow) fun heq => hid ⟨row, hrow, heq⟩)

omit hkept in
theorem progress_detect {redisReady nliAvail cliAvail : Bool} {latest : Option (Watermark Id)}
    {blocked : Bool}
    (hprogress : progress (before.detect redisReady nliAvail cliAvail).point =
      some (latest, blocked)) :
    latest = none /\ waiting (before.detect redisReady nliAvail cliAvail).point =
      scanAfter before.fragments (before.readWatermark redisReady).watermark 20 := by
  simp only [State.detect] at hprogress ⊢
  split at hprogress
  · cases hprogress
  · rename_i hscanned
    rw [if_neg hscanned]
    cases hprogress
    exact ⟨rfl, rfl⟩

theorem WatermarkKept.detect (redisReady nliAvail cliAvail : Bool) :
    WatermarkKept (before.detect redisReady nliAvail cliAvail) where
  counted := hkept.counted
  passed fragment hmem hdue hbelow := by
    rcases hkept.passed fragment hmem hdue hbelow with hturn | hfailures | hheld
    · exact .inl hturn
    · exact .inr (.inl hfailures)
    · exact .inr (.inr (mem_append_right _ hheld))
  sure := by
    intro examined hcurrent
    simp only [State.detect] at hcurrent
    split at hcurrent <;> cases hcurrent
  scan latest blocked hprogress := by
    obtain ⟨rfl, hrows⟩ := progress_detect hprogress
    constructor
    · intro fragment _ _ hafter
      cases hafter
    · rw [hrows]
      exact scanAfter_pairwise _ _
    · intro row hrow
      rw [hrows] at hrow
      exact ⟨row, (mem_scanAfter hrow).1, rfl, rfl⟩
    · exact fun _ fragment hmem hdue =>
        before_detect hkept redisReady nliAvail cliAvail hrows hmem hdue

omit hkept in
theorem accounted_settle_of_accounted {id : Id} (haccounted : Accounted before id) :
    Accounted (before.settle scan examined) id := by
  rcases haccounted with ⟨turn, hturn, hid, hcomplete⟩ | hfailures | hheld
  · exact Or.inl ⟨turn, mem_cons_of_mem _ hturn, hid, hcomplete⟩
  · refine .inr (.inl (hfailures.trans ?_))
    simp only [failures, State.settle, countP_cons]
    exact Nat.le_add_right _ _
  · exact .inr (.inr hheld)

omit hkept in
theorem failures_settle (hfailed : examined.fragOk = false) :
    failures (before.settle scan examined) examined.newFrag.id =
      failures before examined.newFrag.id + 1 := by
  simp [failures, State.settle, hfailed]

theorem accounted_settle (hpoint : before.point = .examining scan examined)
    (hok : (examined.fragOk || decide (3 ≤ before.failureCounts examined.newFrag.id + 1)) = true) :
    Accounted (before.settle scan examined) examined.newFrag.id := by
  cases hfrag : examined.fragOk with
  | true =>
    have hsure := hkept.sure
    rw [hpoint] at hsure
    refine Or.inl ⟨_, mem_cons_self, rfl, ?_, hsure examined rfl hfrag⟩
    rw [hfrag]
    rfl
  | false =>
    have hcounted := hkept.counted examined.newFrag.id
    have hlast : 3 ≤ before.failureCounts examined.newFrag.id + 1 := by simpa [hfrag] using hok
    refine .inr (Or.inl ?_)
    rw [failures_settle hfrag]
    omega

theorem counted_settle (id : Id) : (before.settle scan examined).failureCounts id ≤
      failures (before.settle scan examined) id := by
  have hgrows : failures before id ≤ failures (before.settle scan examined) id := by
    simp only [failures, State.settle, countP_cons]
    exact Nat.le_add_right _ _
  have hcounted := hkept.counted id
  have hcounts : (before.settle scan examined).failureCounts id =
      if id = examined.newFrag.id then
        if examined.fragOk || decide (3 ≤ before.failureCounts examined.newFrag.id + 1) then 0
        else before.failureCounts examined.newFrag.id + 1
      else before.failureCounts id := by
    simp only [State.settle, Function.update_apply]
  rw [hcounts]
  split
  · rename_i hid
    subst hid
    split
    · exact Nat.zero_le _
    · rename_i hok
      have hfailed : examined.fragOk = false := by
        rw [Bool.not_eq_true, Bool.or_eq_false_iff] at hok
        exact hok.1
      rw [failures_settle hfailed]
      omega
  · exact hcounted.trans hgrows

omit hkept in
theorem before_settle
    (hscan : ScanKept before scan.latestProcessed scan.blocked (examined.newFrag :: scan.rest))
    (haccounted : Accounted (before.settle scan examined) examined.newFrag.id)
    (hblocked : scan.blocked = false) (hmem : fragment ∈ before.fragments)
    (hdue : fragment.due = true) :
    Accounted (before.settle scan examined) fragment.id \/
      (∃ row ∈ scan.rest, row.id = fragment.id) \/
        ∀ row ∈ examined.newFrag :: scan.rest,
          isAfter (some (watermarkOf row)) fragment = true := by
  rcases hscan.before hblocked fragment hmem hdue with hwas | ⟨row, hrow, hid⟩ | hlast
  · exact .inl (accounted_settle_of_accounted hwas)
  · rcases mem_cons.mp hrow with rfl | hrest
    · exact .inl (hid ▸ haccounted)
    · exact .inr (Or.inl ⟨row, hrest, hid⟩)
  · exact .inr (.inr hlast)

omit hkept in
theorem settled_settle
    (hscan : ScanKept before scan.latestProcessed scan.blocked (examined.newFrag :: scan.rest))
    (haccounted : Accounted (before.settle scan examined) examined.newFrag.id)
    (hblocked : scan.blocked = false) (hmem : fragment ∈ before.fragments)
    (hdue : fragment.due = true)
    (hbelow : isAfter (some (watermarkOf examined.newFrag)) fragment = false) :
    Accounted (before.settle scan examined) fragment.id := by
  obtain ⟨hfirst, -⟩ := pairwise_cons.mp hscan.sorted
  rcases before_settle hscan haccounted hblocked hmem hdue with hwas | ⟨row, hrow, hid⟩ | hlast
  · exact hwas
  · obtain ⟨stored, hstored, hid', hcreated⟩ :=
      hscan.present row (mem_cons_of_mem _ hrow)
    obtain rfl : stored = fragment :=
      Table.eq_of_key_eq hstored hmem (hid'.trans hid)
    rw [isAfter_congr hid' hcreated, hfirst row hrow] at hbelow
    cases hbelow
  · rw [hlast _ mem_cons_self] at hbelow
    cases hbelow

theorem WatermarkKept.settle (hpoint : before.point = .examining scan examined) :
    WatermarkKept (before.settle scan examined) where
  counted := counted_settle hkept
  passed fragment hmem hdue hbelow :=
    accounted_settle_of_accounted (hkept.passed fragment hmem hdue hbelow)
  sure other hother := by cases hother
  scan latest blocked hprogress := by
    have hscan := hkept.scan scan.latestProcessed scan.blocked (by rw [hpoint]; rfl)
    rw [hpoint] at hscan
    simp only [State.settle, progress, Option.some.injEq, Prod.mk.injEq] at hprogress
    obtain ⟨rfl, rfl⟩ := hprogress
    constructor
    · intro fragment hmem hdue hbelow
      split at hbelow
      · rename_i hmoves
        rw [Bool.and_eq_true, Bool.not_eq_true'] at hmoves
        exact settled_settle hscan (accounted_settle hkept hpoint hmoves.1) hmoves.2 hmem hdue
          hbelow
      · exact accounted_settle_of_accounted (hscan.settled fragment hmem hdue hbelow)
    · exact (pairwise_cons.mp hscan.sorted).2
    · exact fun row hrow => hscan.present row (mem_cons_of_mem _ hrow)
    · intro hblocked fragment hmem hdue
      rw [Bool.or_eq_false_iff, Bool.not_eq_false'] at hblocked
      rcases before_settle hscan (accounted_settle hkept hpoint hblocked.2) hblocked.1 hmem hdue
        with hwas | hrow | hlast
      · exact .inl hwas
      · exact .inr (.inl hrow)
      · exact .inr (.inr fun row hrow => hlast row (mem_cons_of_mem _ hrow))

theorem WatermarkKept.finish (hpoint : before.point = .scanning scan) (redisReady : Bool) :
    WatermarkKept (before.finish scan redisReady) := by
  have hscan := hkept.scan scan.latestProcessed scan.blocked (by rw [hpoint]; rfl)
  unfold State.finish
  split
  · exact
      { counted := hkept.counted
        passed := hkept.passed
        sure := fun _ hcurrent => (by cases hcurrent)
        scan := fun _ _ hprogress => (by cases hprogress) }
  · rename_i latest hlatest
    refine
      { counted := hkept.counted
        passed := fun fragment hmem hdue hbelow => ?_
        sure := fun _ hcurrent => (by cases hcurrent)
        scan := fun _ _ hprogress => (by cases hprogress) }
    have hsettled : isAfter (some latest) fragment = false -> Accounted before fragment.id :=
      fun hafter => hscan.settled fragment hmem hdue (by rwa [hlatest])
    rcases hbelow with hmemory | hredis
    · exact hsettled hmemory
    · simp only at hredis
      split at hredis
      · exact hsettled hredis
      · exact hkept.passed fragment hmem hdue (.inr hredis)

theorem WatermarkKept.step (hready : Ready before) (hanswered : Answered before label)
    (hstep : ContradictionDetector.step before label = some after) : WatermarkKept after := by
  rcases steady_or_scanStep hready hstep with hsteady | hscan
  · exact hkept.steady hsteady (grows_step hready hanswered hstep)
      (sure_step hready hkept.sure hanswered hstep)
  · cases hscan with
    | detect redisReady nliAvail cliAvail => exact hkept.detect _ _ _
    | settle hpoint => exact hkept.settle hpoint
    | finish redisReady hpoint => exact hkept.finish hpoint redisReady

end

/-- Whatever the order of creations, embeddings, scans, verdicts, and failures: of one
store the watermark never moves back, and as long as fragments come into sight ahead of
it and calls of Gemini answer, no live, embedded fragment is passed over. -/
theorem none_passed_over {origin last : State Id} {labels : List (Label Id)} (hfresh : Fresh origin)
    (hnone : NonePassedOver origin)
    (hrun : ((detectorSystem Id).restrict Answered).Run origin labels last) :
    NeverBack last.history.readings /\ NonePassedOver last := by
  have hkeep : ∀ before label after, Ready before /\ WatermarkKept before ->
      ((detectorSystem Id).restrict Answered).step before label after ->
        Ready after /\ WatermarkKept after := by
    rintro before label after ⟨hready, hkept⟩ ⟨hstep, hanswered⟩
    exact ⟨hready.step hstep, hkept.step hready hanswered hstep⟩
  have hlast : Ready last /\ WatermarkKept last :=
    hrun.preserves hkeep ⟨.ofFresh hfresh, .ofFresh hfresh hnone⟩
  exact ⟨(readKept_reachable ⟨origin, labels, hfresh, hrun.ofRestrict⟩).2.back, hlast.2.passed⟩

end

def scanLabels (cliAvail : Bool) : List (Label Nat) :=
  [.detect true false cliAvail,
    .candidates (some [{ row := sampleFragment 2, similarity := 9 / 10 }]),
    .judge .null (.answered false) true, .settle,
    .candidates (some [{ row := sampleFragment 1, similarity := 9 / 10 }]),
    .judge .null (.answered false) true, .settle, .finish true, .detect true false cliAvail]

theorem sampleState_nonePassedOver : NonePassedOver sampleState := by
  rintro fragment - - (hbelow | hbelow) <;> cases hbelow

theorem none_passed_over_two_scans :
    ∃ last labels, (detectorSystem Nat).Run sampleState labels last /\
      last.memoryWatermark = some { instant := 5000, id := some 2 } /\
        NeverBack last.history.readings /\ NonePassedOver last := by
  have hrun : (System.follow (fun before label =>
      if Answered before label then step before label else none) sampleState
        (scanLabels true)).map State.memoryWatermark =
      some (some { instant := 5000, id := some 2 }) := by
    decide +kernel
  obtain ⟨last, hfollow, hwatermark⟩ := Option.map_eq_some_iff.mp hrun
  have hanswered : ((detectorSystem Nat).restrict Answered).Run sampleState (scanLabels true) last
    :=
    .of_follow_restrict (fun _ _ _ hstep => hstep) hfollow
  exact ⟨last, _, hanswered.ofRestrict, hwatermark,
    none_passed_over sampleState_fresh sampleState_nonePassedOver hanswered⟩

/-- Without a judge the watermark goes past fragments whose pairs were put aside. -/
theorem put_aside_passed_over :
    Not (∀ (origin last : State Nat) (labels : List (Label Nat)), Fresh origin ->
      NonePassedOver origin -> (detectorSystem Nat).Run origin labels last ->
        ∀ fragment ∈ last.fragments.rows, fragment.due = true ->
          AtOrBelow last fragment ->
            (∃ turn ∈ last.history.turns, turn.id = fragment.id /\
              turn.EveryVerdict) \/ 3 ≤ failures last fragment.id) := by
  intro hpassed
  have hrun : (System.follow step sampleState (scanLabels false)).map
      (fun last => (last.fragments.rows, last.memoryWatermark, last.history.turns)) =
        some ([sampleFragment 1, sampleFragment 2], some { instant := 5000, id := some 2 },
          [{ id := 2, failed := false, outcomes := [.putAside] },
            { id := 1, failed := false, outcomes := [.putAside] }]) := by
    decide +kernel
  obtain ⟨last, hfollow, hlast⟩ := Option.map_eq_some_iff.mp hrun
  obtain ⟨hrows, hwatermark, hturns⟩ : last.fragments.rows = _ /\ last.memoryWatermark = _ /\
    last.history.turns = _ := by simpa only [Prod.mk.injEq] using hlast
  have hbelow : AtOrBelow last (sampleFragment 1) := .inl (by rw [hwatermark]; decide)
  rcases hpassed sampleState last _ sampleState_fresh sampleState_nonePassedOver
    (.of_follow (fun _ _ _ hstep => hstep) hfollow) (sampleFragment 1)
      (by rw [hrows]; exact mem_cons_self) (by decide +kernel) hbelow with
    ⟨turn, hturn, hid, -, hverdicts⟩ | hfailures
  · rw [hturns] at hturn
    simp only [mem_cons, not_mem_nil, or_false] at hturn
    rcases hturn with rfl | rfl
    · cases hid
    · cases hverdicts .putAside mem_cons_self
  · rw [failures, hturns] at hfailures
    revert hfailures
    decide

end AnchorMind.Link.ContradictionDetector
