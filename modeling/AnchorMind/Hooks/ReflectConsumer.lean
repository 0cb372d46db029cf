import AnchorMind.Idempotency.Store
import AnchorMind.Text.Characters

/-!
# The hook reflection consumer

A delivery of a `hook.reflect` event checks its payload and key, claims the session's
idempotency key, reflects, and records the completion; a failed reflection releases the claim.
The claim is an insert followed, when it is refused, by a separate read.  Any number of
deliveries run over one store, with crashes, lost replies, stale claims, and purges at any
point, and the results say when the answer `done` is earned.
-/

namespace AnchorMind.Hooks.ReflectConsumer

open Kernel.Transition Idempotency.Store Text.Whitespace List

inductive Field where
  | missing
  | null
  | number (value : Int)
  | text (value : String)
  | other
deriving DecidableEq

structure RawPayload where
  v : Field
  client : Field
  event : Field
  sessionId : Field
  keyId : Field
  workspace : Field
  summary : Field

structure ReflectPayload where
  client : String
  event : String
  sessionId : String
  keyId : Option String
  workspace : Option String
  summary : String

def hookPayloadVersion : Int := 1
def hookClients : List String := ["claude-code", "codex"]
def reflectEvents : List String := ["Stop", "SessionEnd"]
def sessionIdMaxLength : Nat := 128
def summaryMaxChars : Nat := 1000

def asciiAlnum (c : Char) : Bool :=
  ('A' ≤ c && c ≤ 'Z') || ('a' ≤ c && c ≤ 'z') || ('0' ≤ c && c ≤ '9')

/-- `SESSION_ID_PATTERN`. -/
def sessionIdPattern (text : String) : Bool :=
  match text.toList with
  | [] => false
  | first :: rest =>
    asciiAlnum first && rest.all fun c =>
      asciiAlnum c || c == '.' || c == '_' || c == ':' || c == '-'

def memberOf (allowed : List String) : Field -> Except Unit String
  | .text value => if allowed.contains value then .ok value else .error ()
  | _ => .error ()

def textOrNull : Field -> Except Unit (Option String)
  | .null => .ok none
  | .text value => .ok (some value)
  | _ => .error ()

def sessionIdOf : Field -> Except Unit String
  | .text value =>
    if value.length ≤ sessionIdMaxLength && sessionIdPattern value then .ok value
    else .error ()
  | _ => .error ()

def summaryOf : Field -> Except Unit String
  | .text value =>
    if !blank value && decide (value.length ≤ summaryMaxChars) then .ok value else .error ()
  | _ => .error ()

/-- Name the field a check refused, as the source's `fault` does. -/
def fault {Value : Type} (field : String) : Except Unit Value -> Except String Value
  | .ok value => .ok value
  | .error _ => .error ("hook.reflect payload field invalid: " ++ field)

def validateHookReflectPayload (payload : RawPayload) : Except String ReflectPayload := do
  fault "v" (if payload.v = .number hookPayloadVersion then .ok () else .error ())
  let client <- fault "client" (memberOf hookClients payload.client)
  let event <- fault "event" (memberOf reflectEvents payload.event)
  let sessionId <- fault "sessionId" (sessionIdOf payload.sessionId)
  let keyId <- fault "keyId" (textOrNull payload.keyId)
  let workspace <- fault "workspace" (textOrNull payload.workspace)
  let summary <- fault "summary" (summaryOf payload.summary)
  return { client, event, sessionId, keyId, workspace, summary }

inductive KeyVerdict where
  | active
  | inactive
  | noWritePermission
  | storeUnavailable
deriving DecidableEq

/-- The master is not checked; a missing store is worth a retry, the rest is not. -/
def confirmKey (keyId : Option String) (verdict : KeyVerdict) : Except (String × Bool) Unit :=
  match keyId with
  | none => .ok ()
  | some _ =>
    match verdict with
    | .active => .ok ()
    | .storeUnavailable => .error ("api key store unavailable", false)
    | .inactive => .error ("hook.reflect key is no longer active", true)
    | .noWritePermission => .error ("hook.reflect key lacks write permission", true)

def hookReflectIdempotencyTool : String := "hook_reflect"
def hookClaimStaleMs : Int := 300000
def hookClaimTtlDays : Nat := 30

structure ReflectEvent where
  id : Nat
  aggregateId : Option String
  payload : RawPayload

structure ReflectResult where
  count : Option Int
  episodes : Option Int

def completionSummary (event : ReflectEvent) (result : ReflectResult) : String :=
  "\x7b\"count\":" ++ toString (result.count.getD 0 + result.episodes.getD 0) ++
    ",\"outboxId\":\"" ++ toString event.id ++ "\"\x7d"

/-- `event.aggregateId.startsWith("hook:")`. -/
def hookAggregate (event : ReflectEvent) : Option String :=
  match event.aggregateId with
  | none => none
  | some aggregateId =>
    if "hook:".toList.isPrefixOf aggregateId.toList then some aggregateId else none

/-- How a delivery can end; the first five are the handler's own metrics. -/
inductive Outcome where
  | rejected
  | duplicate
  | busy
  | failed
  | reflected
  | errored
  | crashed
deriving DecidableEq

def Outcome.withoutError : Outcome -> Bool
  | .duplicate => true
  | .reflected => true
  | _ => false

structure Claim where
  aggregateId : String
  keyId : Option String
  token : Token

def Claim.args (claim : Claim) : ClaimArgs where
  tool := hookReflectIdempotencyTool
  idempotencyKey := claim.aggregateId
  keyId := claim.keyId
  token := claim.token
  staleAfterMs := hookClaimStaleMs
  ttlDays := hookClaimTtlDays

def Claim.key (claim : Claim) : RecordKey := claim.args.key

/-- Where a delivery stands between two steps of the handler. -/
inductive Phase where
  | waiting
  | claiming (claim : Claim)
  | reading (claim : Claim)
  | reflecting (claim : Claim)
  | completing (claim : Claim) (summary : String)
  | releasing (claim : Claim)
  | ended (claim : Option Claim) (outcome : Outcome)

structure State (Delivery : Type) where
  now : Int
  records : Records
  phase : Delivery -> Phase
  /-- The deliveries whose reflection ran to its end. -/
  reflected : List Delivery
  /-- The deliveries whose completion took effect, with their keys. -/
  completed : List (RecordKey × Delivery)

inductive Label (Delivery : Type) where
  | tick (elapsed : Nat)
  | purge
  | accept (delivery : Delivery) (verdict : KeyVerdict) (token : Token)
  | reject (delivery : Delivery) (verdict : KeyVerdict)
  | claim (delivery : Delivery)
  | read (delivery : Delivery)
  | reflect (delivery : Delivery) (result : ReflectResult)
  | reflectFails (delivery : Delivery)
  | complete (delivery : Delivery)
  | release (delivery : Delivery)
  | storeError (delivery : Delivery) (executed : Bool)
  | crash (delivery : Delivery)

variable {Delivery : Type}

def State.setPhase [DecidableEq Delivery] (state : State Delivery) (delivery : Delivery)
    (phase : Phase) : State Delivery :=
  { state with phase := Function.update state.phase delivery phase }

def State.afterClaim [DecidableEq Delivery] (state : State Delivery) (delivery : Delivery)
    (claim : Claim) : State Delivery :=
  { state with
    records := state.records.atKey claim.key (claimCell state.now claim.args)
    phase := Function.update state.phase delivery
      (if claimGranted state.now claim.args (state.records claim.key) then .reflecting claim
      else .reading claim) }

def answerPhase (claim : Claim) (old : Option Record) : Phase :=
  match claimAnswer old with
  | .busy => .ended (some claim) .busy
  | _ => .ended (some claim) .duplicate

def completeStatement (state : State Delivery) (delivery : Delivery) (claim : Claim)
    (summary : String) : State Delivery :=
  { state with
    records := state.records.atKey claim.key (completeCell claim.token summary)
    completed :=
      if heldBy claim.token (state.records claim.key) then
        (claim.key, delivery) :: state.completed
      else state.completed }

def releaseStatement (state : State Delivery) (claim : Claim) : State Delivery :=
  { state with records := state.records.atKey claim.key (releaseCell claim.token) }

def lostStatement (state : State Delivery) (delivery : Delivery) : State Delivery :=
  match state.phase delivery with
  | .claiming claim =>
    { state with records := state.records.atKey claim.key (claimCell state.now claim.args) }
  | .completing claim summary => completeStatement state delivery claim summary
  | .releasing claim => releaseStatement state claim
  | _ => state

def storeErrorOutcome : Phase -> Option (Option Claim × Outcome)
  | .claiming claim => some (some claim, .errored)
  | .reading claim => some (some claim, .errored)
  | .completing claim _ => some (some claim, .errored)
  | .releasing claim => some (some claim, .failed)
  | _ => none

inductive Step [DecidableEq Delivery] (events : Delivery -> ReflectEvent) :
    State Delivery -> Label Delivery -> State Delivery -> Prop where
  | tick (state : State Delivery) (elapsed : Nat) :
      Step events state (.tick elapsed) { state with now := state.now + elapsed }
  | purge (state : State Delivery) :
      Step events state .purge { state with records := purgeExpired state.now state.records }
  | accept (state : State Delivery) (delivery : Delivery) (verdict : KeyVerdict) (token : Token)
      (payload : ReflectPayload) (aggregateId : String)
      (hphase : state.phase delivery = .waiting)
      (hpayload : validateHookReflectPayload (events delivery).payload = .ok payload)
      (hkey : confirmKey payload.keyId verdict = .ok ())
      (haggregate : hookAggregate (events delivery) = some aggregateId) :
      Step events state (.accept delivery verdict token)
        (state.setPhase delivery
          (.claiming { aggregateId := aggregateId, keyId := payload.keyId, token := token }))
  | reject (state : State Delivery) (delivery : Delivery) (verdict : KeyVerdict)
      (outcome : Outcome) (hphase : state.phase delivery = .waiting)
      (hreject : (∃ message,
          validateHookReflectPayload (events delivery).payload = .error message /\
            outcome = .rejected) \/
        ∃ payload, validateHookReflectPayload (events delivery).payload = .ok payload /\
          ((∃ message permanent,
              confirmKey payload.keyId verdict = .error (message, permanent) /\
                outcome = if permanent then .rejected else .errored) \/
            (confirmKey payload.keyId verdict = .ok () /\
              hookAggregate (events delivery) = none /\ outcome = .rejected))) :
      Step events state (.reject delivery verdict)
        (state.setPhase delivery (.ended none outcome))
  | claim (state : State Delivery) (delivery : Delivery) (claim : Claim)
      (hphase : state.phase delivery = .claiming claim) :
      Step events state (.claim delivery) (state.afterClaim delivery claim)
  | read (state : State Delivery) (delivery : Delivery) (claim : Claim)
      (hphase : state.phase delivery = .reading claim) :
      Step events state (.read delivery)
        (state.setPhase delivery (answerPhase claim (state.records claim.key)))
  | reflect (state : State Delivery) (delivery : Delivery) (claim : Claim)
      (result : ReflectResult) (hphase : state.phase delivery = .reflecting claim) :
      Step events state (.reflect delivery result)
        { state.setPhase delivery
            (.completing claim (completionSummary (events delivery) result)) with
          reflected := delivery :: state.reflected }
  | reflectFails (state : State Delivery) (delivery : Delivery) (claim : Claim)
      (hphase : state.phase delivery = .reflecting claim) :
      Step events state (.reflectFails delivery) (state.setPhase delivery (.releasing claim))
  | complete (state : State Delivery) (delivery : Delivery) (claim : Claim) (summary : String)
      (hphase : state.phase delivery = .completing claim summary) :
      Step events state (.complete delivery)
        ((completeStatement state delivery claim summary).setPhase delivery
          (.ended (some claim) .reflected))
  | release (state : State Delivery) (delivery : Delivery) (claim : Claim)
      (hphase : state.phase delivery = .releasing claim) :
      Step events state (.release delivery)
        ((releaseStatement state claim).setPhase delivery (.ended (some claim) .failed))
  | storeError (state : State Delivery) (delivery : Delivery) (executed : Bool)
      (claim : Option Claim) (outcome : Outcome)
      (hphase : storeErrorOutcome (state.phase delivery) = some (claim, outcome)) :
      Step events state (.storeError delivery executed)
        ((if executed then lostStatement state delivery else state).setPhase delivery
          (.ended claim outcome))
  | crash (state : State Delivery) (delivery : Delivery) :
      Step events state (.crash delivery) (state.setPhase delivery (.ended none .crashed))

def deliverySystem [DecidableEq Delivery] (events : Delivery -> ReflectEvent) :
    System (State Delivery) (Label Delivery) where
  start := fun state => (∀ key, state.records key = none) /\
    (∀ delivery, state.phase delivery = .waiting) /\
    state.reflected = [] /\ state.completed = []
  step := Step events

def Earned (state : State Delivery) (key : RecordKey) : Prop :=
  ∃ holder, (key, holder) ∈ state.completed /\ holder ∈ state.reflected

/-- A delivery that was answered `done` follows a completion of its key, and a
delivery that ends without an error reflected itself or follows one that did. -/
def DoneIsEarned (state : State Delivery) : Prop :=
  (∀ delivery claim, state.phase delivery = .ended (some claim) .duplicate ->
    Earned state claim.key) /\
  ∀ delivery claim outcome, state.phase delivery = .ended claim outcome ->
    outcome.withoutError = true ->
      delivery ∈ state.reflected \/
        ∃ held, claim = some held /\ Earned state held.key

def ReadsFindRecord (state : State Delivery) : Label Delivery -> Prop
  | .read delivery => ∀ claim, state.phase delivery = .reading claim ->
      state.records claim.key ≠ none
  | _ => True

structure Reflects (state : State Delivery) : Prop where
  doneEarned : ∀ key record summary, state.records key = some record ->
    record.response = .done summary -> Earned state key
  completing : ∀ delivery claim summary,
    state.phase delivery = .completing claim summary -> delivery ∈ state.reflected
  duplicate : ∀ delivery claim outcome, state.phase delivery = .ended claim outcome ->
    outcome = .duplicate -> ∃ held, claim = some held /\ Earned state held.key
  ended : ∀ delivery claim, state.phase delivery = .ended claim .reflected ->
    delivery ∈ state.reflected

section

variable {state : State Delivery}

theorem Earned.mono {after : State Delivery} {key : RecordKey} (hearned : Earned state key)
    (hreflected : state.reflected ⊆ after.reflected)
    (hcompleted : state.completed ⊆ after.completed) : Earned after key := by
  obtain ⟨holder, hholder, hran⟩ := hearned
  exact ⟨holder, hcompleted hholder, hreflected hran⟩

section

variable (hreflects : Reflects state)
include hreflects

theorem Reflects.changeRecords {records : Records}
    (hrecords : ∀ key record summary, records key = some record ->
      record.response = .done summary -> state.records key = some record) :
    Reflects { state with records := records } :=
  ⟨fun key record summary hrecord hdone =>
      hreflects.doneEarned key record summary (hrecords key record summary hrecord hdone) hdone,
    hreflects.completing, hreflects.duplicate, hreflects.ended⟩

theorem Reflects.purge :
    Reflects { state with records := purgeExpired state.now state.records } := by
  refine hreflects.changeRecords fun key record summary hrecord _ => ?_
  exact (Option.filter_eq_some_iff.mp hrecord).1

theorem Reflects.claimRecords (claim : Claim) :
    Reflects { state with
      records := state.records.atKey claim.key (claimCell state.now claim.args) } := by
  refine hreflects.changeRecords fun key record summary hrecord hdone => ?_
  by_cases hkey : key = claim.key
  · subst hkey
    rw [atKey_self, claimCell] at hrecord
    by_cases hgranted : claimGranted state.now claim.args (state.records claim.key) = true
    · rw [if_pos hgranted] at hrecord
      rw [← Option.some.inj hrecord] at hdone
      cases hdone
    · rwa [if_neg hgranted] at hrecord
  · rwa [atKey_of_ne hkey] at hrecord

theorem Reflects.release (claim : Claim) : Reflects (releaseStatement state claim) := by
  refine hreflects.changeRecords fun key record summary hrecord hdone => ?_
  by_cases hkey : key = claim.key
  · subst hkey
    rw [atKey_self, releaseCell] at hrecord
    by_cases hheld : heldBy claim.token (state.records claim.key) = true
    · rw [if_pos hheld] at hrecord
      cases hrecord
    · rwa [if_neg hheld] at hrecord
  · rwa [atKey_of_ne hkey] at hrecord

omit hreflects in
theorem completed_subset (delivery : Delivery) (claim : Claim) (summary : String) :
    state.completed ⊆ (completeStatement state delivery claim summary).completed := by
  intro entry hentry
  change entry ∈ (if heldBy claim.token (state.records claim.key) then
    (claim.key, delivery) :: state.completed else state.completed)
  by_cases hheld : heldBy claim.token (state.records claim.key) = true
  · rw [if_pos hheld]
    exact mem_cons_of_mem _ hentry
  · rwa [if_neg hheld]

variable {delivery : Delivery}

theorem Reflects.complete (claim : Claim) (summary : String) (hran : delivery ∈ state.reflected) :
    Reflects (completeStatement state delivery claim summary) := by
  have hmono : ∀ key, Earned state key ->
      Earned (completeStatement state delivery claim summary) key := fun _ hearned =>
    hearned.mono (Subset.refl _) (completed_subset delivery claim summary)
  refine ⟨?_, hreflects.completing, ?_, hreflects.ended⟩
  · intro key record text hrecord hdone
    by_cases hkey : key = claim.key
    · subst hkey
      change state.records.atKey claim.key (completeCell claim.token summary) claim.key =
        some record at hrecord
      rw [atKey_self, completeCell] at hrecord
      by_cases hheld : heldBy claim.token (state.records claim.key) = true
      · refine ⟨delivery, ?_, hran⟩
        change (claim.key, delivery) ∈ (if heldBy claim.token (state.records claim.key) then
          (claim.key, delivery) :: state.completed else state.completed)
        rw [if_pos hheld]
        exact mem_cons_self
      · rw [if_neg hheld] at hrecord
        exact hmono claim.key (hreflects.doneEarned claim.key record text hrecord hdone)
    · change state.records.atKey claim.key (completeCell claim.token summary) key =
        some record at hrecord
      rw [atKey_of_ne hkey] at hrecord
      exact hmono key (hreflects.doneEarned key record text hrecord hdone)
  · intro other held outcome hphase houtcome
    obtain ⟨claimed, hclaimed, hearned⟩ := hreflects.duplicate other held outcome hphase houtcome
    exact ⟨claimed, hclaimed, hmono claimed.key hearned⟩

theorem Reflects.lost (delivery : Delivery) : Reflects (lostStatement state delivery) := by
  unfold lostStatement
  cases hphase : state.phase delivery with
  | claiming claim => exact hreflects.claimRecords claim
  | completing claim summary =>
    exact hreflects.complete claim summary (hreflects.completing delivery claim summary hphase)
  | releasing claim => exact hreflects.release claim
  | waiting => exact hreflects
  | reading _ => exact hreflects
  | reflecting _ => exact hreflects
  | ended _ _ => exact hreflects

/-- With its record present, a refused claim is answered `done` only off a done
record. -/
theorem Reflects.answer {claim : Claim} (hpresent : state.records claim.key ≠ none)
    {held : Option Claim} {outcome : Outcome}
    (hanswer : answerPhase claim (state.records claim.key) = .ended held outcome) :
    (outcome = .duplicate -> ∃ found, held = some found /\ Earned state found.key) /\
      outcome ≠ .reflected := by
  match hrecord : state.records claim.key, hpresent with
  | some ⟨.claimed token, keyId, createdAt, expiresAt⟩, _ =>
    rw [hrecord] at hanswer
    cases hanswer
    exact ⟨nofun, nofun⟩
  | some ⟨.done summary, keyId, createdAt, expiresAt⟩, _ =>
    have hearned := hreflects.doneEarned claim.key _ summary hrecord rfl
    rw [hrecord] at hanswer
    cases hanswer
    exact ⟨fun _ => ⟨claim, rfl, hearned⟩, nofun⟩

variable [DecidableEq Delivery]

omit hreflects in
theorem setPhase_phase (delivery other : Delivery) (phase : Phase) :
    (state.setPhase delivery phase).phase other =
      if other = delivery then phase else state.phase other :=
  Function.update_apply ..

theorem Reflects.setPhase {phase : Phase}
    (hcompleting : ∀ claim summary, phase = .completing claim summary ->
      delivery ∈ state.reflected)
    (hduplicate : ∀ claim outcome, phase = .ended claim outcome -> outcome = .duplicate ->
      ∃ held, claim = some held /\ Earned state held.key)
    (hended : ∀ claim, phase = .ended claim .reflected -> delivery ∈ state.reflected) :
    Reflects (state.setPhase delivery phase) := by
  refine ⟨hreflects.doneEarned, ?_, ?_, ?_⟩
  · intro other claim summary hphase
    rw [setPhase_phase] at hphase
    by_cases hother : other = delivery
    · subst hother
      exact hcompleting claim summary (by simpa using hphase)
    · exact hreflects.completing other claim summary (by simpa [hother] using hphase)
  · intro other claim outcome hphase
    rw [setPhase_phase] at hphase
    by_cases hother : other = delivery
    · exact hduplicate claim outcome (by simpa [hother] using hphase)
    · exact hreflects.duplicate other claim outcome (by simpa [hother] using hphase)
  · intro other claim hphase
    rw [setPhase_phase] at hphase
    by_cases hother : other = delivery
    · subst hother
      exact hended claim (by simpa using hphase)
    · exact hreflects.ended other claim (by simpa [hother] using hphase)

end

end

theorem answerPhase_ended (claim : Claim) (old : Option Record) :
    ∃ outcome, answerPhase claim old = .ended (some claim) outcome := by
  unfold answerPhase
  cases claimAnswer old with
  | claimed => exact ⟨.duplicate, rfl⟩
  | done => exact ⟨.duplicate, rfl⟩
  | busy => exact ⟨.busy, rfl⟩

theorem storeErrorOutcome_error {phase : Phase} {claim : Option Claim} {outcome : Outcome}
    (houtcome : storeErrorOutcome phase = some (claim, outcome)) :
    outcome ≠ .duplicate /\ outcome ≠ .reflected := by
  cases phase <;> cases houtcome <;> exact ⟨nofun, nofun⟩

section

variable [DecidableEq Delivery] {events : Delivery -> ReflectEvent}
  {state after : State Delivery} {label : Label Delivery}

theorem Reflects.step (hreflects : Reflects state) (hstep : Step events state label after)
    (hreads : ReadsFindRecord state label) : Reflects after := by
  cases hstep with
  | tick elapsed =>
    exact ⟨hreflects.doneEarned, hreflects.completing, hreflects.duplicate, hreflects.ended⟩
  | purge => exact hreflects.purge
  | accept delivery verdict token payload aggregateId hphase hpayload hkey haggregate =>
    exact hreflects.setPhase nofun nofun nofun
  | reject delivery verdict outcome hphase hreject =>
    have hrejected : outcome = .rejected \/ outcome = .errored := by
      rcases hreject with ⟨_, _, rfl⟩ | ⟨_, _, ⟨_, permanent, _, rfl⟩ | ⟨_, _, rfl⟩⟩
      · exact .inl rfl
      · cases permanent
        · exact .inr rfl
        · exact .inl rfl
      · exact .inl rfl
    refine hreflects.setPhase nofun (fun claim found hfound hduplicate => ?_)
      (fun claim hfound => ?_)
    · cases hfound
      subst hduplicate
      rcases hrejected with h | h <;> cases h
    · cases hfound
      rcases hrejected with h | h <;> cases h
  | claim delivery claim hphase =>
    refine Reflects.setPhase (hreflects.claimRecords claim) ?_ ?_ ?_
    · intro found summary hfound
      split at hfound <;> cases hfound
    · intro found outcome hfound
      split at hfound <;> cases hfound
    · intro found hfound
      split at hfound <;> cases hfound
  | read delivery claim hphase =>
    have hpresent := hreads claim hphase
    obtain ⟨outcome, hanswer⟩ := answerPhase_ended claim (state.records claim.key)
    refine hreflects.setPhase ?_ ?_ ?_
    · intro found summary hfound
      rw [hanswer] at hfound
      cases hfound
    · intro found result hfound hduplicate
      exact (hreflects.answer hpresent hfound).1 hduplicate
    · intro found hfound
      exact absurd rfl (hreflects.answer hpresent hfound).2
  | reflect delivery claim result hphase =>
    have hgrown : Reflects { state with reflected := delivery :: state.reflected } := by
      refine ⟨?_, ?_, ?_, ?_⟩
      · intro key record summary hrecord hdone
        exact (hreflects.doneEarned key record summary hrecord hdone).mono
          (subset_cons_self _ _) (Subset.refl _)
      · exact fun other held summary hother =>
          mem_cons_of_mem _ (hreflects.completing other held summary hother)
      · intro other held outcome hother hduplicate
        obtain ⟨found, hfound, hearned⟩ :=
          hreflects.duplicate other held outcome hother hduplicate
        exact ⟨found, hfound, hearned.mono (subset_cons_self _ _) (Subset.refl _)⟩
      · exact fun other held hother => mem_cons_of_mem _ (hreflects.ended other held hother)
    exact hgrown.setPhase (fun _ _ _ => mem_cons_self) nofun nofun
  | reflectFails delivery claim hphase => exact hreflects.setPhase nofun nofun nofun
  | complete delivery claim summary hphase =>
    have hran := hreflects.completing delivery claim summary hphase
    exact (hreflects.complete claim summary hran).setPhase nofun
      (fun _ _ hfound hduplicate => by cases hfound; cases hduplicate) (fun _ _ => hran)
  | release delivery claim hphase =>
    exact (hreflects.release claim).setPhase nofun
      (fun _ _ hfound hduplicate => by cases hfound; cases hduplicate)
      (fun _ hfound => by cases hfound)
  | storeError delivery executed claim outcome houtcome =>
    obtain ⟨hduplicate, hreflected⟩ := storeErrorOutcome_error houtcome
    have hlost : Reflects (if executed then lostStatement state delivery else state) := by
      cases executed with
      | true => exact hreflects.lost delivery
      | false => exact hreflects
    exact hlost.setPhase nofun
      (fun _ _ hfound hsame => by cases hfound; exact absurd hsame hduplicate)
      (fun _ hfound => by cases hfound; exact absurd rfl hreflected)
  | crash delivery =>
    exact hreflects.setPhase nofun
      (fun _ _ hfound hduplicate => by cases hfound; cases hduplicate)
      (fun _ hfound => by cases hfound)

/-- In every run whose reads after a refused insert find the record, the answer
`done` is earned, and a delivery that ends without an error reflected or follows
one that did. -/
theorem done_earned_of_readsFindRecord
    (hreach : ((deliverySystem events).restrict ReadsFindRecord).Reachable state) :
    DoneIsEarned state := by
  have hreflects : Reflects state := by
    refine hreach.invariant ?_ (fun before label after _ hinv hstep =>
      hinv.step hstep.1 hstep.2)
    rintro origin ⟨hrecords, hphase, hreflected, hcompleted⟩
    refine ⟨?_, ?_, ?_, ?_⟩
    · intro key record summary hrecord
      rw [hrecords key] at hrecord
      cases hrecord
    · intro delivery claim summary hfound
      rw [hphase delivery] at hfound
      cases hfound
    · intro delivery claim outcome hfound
      rw [hphase delivery] at hfound
      cases hfound
    · intro delivery claim hfound
      rw [hphase delivery] at hfound
      cases hfound
  refine ⟨?_, ?_⟩
  · intro delivery claim hphase
    obtain ⟨held, hheld, hearned⟩ := hreflects.duplicate delivery (some claim) _ hphase rfl
    cases hheld
    exact hearned
  · intro delivery claim outcome hphase hwithoutError
    cases outcome with
    | duplicate => exact .inr (hreflects.duplicate delivery claim _ hphase rfl)
    | reflected => exact .inl (hreflects.ended delivery claim hphase)
    | rejected => cases hwithoutError
    | busy => cases hwithoutError
    | failed => cases hwithoutError
    | errored => cases hwithoutError
    | crashed => cases hwithoutError

end

def sessionPayload : RawPayload where
  v := .number 1
  client := .text "codex"
  event := .text "Stop"
  sessionId := .text "s1"
  keyId := .null
  workspace := .null
  summary := .text "done"

def sessionEvents (_ : Bool) : ReflectEvent where
  id := 1
  aggregateId := some "hook:s1"
  payload := sessionPayload

def sessionClaim (token : Token) : Claim where
  aggregateId := "hook:s1"
  keyId := none
  token := token

def noCounts : ReflectResult where
  count := none
  episodes := none

def quietState : State Bool where
  now := 0
  records := fun _ => none
  phase := fun _ => .waiting
  reflected := []
  completed := []

def refusedState : State Bool :=
  (((quietState.setPhase false (.claiming (sessionClaim 0))).setPhase true
    (.claiming (sessionClaim 1))).afterClaim false (sessionClaim 0)).afterClaim true
      (sessionClaim 1)

/-- The first delivery's reflection failed, and it released its claim before the
second read the record. -/
def releasedState : State Bool :=
  (releaseStatement (refusedState.setPhase false (.releasing (sessionClaim 0)))
    (sessionClaim 0)).setPhase false (.ended (some (sessionClaim 0)) .failed)

/-- The second delivery takes the missing record for a finished one. -/
def droppedState : State Bool :=
  releasedState.setPhase true (answerPhase (sessionClaim 1)
    (releasedState.records (sessionClaim 1).key))

def reflectedState : State Bool :=
  { refusedState.setPhase false
      (.completing (sessionClaim 0) (completionSummary (sessionEvents false) noCounts)) with
    reflected := [false] }

/-- The first delivery completed before the second read the record. -/
def completedState : State Bool :=
  (completeStatement reflectedState false (sessionClaim 0)
    (completionSummary (sessionEvents false) noCounts)).setPhase false
      (.ended (some (sessionClaim 0)) .reflected)

def duplicateState : State Bool :=
  completedState.setPhase true (answerPhase (sessionClaim 1)
    (completedState.records (sessionClaim 1).key))

def refusedLabels : List (Label Bool) :=
  [.accept false .active 0, .accept true .active 1, .claim false, .claim true]

theorem refusedState_run :
    ((deliverySystem sessionEvents).restrict ReadsFindRecord).Run quietState refusedLabels
      refusedState := by
  refine .cons ⟨.accept quietState false .active 0
    { client := "codex", event := "Stop", sessionId := "s1", keyId := none, workspace := none,
      summary := "done" } "hook:s1" rfl rfl rfl rfl, trivial⟩ ?_
  refine .cons ⟨.accept _ true .active 1
    { client := "codex", event := "Stop", sessionId := "s1", keyId := none, workspace := none,
      summary := "done" } "hook:s1" rfl rfl rfl rfl, trivial⟩ ?_
  refine .cons ⟨.claim _ false (sessionClaim 0) rfl, trivial⟩ ?_
  exact .single ⟨.claim _ true (sessionClaim 1) rfl, trivial⟩

theorem quietState_start : (deliverySystem sessionEvents).start quietState :=
  ⟨fun _ => rfl, fun _ => rfl, rfl, rfl⟩

/-- A release between the refused insert and its read makes the answer `done`
unearned: no delivery of the session reflected. -/
theorem done_unearned_after_release :
    ¬ ∀ (events : Bool -> ReflectEvent) (state : State Bool),
      (deliverySystem events).Reachable state -> DoneIsEarned state := by
  intro hearned
  have hrun : (deliverySystem sessionEvents).Run refusedState
      [.reflectFails false, .release false, .read true] droppedState := by
    refine .cons (.reflectFails refusedState false (sessionClaim 0) rfl) ?_
    refine .cons (.release _ false (sessionClaim 0) rfl) ?_
    exact .single (.read releasedState true (sessionClaim 1) rfl)
  have hreach : (deliverySystem sessionEvents).Reachable droppedState :=
    ((System.Reachable.ofStart quietState_start).run refusedState_run.ofRestrict).run hrun
  obtain ⟨holder, hholder, _⟩ :=
    (hearned sessionEvents droppedState hreach).1 true (sessionClaim 1) rfl
  cases hholder

/-- A completion between the two is read off its record, and the answer `done`
is earned. -/
theorem done_earned_after_completion : DoneIsEarned duplicateState := by
  have hrefused : ((deliverySystem sessionEvents).restrict ReadsFindRecord).Reachable
      refusedState := ⟨quietState, refusedLabels, quietState_start, refusedState_run⟩
  apply done_earned_of_readsFindRecord
  suffices hrun : ((deliverySystem sessionEvents).restrict ReadsFindRecord).Run refusedState
      [.reflect false noCounts, .complete false, .read true] duplicateState from
    hrefused.run hrun
  refine .cons ⟨.reflect refusedState false (sessionClaim 0) noCounts rfl, trivial⟩ ?_
  refine .cons ⟨.complete reflectedState false (sessionClaim 0)
    (completionSummary (sessionEvents false) noCounts) rfl, trivial⟩ ?_
  refine .single ⟨.read completedState true (sessionClaim 1) rfl, ?_⟩
  intro claim hphase
  cases hphase
  exact nofun

end AnchorMind.Hooks.ReflectConsumer
