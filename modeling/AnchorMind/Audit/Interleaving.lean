import AnchorMind.Audit.Retention

/-!
# Verifying while the chain grows and is cleaned up

Whatever the order of the steps, the table stays chained and each source event has one row.
A verification reads without a lock, and a cleanup between two of its reads may delete what
the next read starts from; a verification that no cleanup overtakes never reports a break.
-/

namespace AnchorMind.Audit

open Text.JsonText List
open Text.Numbers (wholeNumber)
open Kernel.Transition

variable {hash : String -> String} {before after : Database}

def Database.undisturbed (database : Database) : Event -> Bool
  | .append _ _ _ _ => true
  | .cleanup cutoff limit _ _ _ =>
    match boundaryRow database.rows cutoff limit with
    | none => true
    | some boundary => database.verifications.all fun phase => phase.spares boundary.seq
  | .verify _ => true
  | .advance verification =>
    match database.verifications[verification]?, database.rows.getLast? with
    | some (.requested options), some last =>
      options.fromSeq.all fun fromSeq => decide (fromSeq ≤ last.seq + 1)
    | _, _ => true

theorem tableSound_initial (hash : String -> String) : TableSound hash [] 1 genesisHash where
  chained := trivial
  anchor := .inl ⟨rfl, rfl⟩
  sources := nodup_nil
  passed := by
    intro row hmem
    cases hmem
  prevHash_ne := by decide

inductive TableStep (hash : String -> String) (before after : List AuditRow) (seq : Nat)
    (prevHash : String) (event : Event) : Prop where
  | grown (hgrown : ∃ more, after = before ++ more)
      (hsound : TableSound hash after seq prevHash)
  | cut {cutoff : Int} {limit retentionDays : Nat} {clock occurredAt : Int}
      {boundary row : AuditRow} {gone kept : List AuditRow}
      (hevent : event = .cleanup cutoff limit retentionDays clock occurredAt)
      (hboundary : boundaryRow before cutoff limit = some boundary)
      (hbefore : before = gone ++ boundary :: kept) (hafter : after = kept ++ [row])
      (hsound : TableSound hash after (boundary.seq + 1) boundary.rowHash)

section

variable (hhash : ∀ text, hash text ≠ "")
include hhash

theorem tableStep {seq : Nat} {prevHash : String} {event : Event}
    (hsound : TableSound hash before.rows seq prevHash)
    (hstep : before.step hash event = some after) :
    TableStep hash before.rows after.rows seq prevHash event := by
  have hsame : ∀ rows, rows = before.rows -> TableStep hash before.rows rows seq prevHash event :=
    by
    rintro rows rfl
    exact .grown ⟨[], (append_nil _).symm⟩ hsound
  cases event with
  | append topic id record clock =>
    cases hstep
    cases hrows : appendLocked hash before.rows (.event topic id record) clock with
    | error error => exact hsame _ rfl
    | ok rows =>
      obtain ⟨hgrown, hsound⟩ := hsound.append hrows
      exact .grown hgrown hsound
  | cleanup cutoff limit retentionDays clock occurredAt =>
    cases hstep
    cases hrows : Audit.cleanup hash before.rows cutoff limit retentionDays clock occurredAt with
    | error error => exact hsame _ rfl
    | ok rows =>
      rcases hsound.cleanup hhash hrows with
        hkept | ⟨boundary, gone, kept, row, hboundary, hbefore, hafter, hsound⟩
      · exact hsame _ hkept
      · exact .cut rfl hboundary hbefore hafter hsound
  | verify options =>
    cases hstep
    exact hsame _ rfl
  | advance verification =>
    obtain ⟨phase, _, rfl⟩ := Option.map_eq_some_iff.mp hstep
    exact hsame _ rfl

theorem tableSound_of_reachable {database : Database} (hreach : (system hash).Reachable database) :
    ∃ seq prevHash, TableSound hash database.rows seq prevHash := by
  obtain ⟨origin, labels, rfl, hrun⟩ := hreach
  let Inv : Database -> Prop := fun database =>
    exists seq prevHash, TableSound hash database.rows seq prevHash
  have hkeep : ∀ before event after, Inv before -> (system hash).step before event after ->
      Inv after := by
    rintro before event after ⟨seq, prevHash, hsound⟩ hstep
    rcases tableStep hhash hsound hstep with ⟨_, hsound⟩ | ⟨_, _, _, _, hsound⟩
    · exact ⟨seq, prevHash, hsound⟩
    · exact ⟨_, _, hsound⟩
  exact hrun.preserves hkeep ⟨1, genesisHash, tableSound_initial hash⟩

def InStepWith (hash : String -> String) (database : Database) : Prop :=
  ∃ seq prevHash, TableSound hash database.rows seq prevHash /\
    ∀ phase ∈ database.verifications, InPhase hash database.rows seq prevHash phase

theorem InStepWith.step {event : Event} (hinv : InStepWith hash before)
    (hstep : before.step hash event = some after) (hundisturbed : before.undisturbed event = true) :
    InStepWith hash after := by
  obtain ⟨seq, prevHash, hsound, hphases⟩ := hinv
  cases event with
  | append topic id record clock =>
    have htable := tableStep hhash hsound hstep
    cases hstep
    cases htable with
    | grown hgrown hafter =>
      obtain ⟨more, hmore⟩ := hgrown
      refine ⟨seq, prevHash, hafter, fun phase hmem => ?_⟩
      rw [hmore]
      exact (hphases phase hmem).append more
    | cut hevent => cases hevent
  | cleanup cutoff limit retentionDays clock occurredAt =>
    have htable := tableStep hhash hsound hstep
    cases hstep
    cases htable with
    | grown hgrown hafter =>
      obtain ⟨more, hmore⟩ := hgrown
      refine ⟨seq, prevHash, hafter, fun phase hmem => ?_⟩
      rw [hmore]
      exact (hphases phase hmem).append more
    | @cut _ _ _ _ _ boundary row gone kept hevent hboundary hbefore hkept hafter =>
      cases hevent
      refine ⟨_, _, hafter, fun phase hmem => ?_⟩
      simp only [Database.undisturbed, hboundary, all_eq_true] at hundisturbed
      have hphase := hphases phase hmem
      have hchained := hsound.chained
      rw [hbefore] at hphase hchained
      have hnumber : boundary.seq = seq + gone.length :=
        (Kernel.NumberedChain.Links.Chained.append_iff.mp hchained).2.1
      rw [hkept]
      exact (hphase.cut hnumber (hundisturbed phase hmem)).append [row]
  | verify options =>
    cases hstep
    refine ⟨seq, prevHash, hsound, fun phase hmem => ?_⟩
    rcases mem_append.mp hmem with hold | hnew
    · exact hphases phase hold
    · obtain rfl := mem_singleton.mp hnew
      trivial
  | advance verification =>
    obtain ⟨phase, hphase, rfl⟩ := Option.map_eq_some_iff.mp hstep
    refine ⟨seq, prevHash, hsound, fun other hmem => ?_⟩
    rcases mem_or_eq_of_mem_set hmem with hold | rfl
    · exact hphases other hold
    · refine inPhase_advance hsound (hphases phase (mem_of_getElem? hphase)) ?_
      rintro options rfl fromSeq hfrom last hlast
      simp only [Database.undisturbed, hphase, hlast, hfrom, Option.all_some,
        decide_eq_true_eq] at hundisturbed
      exact hundisturbed

/--
In every run the rows follow each other without a gap from the genesis, or from the boundary
that a checkpoint among them names, and each source event has at most one row.  If no cleanup
overtakes a verification and none starts further than behind the last row, then no
verification reports a break.
-/
theorem verify_sound_undisturbed (database : Database) :
    ((system hash).Reachable database ->
        Anchored hash database.rows /\ SourcesDistinct database.rows) /\
      (((system hash).restrict fun before event => before.undisturbed event = true).Reachable
          database ->
        ∀ report, .reported report ∈ database.verifications ->
          report.ok = true /\ report.broken = none) := by
  constructor
  · intro hreach
    obtain ⟨seq, prevHash, hsound⟩ := tableSound_of_reachable hhash hreach
    exact ⟨⟨seq, prevHash, hsound.toAnchoredAt⟩, hsound.sources⟩
  · intro hreach report hmem
    obtain ⟨origin, labels, rfl, hrun⟩ := hreach
    have hstart : InStepWith hash .initial :=
      ⟨1, genesisHash, tableSound_initial hash, fun phase hphase => by cases hphase⟩
    have hkeep : ∀ before event after, InStepWith hash before ->
        ((system hash).restrict fun before event => before.undisturbed event = true).step
          before event after -> InStepWith hash after := by
      rintro before event after hinv ⟨hstep, hundisturbed⟩
      exact hinv.step hhash hstep hundisturbed
    obtain ⟨seq, prevHash, _, hphases⟩ := hrun.preserves hkeep hstart
    exact hphases _ hmem

end

def firstHash : String := "22279b82578d94ee694f63df6d5f5831f968dd41a4e56b2d3ec489e76b961d5d"

def secondHash : String := "f97b9dd18cc05308e7819c0156c11e88eb41209d1a9ccbf46b63b7e276ba6e37"

def thirdHash : String := "1825bcc23a346320da1dc1600371dc6b8a177256eb70ac7ebc753ffd82849398"

def runHash (text : String) : String :=
  if text.utf8ByteSize = 401 then firstHash
  else if text.utf8ByteSize = 402 then secondHash
  else thirdHash

theorem runHash_ne_empty (text : String) : runHash text ≠ "" := by
  unfold runHash
  split
  · decide
  · split <;> decide

def rememberRecord (occurredAt : Int) : ProducedRecord where
  occurredAt := occurredAt
  action := ofString "memory.remember"
  outcome := ofString "success"
  actorKind := ofString "master"
  actorKeyId := none
  actorSession := none
  actorIp := none
  targetType := some (ofString "fragment")
  targetId := some (ofString "frag-0")
  workspace := none
  detail := .object [(ofString "contentLength", .number (wholeNumber 12))]
  action_ne := by decide

def firstAppend : Event :=
  .append .record (ofString "100") (rememberRecord 1790000000000) 1790000000005

def secondAppend : Event :=
  .append .record (ofString "1001") (rememberRecord 1798761600000) 1798761600005

def wholeChain : VerifyOptions where
  fromSeq := none
  maxRows := 1000000
  chunk := 1000

/-- Of the two rows, the first is past its retention. -/
def quarterlyCleanup : Event := .cleanup 1791024000000 10000 90 1798800000000 1798800000000

/-- The cleanup deletes the first row between the read of the smallest number and the read
of the first rows. -/
def overtaken : List Event :=
  [firstAppend, secondAppend, .verify wholeChain, .advance 0, quarterlyCleanup, .advance 0]

def overtakenReport : VerifyReport where
  ok := false
  checked := 0
  firstSeq := some (some 2)
  lastSeq := none
  anchor := some .genesis
  anchorHash := some genesisHash
  headHash := none
  complete := false
  broken := some (some 2, .seqGap)

theorem not_verify_sound : Not (∀ database : Database, (system runHash).Reachable database ->
    ∀ report, .reported report ∈ database.verifications ->
      report.ok = true /\ report.broken = none) := by
  intro hclaim
  have hran : (System.follow (Database.step runHash) .initial overtaken).map
      Database.verifications = some [.reported overtakenReport] := by
    decide +kernel
  obtain ⟨database, hfollow, hreports⟩ := Option.map_eq_some_iff.mp hran
  have hrun : (system runHash).Run .initial overtaken database :=
    .of_follow (fun _ _ _ hstep => hstep) hfollow
  have hmem : .reported overtakenReport ∈ database.verifications := by
    rw [hreports]
    exact mem_singleton_self _
  exact absurd (hclaim database ⟨_, _, rfl, hrun⟩ overtakenReport hmem).1 Bool.false_ne_true

def passed : List Event :=
  [firstAppend, .verify wholeChain, .advance 0, .advance 0, secondAppend, quarterlyCleanup]

def passedReport : VerifyReport where
  ok := true
  checked := 1
  firstSeq := some (some 1)
  lastSeq := some (some 1)
  anchor := some .genesis
  anchorHash := some genesisHash
  headHash := some firstHash
  complete := true
  broken := none

theorem verify_sound_passed : ∃ database : Database,
    database.verifications = [.reported passedReport] /\ Anchored runHash database.rows /\
      passedReport.ok = true /\ passedReport.broken = none := by
  have hran : (System.follow (fun before event =>
      if Database.undisturbed before event = true then Database.step runHash before event
      else none) .initial passed).map Database.verifications = some [.reported passedReport] := by
    decide +kernel
  obtain ⟨database, hfollow, hreports⟩ := Option.map_eq_some_iff.mp hran
  have hrun : ((system runHash).restrict
      fun before event => before.undisturbed event = true).Run .initial passed database :=
    .of_follow_restrict (fun _ _ _ hstep => hstep) hfollow
  have hmem : .reported passedReport ∈ database.verifications := by
    rw [hreports]
    exact mem_singleton_self _
  obtain ⟨htable, hreport⟩ := verify_sound_undisturbed runHash_ne_empty database
  exact ⟨database, hreports, (htable (.ofRestrict ⟨_, _, rfl, hrun⟩)).1,
    hreport ⟨_, _, rfl, hrun⟩ passedReport hmem⟩

end AnchorMind.Audit
