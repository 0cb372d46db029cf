import AnchorMind.Audit.Store
import AnchorMind.Kernel.Chains

/-!
# The chain under retention

Appending and cleaning up keep the rows chained from the genesis or from the boundary of a
checkpoint among them.  A verification that has read up to a number finds no break after
it, as long as no cleanup deletes a row that it still has to read.
-/

namespace AnchorMind.Audit

open Text.JsonText List
open Text.Numbers (wholeNumber)
open Kernel.Transition Kernel.NumberedChain

def chainLinks (hash : String -> String) : Links AuditRow String where
  number := AuditRow.seq
  tag := AuditRow.rowHash
  fits := fun prevHash row => row.prevHash = prevHash /\
    computeRowHash hash prevHash row.toAuditEvent = .ok row.rowHash

structure AnchoredAt (hash : String -> String) (rows : List AuditRow) (seq : Nat)
    (prevHash : String) : Prop where
  chained : (chainLinks hash).Chained seq prevHash rows
  anchor : seq = 1 /\ prevHash = genesisHash \/
    ∃ row checkpoint, row ∈ rows /\ row.checkpoint? = some checkpoint /\
      0 < checkpoint.boundarySeq /\ seq = checkpoint.boundarySeq + 1 /\
        prevHash = checkpoint.boundaryHash

def Anchored (hash : String -> String) (rows : List AuditRow) : Prop :=
  ∃ seq prevHash, AnchoredAt hash rows seq prevHash

def SourcesDistinct (rows : List AuditRow) : Prop :=
  (rows.map fun row => row.entry.sourceEvent).Nodup

/-- What appending and cleaning up keep. -/
structure TableSound (hash : String -> String) (rows : List AuditRow) (seq : Nat)
    (prevHash : String) : Prop extends AnchoredAt hash rows seq prevHash where
  sources : SourcesDistinct rows
  passed : ∀ row ∈ rows, ∀ checkpoint, row.checkpoint? = some checkpoint ->
    checkpoint.boundarySeq < seq
  prevHash_ne : prevHash ≠ ""

variable {hash : String -> String} {rows after : List AuditRow} {seq : Nat} {prevHash : String}

theorem AnchoredAt.seq_pos (hanchored : AnchoredAt hash rows seq prevHash) : 0 < seq := by
  rcases hanchored.anchor with ⟨rfl, _⟩ | ⟨_, _, _, _, _, rfl, _⟩
  · exact Nat.one_pos
  · exact Nat.succ_pos _

variable {row : AuditRow}

theorem sourceEvent_checkpoint {checkpoint : Checkpoint}
    (hrow : row.checkpoint? = some checkpoint) :
    row.entry.sourceEvent = ofString "audit.retention:" ++ seqText checkpoint.boundarySeq := by
  unfold AuditRow.checkpoint? at hrow
  split at hrow
  · cases hrow
  · rename_i hentry
    cases hrow
    rw [hentry]
    rfl

theorem checkpoint_of_sourceEvent {boundarySeq : Nat}
    (hsource : row.entry.sourceEvent = ofString "audit.retention:" ++ seqText boundarySeq) :
    ∃ checkpoint, row.checkpoint? = some checkpoint /\
      checkpoint.boundarySeq = boundarySeq := by
  unfold AuditRow.checkpoint?
  cases hentry : row.entry with
  | event topic id record =>
    rw [hentry] at hsource
    have hlong : 9 ≤ (ofString (topic.name ++ ":")).length := by cases topic <;> decide
    have hfront := congrArg (take 9) hsource
    rw [Entry.sourceEvent, take_append_of_le_length hlong,
      take_append_of_le_length (by decide)] at hfront
    exact absurd hfront (by cases topic <;> decide)
  | checkpoint kept occurredAt =>
    rw [hentry] at hsource
    exact ⟨kept, rfl, seqText_injective (append_cancel_left hsource)⟩

variable {clock : Int}

theorem chained_nextRow (hchained : (chainLinks hash).Chained seq prevHash rows)
    (hempty : rows = [] -> seq = 1 /\ prevHash = genesisHash) {entry : Entry} {rowHash : String}
    (hhash : computeRowHash hash (nextRow rows entry clock).prevHash
      (nextRow rows entry clock).toAuditEvent = .ok rowHash) :
    (chainLinks hash).Chained seq prevHash
      (rows ++ [{ nextRow rows entry clock with rowHash := rowHash }]) := by
  have hplace : (nextRow rows entry clock).seq = seq + rows.length /\
      (nextRow rows entry clock).prevHash = (chainLinks hash).endTag prevHash rows := by
    unfold nextRow
    cases hlast : rows.getLast? with
    | none =>
      obtain rfl := getLast?_eq_none_iff.mp hlast
      obtain ⟨rfl, rfl⟩ := hempty rfl
      exact ⟨rfl, rfl⟩
    | some last =>
      constructor
      · exact hchained.number_getLast hlast
      · simp only [Links.endTag, hlast, Option.map_some, Option.getD_some]
        rfl
  refine hchained.concat hplace.1 ⟨hplace.2, ?_⟩
  rw [<- hplace.2]
  exact hhash

theorem appendLocked_cases {entry : Entry} (hok : appendLocked hash rows entry clock = .ok after) :
    (after = rows /\ ∃ row ∈ rows, row.entry.sourceEvent = entry.sourceEvent) \/
      ∃ rowHash, after = rows ++ [{ nextRow rows entry clock with rowHash := rowHash }] /\
        (∀ row ∈ rows, row.entry.sourceEvent ≠ entry.sourceEvent) /\
          computeRowHash hash (nextRow rows entry clock).prevHash
            (nextRow rows entry clock).toAuditEvent = .ok rowHash := by
  unfold appendLocked at hok
  split at hok
  · rename_i hdup
    obtain ⟨row, hmem, hsame⟩ := any_eq_true.mp hdup
    cases hok
    exact .inl ⟨rfl, row, hmem, of_decide_eq_true hsame⟩
  · rename_i hnew
    cases hhash : computeRowHash hash (nextRow rows entry clock).prevHash
        (nextRow rows entry clock).toAuditEvent with
    | error error =>
      simp only [hhash] at hok
      cases hok
    | ok rowHash =>
      simp only [hhash] at hok
      cases hok
      refine .inr ⟨rowHash, rfl, fun row hmem hsame => ?_, rfl⟩
      exact hnew (any_eq_true.mpr ⟨row, hmem, decide_eq_true hsame⟩)

theorem SourcesDistinct.concat (hsources : SourcesDistinct rows)
    (hnew : ∀ other ∈ rows, other.entry.sourceEvent ≠ row.entry.sourceEvent) :
    SourcesDistinct (rows ++ [row]) := by
  unfold SourcesDistinct
  rw [map_append]
  refine Nodup.append hsources (nodup_singleton _) ?_
  intro source hmem hsingle
  obtain ⟨other, hother, rfl⟩ := mem_map.mp hmem
  exact hnew other hother (mem_singleton.mp hsingle)

theorem TableSound.append (hsound : TableSound hash rows seq prevHash) {topic : AuditTopic}
    {id : JsString} {record : ProducedRecord}
    (hok : appendLocked hash rows (.event topic id record) clock = .ok after) :
    (∃ more, after = rows ++ more) /\ TableSound hash after seq prevHash := by
  rcases appendLocked_cases hok with ⟨rfl, _⟩ | ⟨rowHash, rfl, hnew, hhash⟩
  · exact ⟨⟨[], (append_nil _).symm⟩, hsound⟩
  · refine ⟨⟨_, rfl⟩, ⟨?_, ?_⟩, hsound.sources.concat hnew, ?_, hsound.prevHash_ne⟩
    · refine chained_nextRow hsound.chained ?_ hhash
      rintro rfl
      rcases hsound.anchor with hgenesis | ⟨row, _, hmem, _⟩
      · exact hgenesis
      · cases hmem
    · rcases hsound.anchor with hgenesis | ⟨row, checkpoint, hmem, hrest⟩
      · exact .inl hgenesis
      · exact .inr ⟨row, checkpoint, mem_append_left _ hmem, hrest⟩
    · intro row hmem checkpoint hcheckpoint
      rcases mem_append.mp hmem with hold | hlast
      · exact hsound.passed row hold checkpoint hcheckpoint
      · obtain rfl := mem_singleton.mp hlast
        cases hcheckpoint

theorem boundaryRow_cases (hchained : (chainLinks hash).Chained seq prevHash rows) {cutoff : Int}
    {limit : Nat} {boundary : AuditRow}
    (hboundary : boundaryRow rows cutoff limit = some boundary) :
    ∃ gone kept, rows = gone ++ boundary :: kept /\ kept ≠ [] /\
      rows.filter (fun row => decide (boundary.seq < row.seq)) = kept := by
  have hold := mem_filter.mp (mem_of_mem_take (mem_of_getLast? hboundary))
  obtain ⟨gone, kept, rfl⟩ := append_of_mem hold.1
  obtain ⟨_, hseq, _⟩ := Links.Chained.append_iff.mp hchained
  refine ⟨gone, kept, rfl, ?_, ?_⟩
  · rintro rfl
    obtain ⟨_, hlater⟩ := Bool.and_eq_true_iff.mp hold.2
    obtain ⟨other, hother, hless⟩ := any_eq_true.mp hlater
    have hbounds := hchained.number_bounds hother
    have hless := of_decide_eq_true hless
    simp only [chainLinks, length_append, length_singleton] at hbounds hseq
    omega
  · rw [append_cons] at hchained ⊢
    refine hchained.filter_after ?_
    rw [length_append, length_singleton, <- Nat.add_assoc, <- hseq]
    rfl

theorem rowHash_ne_empty (hhash : ∀ text, hash text ≠ "") {prevHash rowHash : String}
    {row : ChainRow} (hok : computeRowHash hash prevHash row = .ok rowHash) : rowHash ≠ "" := by
  unfold computeRowHash at hok
  cases hrecord : chainRecord row with
  | error error =>
    rw [hrecord] at hok
    cases hok
  | ok record =>
    cases htext : canonicalJson record with
    | error error =>
      simp only [hrecord, htext, bind, Except.bind] at hok
      cases hok
    | ok text =>
      simp only [hrecord, htext, bind, Except.bind] at hok
      cases hok
      exact hhash _

theorem TableSound.cleanup (hhash : ∀ text, hash text ≠ "")
    (hsound : TableSound hash rows seq prevHash) {cutoff : Int} {limit retentionDays : Nat}
    {occurredAt : Int}
    (hok : cleanup hash rows cutoff limit retentionDays clock occurredAt = .ok after) :
    after = rows \/ ∃ boundary gone kept row,
      boundaryRow rows cutoff limit = some boundary /\ rows = gone ++ boundary :: kept /\
        after = kept ++ [row] /\ TableSound hash after (boundary.seq + 1) boundary.rowHash := by
  unfold Audit.cleanup at hok
  cases hboundary : boundaryRow rows cutoff limit with
  | none =>
    rw [hboundary] at hok
    cases hok
    exact .inl rfl
  | some boundary =>
    obtain ⟨gone, kept, hrows, hkept, hfilter⟩ := boundaryRow_cases hsound.chained hboundary
    simp only [hboundary, hfilter] at hok
    have hsplit := hsound.chained
    rw [hrows] at hsplit
    obtain ⟨_, hseq, hfits, hchained⟩ := Links.Chained.append_iff.mp hsplit
    have hpassed : ∀ row ∈ kept, ∀ checkpoint,
        row.checkpoint? = some checkpoint -> checkpoint.boundarySeq < boundary.seq := by
      intro row hmem checkpoint hcheckpoint
      refine Nat.lt_of_lt_of_le (hsound.passed row ?_ checkpoint hcheckpoint) ?_
      · rw [hrows]
        exact mem_append_right _ (mem_cons_of_mem _ hmem)
      · exact (Nat.le_add_right _ _).trans_eq hseq.symm
    rcases appendLocked_cases hok with ⟨_, row, hmem, hsame⟩ | ⟨rowHash, rfl, hnew, hrowHash⟩
    · -- A row with this source event would name the boundary, which the earlier ones precede.
      obtain ⟨checkpoint, hcheckpoint, hequal⟩ := checkpoint_of_sourceEvent hsame
      exact absurd (hequal ▸ hpassed row hmem checkpoint hcheckpoint) (Nat.lt_irrefl _)
    · refine .inr ⟨boundary, gone, kept, _, rfl, hrows, rfl, ⟨?_, ?_⟩, ?_, ?_, ?_⟩
      · have hnumber : (chainLinks hash).number boundary = boundary.seq := rfl
        rw [<- hseq, hnumber] at hchained
        exact chained_nextRow hchained (fun hnil => absurd hnil hkept) hrowHash
      · refine .inr ⟨_, _, mem_append_right _ (mem_singleton_self _), rfl, ?_, rfl, rfl⟩
        have hpos := hsound.seq_pos
        have hnumber : boundary.seq = seq + gone.length := hseq
        simp only
        omega
      · refine SourcesDistinct.concat (hsound.sources.sublist (Sublist.map _ ?_)) hnew
        rw [hrows]
        exact (sublist_cons_self _ _).trans (sublist_append_right _ _)
      · intro row hmem checkpoint hcheckpoint
        rcases mem_append.mp hmem with hold | hlast
        · exact (hpassed row hold checkpoint hcheckpoint).trans (Nat.lt_succ_self _)
        · obtain rfl := mem_singleton.mp hlast
          cases hcheckpoint
          exact Nat.lt_succ_self _
      · exact rowHash_ne_empty hhash hfits.2

structure InStep (hash : String -> String) (rows : List AuditRow) (seq : Nat) (prevHash : String)
    (verification : Verification) : Prop where
  cut : ∃ front back, rows = front ++ back /\
    verification.after + 1 = seq + front.length /\
      verification.state.prevHash = some ((chainLinks hash).endTag prevHash front)
  expectedSeq_eq : verification.state.expectedSeq = some (some (verification.after + 1))
  broken_eq : verification.state.broken = none

def InPhase (hash : String -> String) (rows : List AuditRow) (seq : Nat) (prevHash : String) :
    VerifyPhase -> Prop
  | .requested _ => True
  | .seekingPrevious _ fromSeq => seq < fromSeq /\ fromSeq ≤ seq + rows.length
  | .seekingCheckpoint _ minSeq => minSeq = seq /\ seq ≠ 1
  | .reading verification => InStep hash rows seq prevHash verification
  | .reported report => report.ok = true /\ report.broken = none
  | .failed _ => True

theorem verifyRow_of_fits {state : ChainState Nat} (hrow : (chainLinks hash).fits prevHash row)
    (hprevHash : state.prevHash = some prevHash)
    (hexpected : state.expectedSeq = some (some row.seq)) (hbroken : state.broken = none) :
    ∃ next, verifyRow hash wholeNumbers state row.toAuditEvent = .ok next /\
      next.prevHash = some row.rowHash /\ next.expectedSeq = some (some (row.seq + 1)) /\
        next.broken = none := by
  obtain ⟨hlink, hhash⟩ := hrow
  have hseq : wholeNumbers.ofText row.toAuditEvent.seq = some row.seq := ofText_seqText row.seq
  have hbegin : (state.begin row.toAuditEvent (some row.seq)).prevHash = some prevHash /\
      (state.begin row.toAuditEvent (some row.seq)).expectedSeq = some (some row.seq) /\
        (state.begin row.toAuditEvent (some row.seq)).broken = none := by
    unfold ChainState.begin
    split
    · exact ⟨hprevHash, hexpected, hbroken⟩
    · simp only [hprevHash, hexpected, hbroken, Option.some_or, and_self]
  have hprev : row.toAuditEvent.prevHash = prevHash := hlink
  have hsame : row.rowHash = row.toAuditEvent.rowHash := rfl
  unfold verifyRow
  simp only [hseq, hbegin.1, hbegin.2.1, differs, Option.isNone_some, ne_eq, not_true_eq_false,
    decide_false, Bool.or_false, Bool.false_eq_true, if_false, hprev, hhash, bind, Except.bind]
  rw [if_neg (not_not.mpr hsame)]
  exact ⟨_, rfl, rfl, rfl, hbegin.2.2⟩

theorem verifyChainRows_of_chained {state : ChainState Nat}
    (hchained : (chainLinks hash).Chained seq prevHash rows)
    (hprevHash : state.prevHash = some prevHash) (hexpected : state.expectedSeq = some (some seq))
    (hbroken : state.broken = none) :
    ∃ next, verifyChainRows hash wholeNumbers state (rows.map AuditRow.toAuditEvent) = .ok next /\
      next.prevHash = some ((chainLinks hash).endTag prevHash rows) /\
        next.expectedSeq = some (some (seq + rows.length)) /\ next.broken = none := by
  induction rows generalizing seq prevHash state with
  | nil => exact ⟨state, rfl, hprevHash, hexpected, hbroken⟩
  | cons row rest ih =>
    obtain ⟨rfl, hfits, hrest⟩ := hchained
    obtain ⟨middle, hmiddle, hprevHash', hexpected', hbroken'⟩ :=
      verifyRow_of_fits hfits hprevHash hexpected hbroken
    obtain ⟨next, hnext, htag, hnumber, hsound⟩ := ih hrest hprevHash' hexpected' hbroken'
    refine ⟨next, ?_, htag.trans (congrArg some Links.endTag_cons.symm), ?_, hsound⟩
    · simp only [map_cons, verifyChainRows, hbroken, Option.isSome_none, Bool.false_eq_true,
        if_false, hmiddle, bind, Except.bind, hnext]
    · rw [hnumber, length_cons, Nat.add_assoc, Nat.add_comm 1]

variable {verification : Verification}

theorem report_sound (hbroken : verification.state.broken = none) (complete : Bool) :
    (verification.report complete).ok = true /\ (verification.report complete).broken = none := by
  simp [Verification.report, hbroken]

theorem InStep.proceed (hstep : InStep hash rows seq prevHash verification) :
    InPhase hash rows seq prevHash verification.proceed := by
  unfold Verification.proceed
  split
  · exact hstep
  · exact report_sound hstep.broken_eq false

theorem InStep.readChunk (hchained : (chainLinks hash).Chained seq prevHash rows)
    (hstep : InStep hash rows seq prevHash verification) :
    InPhase hash rows seq prevHash (verification.readChunk hash rows) := by
  obtain ⟨front, back, rfl, hafter, hprevHash⟩ := hstep.cut
  unfold Verification.readChunk
  have hrest : (front ++ back).filter (fun row => decide (verification.after < row.seq)) = back :=
    hchained.filter_after hafter
  rw [hrest]
  generalize min verification.options.chunk
    (verification.options.maxRows - verification.state.checked) = limit
  have hback := (Links.Chained.append_iff.mp hchained).2
  rw [<- hafter] at hback
  rw [<- take_append_drop limit back] at hback
  have hfound := (Links.Chained.append_iff.mp hback).1
  obtain ⟨next, hnext, htag, hnumber, hsound⟩ :=
    verifyChainRows_of_chained hfound hprevHash hstep.expectedSeq_eq hstep.broken_eq
  simp only [hnext]
  split
  · exact report_sound hsound true
  · cases hlast : (back.take limit).getLast? with
    | none => trivial
    | some last =>
      have hseq : last.seq + 1 = verification.after + 1 + (back.take limit).length :=
        hfound.number_getLast hlast
      refine InStep.proceed ⟨⟨front ++ back.take limit, back.drop limit, ?_, ?_, ?_⟩, ?_, hsound⟩
      · rw [append_assoc, take_append_drop]
      · rw [length_append, <- Nat.add_assoc, <- hafter]
        exact hseq
      · rw [Links.endTag_append]
        exact htag
      · rw [<- hseq] at hnumber
        exact hnumber

theorem inPhase_start (front back : List AuditRow) (hseq : 0 < seq) (options : VerifyOptions)
    (anchor : Anchor) :
    InPhase hash (front ++ back) seq prevHash
      (Verification.start options anchor ((chainLinks hash).endTag prevHash front)
        (seq + front.length)) := by
  have hafter : seq + front.length - 1 + 1 = seq + front.length :=
    Nat.sub_add_cancel (Nat.le_add_right_of_le hseq)
  refine InStep.proceed ⟨⟨front, back, rfl, hafter, rfl⟩, ?_, rfl⟩
  rw [hafter]
  rfl

section

variable (hsound : TableSound hash rows seq prevHash)
include hsound

theorem inPhase_readMin {options : VerifyOptions}
    (hfrom : ∀ fromSeq, options.fromSeq = some fromSeq ->
      ∀ last, rows.getLast? = some last -> fromSeq ≤ last.seq + 1) :
    InPhase hash rows seq prevHash (readMin rows options) := by
  cases rows with
  | nil => exact ⟨rfl, rfl⟩
  | cons first rest =>
    have hchained := hsound.chained
    have hfirst : first.seq = seq := hchained.1
    have hwhole : InPhase hash (first :: rest) seq prevHash
        (if first.seq = 1 then Verification.start options .genesis genesisHash 1
          else .seekingCheckpoint options first.seq) := by
      split
      · rename_i hone
        rcases hsound.anchor with ⟨hseq, hgenesis⟩ | ⟨_, checkpoint, _, _, hpos, hseq, _⟩
        · subst hseq hgenesis
          exact inPhase_start [] (first :: rest) Nat.one_pos options .genesis
        · omega
      · rename_i hmore
        exact ⟨hfirst, hfirst ▸ hmore⟩
    unfold readMin
    cases hoption : options.fromSeq with
    | none => exact hwhole
    | some fromSeq =>
      simp only [head?_cons]
      split
      · rename_i hless
        have hlast := getLast?_eq_some_getLast (cons_ne_nil first rest)
        have hbound := hfrom fromSeq hoption _ hlast
        have hnumber : ((first :: rest).getLast (cons_ne_nil first rest)).seq + 1 =
            seq + (first :: rest).length := hchained.number_getLast hlast
        exact ⟨hfirst ▸ hless, hnumber ▸ hbound⟩
      · exact hwhole

theorem inPhase_readPrevious (options : VerifyOptions) {fromSeq : Nat} (hlow : seq < fromSeq)
    (hhigh : fromSeq ≤ seq + rows.length) :
    InPhase hash rows seq prevHash (readPrevious rows options fromSeq) := by
  have hlow' : seq ≤ fromSeq - 1 := by omega
  obtain ⟨front, row, back, rfl, hrow, _⟩ := hsound.chained.exists_number hlow' (by omega)
  unfold readPrevious
  cases hfind : (front ++ row :: back).find? fun row => decide (row.seq = fromSeq - 1) with
  | none =>
    have hnone := find?_eq_none.mp hfind row (by simp)
    exact absurd (decide_eq_true hrow) hnone
  | some previous =>
    obtain ⟨hprevious, before, later, hsplit, _⟩ := find?_eq_some_iff_append.mp hfind
    have hnumber : previous.seq = fromSeq - 1 := of_decide_eq_true hprevious
    have hchained := hsound.chained
    rw [hsplit] at hchained ⊢
    obtain ⟨_, hplace, _⟩ := Links.Chained.append_iff.mp hchained
    have hstart : seq + (before ++ [previous]).length = fromSeq := by
      have hplace : previous.seq = seq + before.length := hplace
      rw [length_append, length_singleton]
      omega
    have htag : (chainLinks hash).endTag prevHash (before ++ [previous]) = previous.rowHash :=
      Links.endTag_concat
    have hphase : InPhase hash (before ++ [previous] ++ later) seq prevHash
        (Verification.start options .previousRow _ _) :=
      inPhase_start (before ++ [previous]) later hsound.seq_pos options .previousRow
    rw [hstart, htag, <- append_cons] at hphase
    exact hphase

omit hsound in
theorem checkpoint_unique (hsources : SourcesDistinct rows) {left right : AuditRow}
    {leftPoint rightPoint : Checkpoint} (hleft : left ∈ rows) (hright : right ∈ rows)
    (hleftPoint : left.checkpoint? = some leftPoint)
    (hrightPoint : right.checkpoint? = some rightPoint)
    (hequal : leftPoint.boundarySeq = rightPoint.boundarySeq) : leftPoint = rightPoint := by
  have hsource : left.entry.sourceEvent = right.entry.sourceEvent := by
    rw [sourceEvent_checkpoint hleftPoint, sourceEvent_checkpoint hrightPoint, hequal]
  obtain rfl := inj_on_of_nodup_map hsources hleft hright hsource
  exact Option.some.inj (hleftPoint.symm.trans hrightPoint)

theorem checkpointHash_eq (hseq : seq ≠ 1) : checkpointHash rows seq = some prevHash := by
  rcases hsound.anchor with ⟨hone, _⟩ | ⟨row, checkpoint, hmem, hcheckpoint, _, hboundary,
    hprevHash⟩
  · exact absurd hone hseq
  · have hseek : checkpoint ∈ (rows.filterMap AuditRow.checkpoint?).filter
        fun checkpoint => decide (checkpoint.boundarySeq = seq - 1) := by
      refine mem_filter.mpr ⟨mem_filterMap.mpr ⟨row, hmem, hcheckpoint⟩, ?_⟩
      exact decide_eq_true (by omega)
    obtain ⟨found, hfound⟩ : ∃ found, ((rows.filterMap AuditRow.checkpoint?).filter
        fun checkpoint => decide (checkpoint.boundarySeq = seq - 1)).getLast? = some found :=
      ⟨_, getLast?_eq_some_getLast (ne_nil_of_mem hseek)⟩
    obtain ⟨hstored, hsame⟩ := mem_filter.mp (mem_of_getLast? hfound)
    obtain ⟨other, hother, hpoint⟩ := mem_filterMap.mp hstored
    have hsame := of_decide_eq_true hsame
    obtain rfl := checkpoint_unique hsound.sources hmem hother hcheckpoint hpoint (by omega)
    cases rows with
    | nil => cases hmem
    | cons first rest =>
      obtain ⟨hfirst, hfits, _⟩ := hsound.chained
      have hnumber : first.seq = seq := hfirst
      have hlink : first.prevHash = prevHash := hfits.1
      unfold checkpointHash
      simp only [hfound, find?_cons, hnumber, decide_true, hlink, hprevHash, if_true]

theorem inPhase_readCheckpoint (options : VerifyOptions) (hseq : seq ≠ 1) :
    InPhase hash rows seq prevHash (readCheckpoint rows options seq) := by
  unfold readCheckpoint
  rw [checkpointHash_eq hsound hseq, Option.filter_some,
    if_pos (decide_eq_true hsound.prevHash_ne)]
  exact inPhase_start [] rows hsound.seq_pos options .checkpoint

variable {phase : VerifyPhase}

theorem inPhase_advance (hphase : InPhase hash rows seq prevHash phase)
    (hfrom : ∀ options, phase = .requested options ->
      ∀ fromSeq, options.fromSeq = some fromSeq ->
        ∀ last, rows.getLast? = some last -> fromSeq ≤ last.seq + 1) :
    InPhase hash rows seq prevHash (phase.advance hash rows) := by
  cases phase with
  | requested options => exact inPhase_readMin hsound (hfrom options rfl)
  | seekingPrevious options fromSeq => exact inPhase_readPrevious hsound options hphase.1 hphase.2
  | seekingCheckpoint options minSeq =>
    obtain ⟨rfl, hseq⟩ := hphase
    exact inPhase_readCheckpoint hsound options hseq
  | reading verification => exact InStep.readChunk hsound.chained hphase
  | reported report => exact hphase
  | failed error => exact hphase

end

theorem InPhase.append (hphase : InPhase hash rows seq prevHash phase) (more : List AuditRow) :
    InPhase hash (rows ++ more) seq prevHash phase := by
  cases phase with
  | requested options => trivial
  | seekingPrevious options fromSeq =>
    refine ⟨hphase.1, hphase.2.trans ?_⟩
    rw [length_append]
    omega
  | seekingCheckpoint options minSeq => exact hphase
  | reading verification =>
    obtain ⟨front, back, rfl, hcut⟩ := InStep.cut hphase
    exact
      { cut := ⟨front, back ++ more, append_assoc _ _ _, hcut⟩
        expectedSeq_eq := InStep.expectedSeq_eq hphase
        broken_eq := InStep.broken_eq hphase }
  | reported report => exact hphase
  | failed error => trivial

def VerifyPhase.spares (boundarySeq : Nat) : VerifyPhase -> Bool
  | .requested _ => true
  | .seekingPrevious _ fromSeq => decide (boundarySeq + 1 < fromSeq)
  | .seekingCheckpoint _ _ => false
  | .reading verification => decide (boundarySeq ≤ verification.after)
  | .reported _ => true
  | .failed _ => true

theorem InPhase.cut {gone kept : List AuditRow} {boundary : AuditRow}
    (hboundary : boundary.seq = seq + gone.length)
    (hphase : InPhase hash (gone ++ boundary :: kept) seq prevHash phase)
    (hspares : phase.spares boundary.seq = true) :
    InPhase hash kept (boundary.seq + 1) boundary.rowHash phase := by
  cases phase with
  | requested options => trivial
  | seekingPrevious options fromSeq =>
    obtain ⟨_, hhigh⟩ := hphase
    refine ⟨of_decide_eq_true hspares, hhigh.trans ?_⟩
    rw [length_append, length_cons]
    omega
  | seekingCheckpoint options minSeq => cases hspares
  | reading verification =>
    obtain ⟨front, back, hsplit, hafter, hprevHash⟩ := InStep.cut hphase
    have hpassed : boundary.seq ≤ verification.after := of_decide_eq_true hspares
    have hprefix : gone ++ [boundary] <+: front := by
      refine prefix_of_prefix_length_le ⟨kept, ?_⟩ ⟨back, hsplit.symm⟩ ?_
      · rw [append_assoc, singleton_append]
      · rw [length_append, length_singleton]
        omega
    obtain ⟨rest, rfl⟩ := hprefix
    rw [append_cons, append_assoc (gone ++ [boundary])] at hsplit
    refine
      { cut := ⟨rest, back, append_cancel_left hsplit, ?_, ?_⟩
        expectedSeq_eq := InStep.expectedSeq_eq hphase
        broken_eq := InStep.broken_eq hphase }
    · simp only [length_append, length_singleton] at hafter
      omega
    · rw [Links.endTag_append, Links.endTag_concat] at hprevHash
      exact hprevHash
  | reported report => exact hphase
  | failed error => trivial

end AnchorMind.Audit
