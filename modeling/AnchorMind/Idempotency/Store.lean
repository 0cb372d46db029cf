import AnchorMind.Kernel.SingleUse
import AnchorMind.Kernel.Transition

/-!
# Idempotency records and claims

A claim of an idempotency key is one record whose `response` says whether the
key is claimed, and under which token, or done.  Each statement of the store is
embedded by what it does to the record of its key, and shown to be an act of a
fenced slot.
-/

namespace AnchorMind.Idempotency.Store

open Kernel.FencedSlot Function

abbrev Token := Nat

/-- The columns of the unique index. -/
structure RecordKey where
  scopeKey : String
  agentId : String
  tool : String
  idempotencyKey : String
deriving DecidableEq

/-- `COALESCE(key_id, '')`: the index takes two missing keys for the same. -/
def scopeKeyOf (keyId : Option String) : String := keyId.getD ""

def claimKey (tool idempotencyKey : String) (keyId : Option String) : RecordKey where
  scopeKey := scopeKeyOf keyId
  agentId := "default"
  tool := tool
  idempotencyKey := idempotencyKey

/-- The `response` column of a claim record; `done` keeps the caller's summary. -/
inductive Response where
  | claimed (token : Token)
  | done (summary : String)
deriving DecidableEq

structure Record where
  response : Response
  keyId : Option String
  createdAt : Int
  expiresAt : Int
deriving DecidableEq

abbrev Records := RecordKey -> Option Record

inductive ClaimResult where
  | claimed
  | done
  | busy
deriving DecidableEq

structure ClaimArgs where
  tool : String
  idempotencyKey : String
  keyId : Option String
  token : Token
  staleAfterMs : Int
  ttlDays : Nat

def ClaimArgs.key (args : ClaimArgs) : RecordKey :=
  claimKey args.tool args.idempotencyKey args.keyId

/-- `expires_at <= now()`. -/
def Record.expired (now : Int) (record : Record) : Bool :=
  decide (record.expiresAt ≤ now)

def Record.stale (now staleAfterMs : Int) (record : Record) : Bool :=
  match record.response with
  | .claimed _ => decide (record.createdAt < now - staleAfterMs)
  | .done _ => false

/-- Whether the claim's `ON CONFLICT` clause may overwrite the record. -/
def Record.takeable (now staleAfterMs : Int) (record : Record) : Bool :=
  record.stale now staleAfterMs || record.expired now

def claimGranted (now : Int) (args : ClaimArgs) : Option Record -> Bool
  | none => true
  | some record => record.takeable now args.staleAfterMs

/-- The record a granted claim leaves; an overwritten record keeps its `key_id`. -/
def claimRecord (now : Int) (args : ClaimArgs) (old : Option Record) : Record where
  response := .claimed args.token
  keyId := match old with
    | none => args.keyId
    | some record => record.keyId
  createdAt := now
  expiresAt := now + args.ttlDays * 86400000

def claimCell (now : Int) (args : ClaimArgs) (old : Option Record) : Option Record :=
  if claimGranted now args old then some (claimRecord now args old) else old

/-- The answer of a refused claim, from the read that follows it.  A missing
record is not `claimed`, so it is answered like a finished one. -/
def claimAnswer : Option Record -> ClaimResult
  | some { response := .claimed _, .. } => .busy
  | _ => .done

def heldBy (token : Token) : Option Record -> Bool
  | some { response := .claimed holder, .. } => holder == token
  | _ => false

def completeCell (token : Token) (summary : String) (old : Option Record) : Option Record :=
  if heldBy token old then old.map fun record => { record with response := .done summary }
  else old

def releaseCell (token : Token) (old : Option Record) : Option Record :=
  if heldBy token old then none else old

def purgeCell (now : Int) (old : Option Record) : Option Record :=
  old.filter fun record => !record.expired now

def Records.atKey (records : Records) (key : RecordKey)
    (statement : Option Record -> Option Record) : Records :=
  update records key (statement (records key))

def purgeExpired (now : Int) (records : Records) : Records :=
  fun key => purgeCell now (records key)

variable {records : Records} {key : RecordKey} {statement : Option Record -> Option Record}

theorem atKey_self : records.atKey key statement key = statement (records key) :=
  update_self ..

theorem atKey_of_ne {other : RecordKey} (hne : other ≠ key) :
    records.atKey key statement other = records other :=
  update_of_ne hne ..

theorem atKey_eq_self (hsame : statement (records key) = records key) :
    records.atKey key statement = records := by
  unfold Records.atKey
  rw [hsame, update_eq_self]

def slotOf : Option Record -> Slot Token
  | none => .free
  | some { response := .claimed token, .. } => .held token
  | some { response := .done _, .. } => .settled

def claimActs (now : Int) (args : ClaimArgs) : Option Record -> List (Act Token)
  | none => [.take args.token]
  | some record =>
    if record.expired now then [.take args.token, .discard]
    else if record.stale now args.staleAfterMs then [.take args.token]
    else []

def completeActs (token : Token) (old : Option Record) : List (Act Token) :=
  if heldBy token old then [.settle token] else []

def releaseActs (token : Token) (old : Option Record) : List (Act Token) :=
  if heldBy token old then [.undo token] else []

def purgeActs (now : Int) : Option Record -> List (Act Token)
  | none => []
  | some record => if record.expired now then [.discard] else []

theorem heldBy_eq_true {token : Token} {old : Option Record} :
    heldBy token old = true <-> slotOf old = .held token := by
  cases old with
  | none => simp [heldBy, slotOf]
  | some record =>
    cases hresponse : record.response with
    | claimed holder => cases record; cases hresponse; simp [heldBy, slotOf]
    | done _ => cases record; cases hresponse; simp [heldBy, slotOf]

theorem slotOf_done {record : Record} {summary : String}
    (hresponse : record.response = .done summary) : slotOf (some record) = .settled := by
  cases record
  cases hresponse
  rfl

theorem claimCell_path (now : Int) (args : ClaimArgs) (old : Option Record) :
    Path (slotOf old) (claimActs now args old) (slotOf (claimCell now args old)) := by
  cases old with
  | none => exact .cons (.nil _) (.takeFree _)
  | some record =>
    cases hexpired : record.expired now with
    | true =>
      simp only [claimActs, claimCell, claimGranted, Record.takeable, hexpired,
        Bool.or_true, if_true]
      exact .cons (.cons (.nil _) (.discard _)) (.takeFree _)
    | false =>
      cases hstale : record.stale now args.staleAfterMs with
      | true =>
        simp only [claimActs, claimCell, claimGranted, Record.takeable, hexpired, hstale,
          Bool.or_false, if_true]
        match record, hstale with
        | ⟨.claimed holder, _, _, _⟩, _ => exact .cons (.nil _) (.takeOver holder _)
      | false =>
        simp only [claimActs, claimCell, claimGranted, Record.takeable, hexpired, hstale,
          Bool.or_false, Bool.false_eq_true, if_false]
        exact .nil _

theorem completeCell_path (token : Token) (summary : String) (old : Option Record) :
    Path (slotOf old) (completeActs token old) (slotOf (completeCell token summary old)) := by
  cases hheld : heldBy token old with
  | false =>
    simp only [completeActs, completeCell, hheld, Bool.false_eq_true, if_false]
    exact .nil _
  | true =>
    simp only [completeActs, completeCell, hheld, if_true]
    rw [heldBy_eq_true.mp hheld]
    cases old with
    | none => cases hheld
    | some record => exact .cons (.nil _) (.settle token)

theorem releaseCell_path (token : Token) (old : Option Record) :
    Path (slotOf old) (releaseActs token old) (slotOf (releaseCell token old)) := by
  cases hheld : heldBy token old with
  | false =>
    simp only [releaseActs, releaseCell, hheld, Bool.false_eq_true, if_false]
    exact .nil _
  | true =>
    simp only [releaseActs, releaseCell, hheld, if_true]
    rw [heldBy_eq_true.mp hheld]
    exact .cons (.nil _) (.undo token)

theorem purgeCell_path (now : Int) (old : Option Record) :
    Path (slotOf old) (purgeActs now old) (slotOf (purgeCell now old)) := by
  cases old with
  | none => exact .nil _
  | some record =>
    cases hexpired : record.expired now with
    | true =>
      simp only [purgeActs, purgeCell, Option.filter, hexpired, Bool.not_true,
        Bool.false_eq_true, if_true, if_false]
      exact .cons (.nil _) (.discard _)
    | false =>
      simp only [purgeActs, purgeCell, Option.filter, hexpired, Bool.not_false,
        Bool.false_eq_true, if_true, if_false]
      exact .nil _

end AnchorMind.Idempotency.Store

/-!
# Callers of the idempotency store

Any number of callers claim, complete, and release keys in any order, each
under its own token; the purge and the clock run beside them.  A caller keeps no
state the store depends on, so a crash is a caller that stops calling.  The
history of each key is recorded beside the store, where no statement reads it.
-/

namespace AnchorMind.Idempotency.Callers

open Kernel.FencedSlot Kernel.Transition Idempotency.Store

structure State where
  now : Int
  records : Records
  /-- What happened to each key's record, newest first. -/
  history : RecordKey -> List (Act Token)

inductive Label where
  | tick (elapsed : Nat)
  | claim (args : ClaimArgs)
  | complete (key : RecordKey) (token : Token) (summary : String)
  | release (key : RecordKey) (token : Token)
  | purge

def Label.cell (now : Int) (key : RecordKey) (old : Option Record) : Label -> Option Record
  | .tick _ => old
  | .claim args => if key = args.key then claimCell now args old else old
  | .complete target token summary => if key = target then completeCell token summary old else old
  | .release target token => if key = target then releaseCell token old else old
  | .purge => purgeCell now old

def Label.acts (now : Int) (key : RecordKey) (old : Option Record) : Label -> List (Act Token)
  | .tick _ => []
  | .claim args => if key = args.key then claimActs now args old else []
  | .complete target token _ => if key = target then completeActs token old else []
  | .release target token => if key = target then releaseActs token old else []
  | .purge => purgeActs now old

def Label.store (now : Int) (records : Records) : Label -> Records
  | .tick _ => records
  | .claim args => records.atKey args.key (claimCell now args)
  | .complete key token summary => records.atKey key (completeCell token summary)
  | .release key token => records.atKey key (releaseCell token)
  | .purge => purgeExpired now records

def State.after (state : State) (label : Label) : State where
  now := match label with
    | .tick elapsed => state.now + elapsed
    | _ => state.now
  records := label.store state.now state.records
  history := fun key => label.acts state.now key (state.records key) ++ state.history key

/-- The store is created empty. -/
def callerSystem : System State Label where
  start := fun state => (∀ key, state.records key = none) /\
    ∀ key, state.history key = []
  step := fun before label after => after = before.after label

theorem store_cell (now : Int) (records : Records) (label : Label) (key : RecordKey) :
    label.store now records key = label.cell now key (records key) := by
  cases label with
  | tick _ => rfl
  | purge => rfl
  | claim args =>
    by_cases hkey : key = args.key
    · subst hkey
      simp only [Label.store, Label.cell, atKey_self, if_true]
    · simp only [Label.store, Label.cell, atKey_of_ne hkey, if_neg hkey]
  | complete target token summary =>
    by_cases hkey : key = target
    · subst hkey
      simp only [Label.store, Label.cell, atKey_self, if_true]
    · simp only [Label.store, Label.cell, atKey_of_ne hkey, if_neg hkey]
  | release target token =>
    by_cases hkey : key = target
    · subst hkey
      simp only [Label.store, Label.cell, atKey_self, if_true]
    · simp only [Label.store, Label.cell, atKey_of_ne hkey, if_neg hkey]

theorem cell_path (now : Int) (key : RecordKey) (old : Option Record) (label : Label) :
    Path (slotOf old) (label.acts now key old) (slotOf (label.cell now key old)) := by
  cases label with
  | tick _ => exact .nil _
  | purge => exact purgeCell_path now old
  | claim args =>
    by_cases hkey : key = args.key
    · simpa only [Label.acts, Label.cell, if_pos hkey] using claimCell_path now args old
    · simpa only [Label.acts, Label.cell, if_neg hkey] using Path.nil (slotOf old)
  | complete target token summary =>
    by_cases hkey : key = target
    · simpa only [Label.acts, Label.cell, if_pos hkey] using completeCell_path token summary old
    · simpa only [Label.acts, Label.cell, if_neg hkey] using Path.nil (slotOf old)
  | release target token =>
    by_cases hkey : key = target
    · simpa only [Label.acts, Label.cell, if_pos hkey] using releaseCell_path token old
    · simpa only [Label.acts, Label.cell, if_neg hkey] using Path.nil (slotOf old)

theorem history_path {state : State} (hreach : callerSystem.Reachable state) (key : RecordKey) :
    Path .free (state.history key) (slotOf (state.records key)) := by
  let Tracked : State -> Prop := fun state =>
    Path .free (state.history key) (slotOf (state.records key))
  suffices Tracked state from this
  apply hreach.invariant
  · rintro origin ⟨hrecords, hhistory⟩
    change Path .free (origin.history key) (slotOf (origin.records key))
    rw [hrecords key, hhistory key]
    exact .nil _
  · rintro before label after _ hpath rfl
    change Path .free (label.acts before.now key (before.records key) ++ before.history key)
      (slotOf (label.store before.now before.records key))
    rw [store_cell]
    exact hpath.trans (cell_path before.now key (before.records key) label)

variable {key : RecordKey}

theorem fenced_statement_unchanged {state : State} (hreach : callerSystem.Reachable state)
    {token : Token} (hlatest : latest (state.history key) ≠ some token) :
    heldBy token (state.records key) = false := by
  cases hheld : heldBy token (state.records key) with
  | false => rfl
  | true =>
    have hslot := heldBy_eq_true.mp hheld
    exact absurd ((history_path hreach key).latest_eq_of_held hslot) hlatest

def Expires (key : RecordKey) (state : State) (label : Label) : Prop :=
  Act.discard ∈ label.acts state.now key (state.records key)

variable {labels : List Label}

theorem history_of_run {first last : State}
    (hrun : (callerSystem.restrict fun state label => ¬ Expires key state label).Run
      first labels last) :
    ∃ recent, last.history key = recent ++ first.history key /\ Act.discard ∉ recent := by
  induction hrun with
  | nil => exact ⟨[], rfl, List.not_mem_nil⟩
  | @cons before middle final label labels hstep _ ih =>
    obtain ⟨recent, hhistory, hdiscard⟩ := ih
    obtain ⟨rfl, hkeeps⟩ := hstep
    refine ⟨recent ++ label.acts before.now key (before.records key), ?_, ?_⟩
    · rw [hhistory, List.append_assoc]
      rfl
    · intro hmem
      rcases List.mem_append.mp hmem with hrecent | hnow
      · exact hdiscard hrecent
      · exact hkeeps hnow

theorem done_cell_stays {now : Int} {record : Record} {summary : String} {label : Label}
    (hdone : record.response = .done summary)
    (hkeeps : Act.discard ∉ label.acts now key (some record)) :
    label.cell now key (some record) = some record := by
  have hfree : ∀ token, heldBy token (some record) = false := by
    intro token
    cases hheld : heldBy token (some record) with
    | false => rfl
    | true => cases (slotOf_done hdone).symm.trans (heldBy_eq_true.mp hheld)
  cases label with
  | tick _ => rfl
  | purge =>
    cases hexpired : record.expired now with
    | false => simp [Label.cell, purgeCell, hexpired]
    | true => simp [Label.acts, purgeActs, hexpired] at hkeeps
  | claim args =>
    by_cases hkey : key = args.key
    · cases hexpired : record.expired now with
      | false =>
        simp [Label.cell, hkey, claimCell, claimGranted, Record.takeable, Record.stale, hdone,
          hexpired]
      | true => simp [Label.acts, hkey, claimActs, hexpired] at hkeeps
    · simp only [Label.cell, if_neg hkey]
  | complete target token text =>
    by_cases hkey : key = target
    · simp [Label.cell, hkey, completeCell, hfree]
    · simp only [Label.cell, if_neg hkey]
  | release target token =>
    by_cases hkey : key = target
    · simp [Label.cell, hkey, releaseCell, hfree]
    · simp only [Label.cell, if_neg hkey]

theorem done_record_stays {first last : State}
    (hrun : (callerSystem.restrict fun state label => ¬ Expires key state label).Run
      first labels last) {record : Record} {summary : String}
    (hrecord : first.records key = some record) (hdone : record.response = .done summary) :
    last.records key = some record := by
  induction hrun with
  | nil => exact hrecord
  | @cons before middle final label labels hstep _ ih =>
    obtain ⟨rfl, hkeeps⟩ := hstep
    refine ih ?_
    change label.store before.now before.records key = some record
    rw [store_cell, hrecord]
    refine done_cell_stays hdone ?_
    rw [← hrecord]
    exact hkeeps

/-- From any reachable state: a complete or release under a token that another
claim of the key has overtaken changes nothing; and in every run between two
expiries of the key's record at most one completion takes effect, no claim is
granted after it, and a done record stays as it is. -/
theorem idempotency_claims_fenced {state : State} (hreach : callerSystem.Reachable state)
    (key : RecordKey) :
    (∀ token summary, latest (state.history key) ≠ some token ->
      (state.after (.complete key token summary)).records = state.records /\
        (state.after (.release key token)).records = state.records) /\
    ∀ labels after,
      (callerSystem.restrict fun state label => ¬ Expires key state label).Run
        state labels after ->
      ∃ recent, after.history key = recent ++ state.history key /\
        settlements recent ≤ 1 /\
        (∀ newer token older, recent = newer ++ .settle token :: older ->
          ∀ later ∈ newer, later.takes = false) /\
        ∀ record summary, state.records key = some record ->
          record.response = .done summary -> after.records key = some record := by
  refine ⟨?_, ?_⟩
  · intro token summary hlatest
    have hheld := fenced_statement_unchanged hreach hlatest
    refine ⟨atKey_eq_self ?_, atKey_eq_self ?_⟩
    · simp only [completeCell, hheld, Bool.false_eq_true, if_false]
    · simp only [releaseCell, hheld, Bool.false_eq_true, if_false]
  · intro labels after hrun
    obtain ⟨recent, hhistory, hdiscard⟩ := history_of_run hrun
    have hpath := history_path (hreach.run hrun.ofRestrict) key
    rw [hhistory] at hpath
    obtain ⟨middle, hpast, hrecent⟩ := hpath.split
    refine ⟨recent, hhistory, (hrecent.settlements_le_one hdiscard).1, ?_, ?_⟩
    · rintro newer token older rfl
      exact hrecent.no_take_after_settlement rfl fun hmem =>
        hdiscard (List.mem_append_left _ hmem)
    · intro record summary hrecord hdone
      exact done_record_stays hrun hrecord hdone

def emptyStore : State where
  now := 0
  records := fun _ => none
  history := fun _ => []

def sessionClaim (token : Token) : ClaimArgs where
  tool := "hook_reflect"
  idempotencyKey := "hook:session"
  keyId := none
  token := token
  staleAfterMs := 300000
  ttlDays := 30

def takenOver : State :=
  ((emptyStore.after (.claim (sessionClaim 1))).after (.tick 300001)).after
    (.claim (sessionClaim 2))

/-- The first caller's late completion leaves the store as it is. -/
theorem idempotency_claims_fenced_late_complete :
    (takenOver.after (.complete (sessionClaim 1).key 1 "")).records = takenOver.records := by
  have hstart : callerSystem.Reachable emptyStore :=
    .ofStart ⟨fun _ => rfl, fun _ => rfl⟩
  have hreach : callerSystem.Reachable takenOver := ((hstart.step rfl).step rfl).step rfl
  exact ((idempotency_claims_fenced hreach (sessionClaim 1).key).1 1 "" (by decide)).1

end AnchorMind.Idempotency.Callers
