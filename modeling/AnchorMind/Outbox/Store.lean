import AnchorMind.Kernel.KeyedTable

/-!
# The outbox table and its statements

`OutboxStore` runs each statement in its own transaction.  Claim, complete, fail, release,
cleanup, and the dead-lettering of events no process handles are updates of the
`outbox_events` table, with its primary key and its state check.  Times are milliseconds of
the database clock.
-/

namespace AnchorMind.Outbox.Store

open Kernel.KeyedTable List

/-- The UUID that marks one claim. -/
abbrev Token := Nat

structure OutboxRow where
  id : Nat
  topic : String
  aggregateId : Option String
  payload : String
  createdAt : Int
  availableAt : Int
  attempts : Nat
  processedAt : Option Int
  lastError : Option String
  deadAt : Option Int
  claimToken : Option Token
deriving DecidableEq

/-- `processed_at IS NULL AND dead_at IS NULL`. -/
def OutboxRow.pending (row : OutboxRow) : Bool :=
  row.processedAt.isNone && row.deadAt.isNone

/-- The table's `outbox_events_state_check`. -/
def StateCheck (row : OutboxRow) : Prop :=
  row.processedAt = none \/ row.deadAt = none

abbrev OutboxTable := Table OutboxRow.id StateCheck

abbrev OutboxUpdate := Table.Update OutboxRow.id StateCheck

variable {row : OutboxRow}

theorem OutboxRow.pending_eq_true :
    row.pending = true <-> row.processedAt = none /\ row.deadAt = none := by
  simp [OutboxRow.pending]

/-- The claim's `WHERE` clause; `locked` marks the rows other statements hold at
that moment, which `SKIP LOCKED` passes over. -/
def claimable (now : Int) (topics : List String) (locked : Nat -> Bool)
    (row : OutboxRow) : Bool :=
  row.pending && decide (row.availableAt ≤ now) && topics.contains row.topic && !locked row.id

/-- `ORDER BY available_at, id`. -/
def dueBefore (left right : OutboxRow) : Prop :=
  left.availableAt < right.availableAt \/
    (left.availableAt = right.availableAt /\ left.id ≤ right.id)

instance : DecidableRel dueBefore := fun left right =>
  inferInstanceAs (Decidable
    (left.availableAt < right.availableAt \/
      (left.availableAt = right.availableAt /\ left.id ≤ right.id)))

/-- The claim's `due` subquery. -/
def due (table : OutboxTable) (now : Int) (topics : List String) (locked : Nat -> Bool)
    (limit : Nat) : List OutboxRow :=
  table.selectOrdered (claimable now topics locked) dueBefore limit

/-- The claim's `SET` clause. -/
def claimRow (now leaseMs : Int) (token : Token) (row : OutboxRow) : OutboxRow :=
  { row with
    attempts := row.attempts + 1
    availableAt := now + leaseMs
    claimToken := some token }

/-- A claimed row as the worker receives it. -/
structure OutboxEvent where
  id : Nat
  topic : String
  aggregateId : Option String
  payload : String
  attempts : Nat
  createdAt : Int
  dueAt : Int

def toEvent (row : OutboxRow) (dueAt : Int) : OutboxEvent where
  id := row.id
  topic := row.topic
  aggregateId := row.aggregateId
  payload := row.payload
  attempts := row.attempts
  createdAt := row.createdAt
  dueAt := dueAt

def claimOrder (left right : OutboxEvent) : Prop :=
  left.dueAt < right.dueAt \/ (left.dueAt = right.dueAt /\ left.id ≤ right.id)

instance : DecidableRel claimOrder := fun left right =>
  inferInstanceAs (Decidable
    (left.dueAt < right.dueAt \/ (left.dueAt = right.dueAt /\ left.id ≤ right.id)))

def claimUpdate (ids : List Nat) (now leaseMs : Int) (token : Token) : OutboxUpdate where
  select := fun row => ids.contains row.id
  image := claimRow now leaseMs token
  keepsKey := fun _ => rfl
  keepsCheck := fun _ _ hcheck => hcheck

def claimedEvents (rows : List OutboxRow) (now leaseMs : Int) (token : Token) :
    List OutboxEvent :=
  (rows.map fun row => toEvent (claimRow now leaseMs token row) row.availableAt).insertionSort
    claimOrder

/-- The condition shared by complete, fail, and release: the row is one of the
named ones, still carries the caller's token, and is pending. -/
def fenced (ids : List Nat) (token : Token) (row : OutboxRow) : Bool :=
  ids.contains row.id && row.claimToken == some token && row.pending

variable {token : Token}

theorem fenced_eq_true {ids : List Nat} :
    fenced ids token row = true <->
      row.id ∈ ids /\ row.claimToken = some token /\ row.pending = true := by
  simp [fenced, and_assoc]

def completeRow (now : Int) (row : OutboxRow) : OutboxRow :=
  { row with processedAt := some now, claimToken := none, lastError := none }

def complete (id : Nat) (token : Token) (now : Int) : OutboxUpdate where
  select := fenced [id] token
  image := completeRow now
  keepsKey := fun _ => rfl
  keepsCheck := fun _ hselect _ =>
    .inr (OutboxRow.pending_eq_true.mp (fenced_eq_true.mp hselect).2.2).2

structure FailOutcome where
  retryDelayMs : Int
  error : String
  dead : Bool

def failRow (outcome : FailOutcome) (now : Int) (row : OutboxRow) : OutboxRow :=
  { row with
    availableAt := now + outcome.retryDelayMs
    lastError := some outcome.error
    claimToken := none
    deadAt := if outcome.dead then some now else none }

def fail (id : Nat) (token : Token) (outcome : FailOutcome) (now : Int) : OutboxUpdate where
  select := fenced [id] token
  image := failRow outcome now
  keepsKey := fun _ => rfl
  keepsCheck := fun _ hselect _ =>
    .inl (OutboxRow.pending_eq_true.mp (fenced_eq_true.mp hselect).2.2).1

/-- `GREATEST(attempts - 1, 0)` is the truncated subtraction. -/
def releaseRow (now : Int) (row : OutboxRow) : OutboxRow :=
  { row with availableAt := now, attempts := row.attempts - 1, claimToken := none }

def release (ids : List Nat) (token : Token) (now : Int) : OutboxUpdate where
  select := fenced ids token
  image := releaseRow now
  keepsKey := fun _ => rfl
  keepsCheck := fun _ _ hcheck => hcheck

/-- `make_interval(days => n)` in milliseconds. -/
def daysMs (days : Nat) : Int := days * 86400000

def expired (now : Int) (retentionDays : Nat) (locked : Nat -> Bool) (row : OutboxRow) : Bool :=
  match row.processedAt with
  | none => false
  | some processedAt => decide (processedAt < now - daysMs retentionDays) && !locked row.id

/-- `ORDER BY processed_at`. -/
def processedBefore (left right : OutboxRow) : Prop :=
  left.processedAt.getD 0 ≤ right.processedAt.getD 0

instance : DecidableRel processedBefore := fun left right =>
  inferInstanceAs (Decidable (left.processedAt.getD 0 ≤ right.processedAt.getD 0))

def cleanupIds (table : OutboxTable) (now : Int) (retentionDays : Nat) (locked : Nat -> Bool)
    (limit : Nat) : List Nat :=
  (table.selectOrdered (expired now retentionDays locked) processedBefore limit).map OutboxRow.id

def cleanup (table : OutboxTable) (ids : List Nat) : OutboxTable :=
  table.deleteWhere fun row => ids.contains row.id

/-- A pending row that was never claimed, is overdue by more than `olderThanDays`,
and whose topic this process does not handle. -/
def unhandled (now : Int) (topics : List String) (olderThanDays : Nat) (locked : Nat -> Bool)
    (row : OutboxRow) : Bool :=
  row.pending && row.attempts == 0 &&
    decide (row.availableAt < now - daysMs olderThanDays) &&
    !topics.contains row.topic && !locked row.id

def unhandledIds (table : OutboxTable) (now : Int) (topics : List String) (olderThanDays : Nat)
    (locked : Nat -> Bool) (limit : Nat) : List Nat :=
  (table.selectOrdered (unhandled now topics olderThanDays locked) dueBefore limit).map
    OutboxRow.id

def deadLetterRow (now : Int) (row : OutboxRow) : OutboxRow :=
  { row with deadAt := some now, lastError := some "no_handler", claimToken := none }

/-- The update behind `deadLetterUnhandled`.  The outer statement names ids
whose rows the subquery locked, so they are still pending when it writes. -/
def deadLetterUnhandled (ids : List Nat) (now : Int) : OutboxUpdate where
  select := fun row => ids.contains row.id && row.pending
  image := deadLetterRow now
  keepsKey := fun _ => rfl
  keepsCheck := fun _ hselect _ =>
    .inl (OutboxRow.pending_eq_true.mp (Bool.and_eq_true_iff.mp hselect).2).1

structure NewEvent where
  topic : String
  aggregateId : Option String
  payload : String
  delayMs : Int

/-- The row `OUTBOX_INSERT_SQL` writes. -/
def newRow (id : Nat) (event : NewEvent) (now : Int) : OutboxRow where
  id := id
  topic := event.topic
  aggregateId := event.aggregateId
  payload := event.payload
  createdAt := now
  availableAt := now + event.delayMs
  attempts := 0
  processedAt := none
  lastError := none
  deadAt := none
  claimToken := none

def enqueue (table : OutboxTable) (id : Nat) (event : NewEvent) (now : Int)
    (hfresh : ∀ row ∈ table, row.id ≠ id) : OutboxTable :=
  table.insert (newRow id event now) hfresh (.inl rfl)

variable {table : OutboxTable} {now : Int}

theorem mem_enqueue {id : Nat} {event : NewEvent} (hfresh : ∀ row ∈ table, row.id ≠ id) :
    row ∈ enqueue table id event now hfresh <-> row ∈ table \/ row = newRow id event now :=
  Table.mem_insert

variable {topics : List String} {locked : Nat -> Bool} {limit : Nat}

theorem mem_due (hrow : row ∈ due table now topics locked limit) :
    row ∈ table /\ row.pending = true := by
  obtain ⟨hmem, hclaimable⟩ := Table.mem_of_mem_selectOrdered hrow
  simp only [claimable, Bool.and_eq_true] at hclaimable
  exact ⟨hmem, hclaimable.1.1.1⟩

theorem mem_due_of_id (hrow : row ∈ table)
    (hid : row.id ∈ (due table now topics locked limit).map OutboxRow.id) :
    row ∈ due table now topics locked limit := by
  obtain ⟨dueRow, hdue, hkey⟩ := mem_map.mp hid
  rw [Table.eq_of_key_eq hrow (mem_due hdue).1 hkey.symm]
  exact hdue

theorem mem_claimedEvents {rows : List OutboxRow} {leaseMs : Int} {event : OutboxEvent} :
    event ∈ claimedEvents rows now leaseMs token <->
      ∃ row ∈ rows,
        event = toEvent (claimRow now leaseMs token row) row.availableAt := by
  rw [claimedEvents, (perm_insertionSort claimOrder _).mem_iff, mem_map]
  constructor
  · rintro ⟨row, hrow, hevent⟩
    exact ⟨row, hrow, hevent.symm⟩
  · rintro ⟨row, hrow, hevent⟩
    exact ⟨row, hrow, hevent.symm⟩

theorem claimedEvents_ids_nodup {leaseMs : Int} :
    ((claimedEvents (due table now topics locked limit) now leaseMs token).map
      OutboxEvent.id).Nodup := by
  have hperm := (perm_insertionSort claimOrder
    ((due table now topics locked limit).map fun row =>
      toEvent (claimRow now leaseMs token row) row.availableAt)).map OutboxEvent.id
  rw [claimedEvents, hperm.nodup_iff, map_map]
  exact Table.selectOrdered_keys_nodup

theorem processed_of_cleanupIds {retentionDays : Nat} (hrow : row ∈ table)
    (hid : row.id ∈ cleanupIds table now retentionDays locked limit) : row.processedAt ≠ none := by
  obtain ⟨old, hold, hkey⟩ := mem_map.mp hid
  obtain ⟨hmem, hexpired⟩ := Table.mem_of_mem_selectOrdered hold
  rw [Table.eq_of_key_eq hrow hmem hkey.symm]
  intro hnone
  simp [expired, hnone] at hexpired

theorem unclaimed_of_unhandledIds {olderThanDays : Nat} (hrow : row ∈ table)
    (hid : row.id ∈ unhandledIds table now topics olderThanDays locked limit) :
    row.pending = true /\ row.attempts = 0 := by
  obtain ⟨old, hold, hkey⟩ := mem_map.mp hid
  obtain ⟨hmem, hunhandled⟩ := Table.mem_of_mem_selectOrdered hold
  rw [Table.eq_of_key_eq hrow hmem hkey.symm]
  simp only [unhandled, Bool.and_eq_true, beq_iff_eq] at hunhandled
  exact ⟨hunhandled.1.1.1.1, hunhandled.1.1.1.2⟩

end AnchorMind.Outbox.Store
