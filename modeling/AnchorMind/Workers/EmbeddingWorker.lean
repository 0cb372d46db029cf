import AnchorMind.Write.EventExpressions
import Mathlib.Data.List.ReduceOption

/-!
# The chunks of the embedding worker

Rows are sent in chunks.  After an error that names an input its row goes to the dead letters
and the rest is sent again; after any other error each row is embedded alone.
-/

namespace AnchorMind.Workers.EmbeddingWorker

open Kernel.Backtracking Kernel.Backtracking.Matcher Write.EventExpressions Text.JsonText List

/-- `/Invalid 'input\[(\d+)\]'/` -/
def inputIndex : Pattern Nat := do
  let _ <- word "Invalid 'input["
  let row <- many isDigit 1
  let _ <- word "]'"
  pure (numberOf row)

def indexMatch (message : JsString) : Option Nat :=
  (matchAll inputIndex message).head?.map Match.value

variable {Row Text Vector : Type}

def BYTE_CAP : Nat := 256 * 1024

def COUNT_CAP : Nat := 200

/-- The chunks of the rows that follow a begun chunk of so many bytes. -/
def chunks (rowBytes : Row -> Nat) (chunk : List Row) (bytes : Nat) : List Row -> List (List Row)
  | [] => if chunk = [] then [] else [chunk]
  | row :: rest =>
    if chunk ≠ [] /\ (BYTE_CAP < bytes + rowBytes row \/ COUNT_CAP ≤ chunk.length) then
      chunk :: chunks rowBytes [row] (rowBytes row) rest
    else chunks rowBytes (chunk ++ [row]) (bytes + rowBytes row) rest

/-- What one call may take; a row of more bytes goes alone. -/
def Sendable (rowBytes : Row -> Nat) (chunk : List Row) : Prop :=
  chunk.length ≤ COUNT_CAP /\ ((chunk.map rowBytes).sum ≤ BYTE_CAP \/ chunk.length = 1)

theorem chunks_begun (rowBytes : Row -> Nat) (chunk rows : List Row)
    (hchunk : chunk = [] \/ Sendable rowBytes chunk) :
    (chunks rowBytes chunk (chunk.map rowBytes).sum rows).flatten = chunk ++ rows /\
      ∀ sent ∈ chunks rowBytes chunk (chunk.map rowBytes).sum rows,
        sent ≠ [] /\ Sendable rowBytes sent := by
  induction rows generalizing chunk with
  | nil => by_cases hempty : chunk = [] <;> simp_all [chunks]
  | cons row rest ih =>
    rw [chunks]
    split
    · rename_i hcut
      obtain ⟨hflat, hsent⟩ := ih [row] (.inr ⟨by simp [COUNT_CAP], .inr rfl⟩)
      simp only [map_singleton, sum_singleton] at hflat hsent
      exact ⟨by simp [hflat],
        forall_mem_cons.mpr ⟨⟨hcut.1, hchunk.resolve_left hcut.1⟩, hsent⟩⟩
    · rename_i hfits
      have hlonger := ih (chunk ++ [row]) ?_
      · simpa using hlonger
      · by_cases hempty : chunk = []
        · subst hempty
          exact .inr ⟨by simp [COUNT_CAP], .inr rfl⟩
        · have hroom := not_or.mp fun hfull => hfits ⟨hempty, hfull⟩
          simp [Sendable]
          omega

/-- The cache, the provider and the list of dead letters, by the depth of the recursion. -/
structure Services (Row Text Vector : Type) where
  cacheKeyText : Row -> Text
  embeddingCache : Nat -> Text -> Option Vector
  generateBatchEmbeddings : Nat -> List Text -> Except JsString (List Vector)
  lpush : Nat -> Row -> Bool

/-- Where the rows of a chunk went: into the `UPDATE` with a vector, to the dead letters, or
to `_embedOne`. -/
structure Outcome (Row Vector : Type) where
  offered : List (Row × Vector) := []
  dead : List Row := []
  fallback : List Row := []

def Outcome.rows (outcome : Outcome Row Vector) : List Row :=
  outcome.dead ++ (outcome.offered.map Prod.fst ++ outcome.fallback)

/-- The row of a call that named it, and what came after. -/
def Outcome.after (dead : List Row) (outcome : Outcome Row Vector) : Outcome Row Vector :=
  { outcome with dead := dead ++ outcome.dead }

section

variable (services : Services Row Text Vector)

/-- The vectors of a chunk of which every text is in the cache. -/
def cachedVecs (depth : Nat) (chunkRows : List Row) : Option (List Vector) :=
  let cached := chunkRows.map fun row => services.embeddingCache depth (services.cacheKeyText row)
  if cached.all Option.isSome then some cached.reduceOption else none

/-- The named row, if there is one and Redis takes it. -/
def deadLetters (depth badIdx : Nat) (chunkRows : List Row) : List Row :=
  chunkRows[badIdx]?.toList.filter (services.lpush depth)

/-- The run with at most so many batch calls; there is no outcome where it takes more. -/
def embedChunk (batchCalls depth : Nat) (chunkRows : List Row) : Option (Outcome Row Vector) :=
  match cachedVecs services depth chunkRows, batchCalls with
  | some vecs, _ => some { offered := chunkRows.zip vecs }
  | none, 0 => none
  | none, batchCalls + 1 =>
    match services.generateBatchEmbeddings depth (chunkRows.map services.cacheKeyText) with
    | .ok vecs => some { offered := chunkRows.zip vecs }
    | .error message =>
      match indexMatch message with
      | some badIdx =>
        let remaining := chunkRows.eraseIdx badIdx
        let later :=
          if remaining = [] then some {} else embedChunk batchCalls (depth + 1) remaining
        later.map (.after (deadLetters services depth badIdx chunkRows))
      | none => some { fallback := chunkRows }

/-- The run ends after at most so many batch calls, and every row is in one place. -/
def Settles (batchCalls depth : Nat) (chunkRows : List Row) : Prop :=
  ∃ outcome, embedChunk services batchCalls depth chunkRows = some outcome /\
    outcome.rows ~ chunkRows

def Pushed (depth badIdx : Nat) (chunkRows : List Row) : Prop :=
  ∀ row ∈ chunkRows[badIdx]?.toList, services.lpush depth row = true

/-- A call is spared, answered with a vector for every row, or fails without naming an input;
a row named before is pushed. -/
def Answered : Nat -> Nat -> List Row -> Prop
  | 0, depth, chunkRows => (cachedVecs services depth chunkRows).isSome = true
  | batchCalls + 1, depth, chunkRows =>
    (cachedVecs services depth chunkRows).isSome = true \/
      match services.generateBatchEmbeddings depth (chunkRows.map services.cacheKeyText) with
      | .ok vecs => chunkRows.length ≤ vecs.length
      | .error message =>
        match indexMatch message with
        | some badIdx =>
          Pushed services depth badIdx chunkRows /\
            Answered batchCalls (depth + 1) (chunkRows.eraseIdx badIdx)
        | none => True

end

variable {services : Services Row Text Vector} {batchCalls depth badIdx : Nat}
  {chunkRows : List Row}

theorem length_cachedVecs {vecs : List Vector}
    (hcached : cachedVecs services depth chunkRows = some vecs) :
    vecs.length = chunkRows.length := by
  obtain ⟨hall, hvecs⟩ := Option.ite_none_right_eq_some.mp hcached
  rw [← Option.some.inj hvecs, reduceOption_length_eq_iff.mpr (all_eq_true.mp hall), length_map]

@[simp]
theorem rows_after (dead : List Row) (outcome : Outcome Row Vector) :
    (outcome.after dead).rows = dead ++ outcome.rows := append_assoc ..

/-- The loop over rows and vectors stops with the shorter of the two. -/
theorem rows_zip (vecs : List Vector) :
    Outcome.rows { offered := chunkRows.zip vecs } = chunkRows.take vecs.length := by
  rw [Outcome.rows, zip_eq_zip_take_min, map_fst_zip (by simp)]
  simp [take_eq_take_iff, Nat.min_comm]

/-- An index past the end of the chunk names no row and leaves the chunk as it is. -/
theorem named_append_perm (badIdx : Nat) (chunkRows : List Row) :
    chunkRows[badIdx]?.toList ++ chunkRows.eraseIdx badIdx ~ chunkRows := by
  cases hbad : chunkRows[badIdx]? with
  | none => simp [eraseIdx_of_length_le (getElem?_eq_none_iff.mp hbad)]
  | some row =>
    obtain ⟨hin, rfl⟩ := List.getElem?_eq_some_iff.mp hbad
    exact getElem_cons_eraseIdx_perm hin

theorem length_deadLetters_le (badIdx : Nat) :
    (deadLetters services depth badIdx chunkRows).length +
      (chunkRows.eraseIdx badIdx).length ≤ chunkRows.length := by
  rw [← (named_append_perm badIdx chunkRows).length_eq, length_append]
  exact Nat.add_le_add_right (length_filter_le _ _) _

/-- What is handed on beside the named row covers the chunk when the row is pushed and the
rest covers the rest. -/
theorem deadLetters_append_perm_iff {left : List Row}
    (hle : left.length ≤ (chunkRows.eraseIdx badIdx).length) :
    deadLetters services depth badIdx chunkRows ++ left ~ chunkRows <->
      Pushed services depth badIdx chunkRows /\ left ~ chunkRows.eraseIdx badIdx := by
  have hnamed := named_append_perm badIdx chunkRows
  constructor
  · intro hperm
    have hlength := hperm.length_eq.trans hnamed.length_eq.symm
    have hfewer := length_filter_le (services.lpush depth) chunkRows[badIdx]?.toList
    rw [deadLetters, length_append, length_append] at hlength
    have hpush : deadLetters services depth badIdx chunkRows = chunkRows[badIdx]?.toList :=
      filter_sublist.eq_of_length (by omega)
    rw [hpush] at hperm
    exact ⟨filter_eq_self.mp hpush, (perm_append_left_iff _).mp (hperm.trans hnamed.symm)⟩
  · rintro ⟨hpush, hrest⟩
    rw [deadLetters, filter_eq_self.mpr hpush]
    exact (hrest.append_left _).trans hnamed

/-- An empty rest is not sent again, and would need no call. -/
theorem embedChunk_remaining (batchCalls depth : Nat) (remaining : List Row) :
    (if remaining = [] then some {} else embedChunk services batchCalls depth remaining) =
      embedChunk services batchCalls depth remaining := by
  cases remaining with
  | nil => cases batchCalls <;> rfl
  | cons row rest => exact if_neg (cons_ne_nil row rest)

/-- Nothing is handed on twice. -/
theorem length_rows_le {outcome : Outcome Row Vector}
    (hreturns : embedChunk services batchCalls depth chunkRows = some outcome) :
    outcome.rows.length ≤ chunkRows.length := by
  fun_induction embedChunk services batchCalls depth chunkRows generalizing outcome with
  | case1 | case3 =>
    cases hreturns
    rw [rows_zip]
    exact length_take_le' _ _
  | case2 => cases hreturns
  | case4 =>
    rename_i badIdx _ remaining _ ih
    obtain ⟨rest, hrest, rfl⟩ := Option.map_eq_some_iff.mp hreturns
    rw [rows_after, length_append]
    have hleft : rest.rows.length ≤ remaining.length :=
      ih ((embedChunk_remaining _ _ remaining).symm.trans hrest)
    exact (Nat.add_le_add_left hleft _).trans (length_deadLetters_le badIdx)
  | case5 =>
    cases hreturns
    exact le_refl _

theorem settles_of_cached {vecs : List Vector}
    (hcached : cachedVecs services depth chunkRows = some vecs) :
    Settles services batchCalls depth chunkRows := by
  refine ⟨{ offered := chunkRows.zip vecs }, ?_, ?_⟩
  · rw [embedChunk.eq_def, hcached]
  · rw [rows_zip, length_cachedVecs hcached, take_length]

theorem settles_iff (batchCalls depth : Nat) (chunkRows : List Row) :
    Settles services batchCalls depth chunkRows <->
      Answered services batchCalls depth chunkRows := by
  induction batchCalls generalizing depth chunkRows with
  | zero =>
    cases hcached : cachedVecs services depth chunkRows with
    | some vecs => simp [Answered, hcached, settles_of_cached hcached]
    | none => simp [Answered, hcached, Settles, embedChunk]
  | succ batchCalls ih =>
    cases hcached : cachedVecs services depth chunkRows with
    | some vecs => simp [Answered, hcached, settles_of_cached hcached]
    | none =>
      simp only [Answered, Settles, embedChunk, hcached, Option.isSome_none, Bool.false_eq_true,
        false_or]
      cases services.generateBatchEmbeddings depth (chunkRows.map services.cacheKeyText) with
      | ok vecs =>
        constructor
        · rintro ⟨outcome, hreturns, hperm⟩
          cases hreturns
          rw [rows_zip] at hperm
          have hlength := hperm.length_eq
          rw [length_take] at hlength
          omega
        · intro hle
          refine ⟨_, rfl, ?_⟩
          rw [rows_zip, take_of_length_le hle]
      | error message =>
        cases hindex : indexMatch message with
        | none =>
          simp only [hindex, iff_true]
          exact ⟨{ fallback := chunkRows }, rfl, Perm.refl _⟩
        | some badIdx =>
          simp only [hindex, embedChunk_remaining, ← ih]
          constructor
          · rintro ⟨outcome, hreturns, hperm⟩
            obtain ⟨later, hlater, rfl⟩ := Option.map_eq_some_iff.mp hreturns
            rw [rows_after] at hperm
            obtain ⟨hpush, hrest⟩ :=
              (deadLetters_append_perm_iff (length_rows_le hlater)).mp hperm
            exact ⟨hpush, later, hlater, hrest⟩
          · rintro ⟨hpush, later, hlater, hrest⟩
            refine ⟨_, by rw [hlater]; rfl, ?_⟩
            rw [rows_after]
            exact (deadLetters_append_perm_iff (length_rows_le hlater)).mpr ⟨hpush, hrest⟩

end AnchorMind.Workers.EmbeddingWorker
