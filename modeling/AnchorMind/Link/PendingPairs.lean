import AnchorMind.Link.ContradictionDetector

/-!
# Pairs that wait for a judge

`processPendingContradictions` takes up to ten texts from the queue, one at a time, and
judges the pair each of them names.  An error puts the text back and ends the call; every
other way out lets go of it.
-/

namespace AnchorMind.Link.PendingPairs

open Link.ContradictionDetector List

/-- A text of the queue as `JSON.parse` reads it; an id may be `undefined`. -/
structure Entry (Id : Type*) where
  idA : Option Id
  idB : Option Id
  deriving DecidableEq

/-- What one pass of the loop meets: whether `lpop` answers, the fragments at the time of
each of the two queries unless it fails, the judge, whether the resolution goes through,
and whether a text can be put back. -/
structure Pass (Id : Type*) where
  popped : Bool
  fragmentsA : Option (Fragments Id)
  fragmentsB : Option (Fragments Id)
  gemini : GeminiAnswer
  resolves : Bool
  requeued : Bool

structure Pending (Id : Type*) where
  /-- `frag:pending_contradictions` -/
  queue : List String
  checkedPairs : Option Id × Option Id -> Nat
  processed : Nat

section

variable {Id : Type*} [LinearOrder Id] (parse : String -> Option (Entry Id))

/-- The two ids in order; with `undefined` no comparison holds. -/
def entryKey (entry : Entry Id) : Option Id × Option Id :=
  match entry.idA, entry.idB with
  | some idA, some idB => if idA < idB then (some idA, some idB) else (some idB, some idA)
  | idA, idB => (idB, idA)

/-- `_acquirePairCheck` -/
def acquirePairCheck (pending : Pending Id) (entry : Entry Id) : Option (Pending Id) :=
  let count := pending.checkedPairs (entryKey entry)
  if 3 ≤ count then none
  else
    some { pending with
      checkedPairs := Function.update pending.checkedPairs (entryKey entry) (count + 1) }

/-- `WHERE id = $1`; no row has an id that is `undefined`. -/
def rowOf (fragments : Fragments Id) (id : Option Id) : Option (Fragment Id) :=
  fragments.rows.find? fun row => decide (some row.id = id)

/-- The `try` block: whether it throws, and what it leaves. -/
def tryEntry (pending : Pending Id) (raw : String) (pass : Pass Id) : Bool × Pending Id :=
  match parse raw with
  | none => (true, pending)
  | some entry =>
    match acquirePairCheck pending entry with
    | none => (false, pending)
    | some checked =>
      match pass.fragmentsA, pass.fragmentsB with
      | some fragmentsA, some fragmentsB =>
        match rowOf fragmentsA entry.idA, rowOf fragmentsB entry.idB with
        | some rowA, some rowB =>
          match pass.gemini with
          | .answered true =>
            if (firstStatement (.contradiction rowA rowB)).isSome && !pass.resolves then
              (true, checked)
            else (false, { checked with processed := checked.processed + 1 })
          | .answered false => (false, checked)
          -- `askGeminiContradiction` catches the error and answers that nothing
          -- contradicts
          | .thrown => (false, checked)
          | .null => (true, checked)
        | _, _ => (false, checked)
      | _, _ => (true, checked)

/-- The passes from the `i`-th on. -/
def loop (passes : Nat -> Pass Id) : Nat -> Nat -> Pending Id -> Pending Id
  | 0, _, pending => pending
  | left + 1, i, pending =>
    if !(passes i).popped then pending
    else
      match pending.queue with
      | [] => pending
      | raw :: queue =>
        if raw = "" then { pending with queue := queue }
        else
          match tryEntry parse { pending with queue := queue } raw (passes i) with
          | (false, next) => loop passes left (i + 1) next
          | (true, next) =>
            if (passes i).requeued then { next with queue := next.queue ++ [raw] } else next

def processPendingContradictions (cliAvailable redisReady : Bool) (passes : Nat -> Pass Id)
    (pending : Pending Id) : Pending Id :=
  if !cliAvailable then pending
  else if !redisReady then pending
  else loop parse passes 10 0 pending

def Gone (fragments : Option (Fragments Id)) (id : Option Id) : Prop :=
  ∃ table, fragments = some table /\ ∀ row ∈ table.rows, some row.id ≠ id

/-- The judge answered: there is nothing to resolve, or the resolution went through.
Fragments of two keys and fragments held by a review are left as they are. -/
def ActedOn (entry : Entry Id) (pass : Pass Id) : Prop :=
  ∃ fragmentsA fragmentsB rowA rowB contradicts,
    pass.fragmentsA = some fragmentsA /\ rowOf fragmentsA entry.idA = some rowA /\
      pass.fragmentsB = some fragmentsB /\ rowOf fragmentsB entry.idB = some rowB /\
        pass.gemini = .answered contradicts /\
          (contradicts = true -> firstStatement (.contradiction rowA rowB) = none \/
            pass.resolves = true)

/-- How often the pair is named by the texts that were taken before. -/
def namedBefore (earlier : List String) (entry : Entry Id) : Nat :=
  earlier.countP fun raw =>
    (parse raw).any fun other => decide (entryKey other = entryKey entry)

/-- The pair got a verdict that was acted on, a fragment of it is gone, or it had been
checked `MAX_CONTRADICTION_DEPTH` times. -/
def Accounted (checkedPairs : Option Id × Option Id -> Nat) (earlier : List String)
    (raw : String) (pass : Pass Id) : Prop :=
  ∃ entry, parse raw = some entry /\
    (ActedOn entry pass \/ Gone pass.fragmentsA entry.idA \/ Gone pass.fragmentsB entry.idB \/
      3 ≤ checkedPairs (entryKey entry) + namedBefore parse earlier entry)

end

section

variable {Id : Type*} [LinearOrder Id] {parse : String -> Option (Entry Id)}
  {pending next : Pending Id} {raw : String} {pass : Pass Id}

theorem gone_of_rowOf {table : Fragments Id} {id : Option Id} (hrow : rowOf table id = none) :
    Gone (some table) id := by
  refine ⟨table, rfl, fun row hmem heq => ?_⟩
  have hnot := find?_eq_none.mp hrow row hmem
  simp [heq] at hnot

theorem checkedPairs_of_acquire {entry : Entry Id}
    (hacquire : acquirePairCheck pending entry = some next) (key : Option Id × Option Id) :
    next.checkedPairs key ≤
      pending.checkedPairs key + if entryKey entry = key then 1 else 0 := by
  simp only [acquirePairCheck] at hacquire
  split at hacquire
  · cases hacquire
  · cases hacquire
    dsimp only
    rcases eq_or_ne key (entryKey entry) with rfl | hne
    · rw [Function.update_self, if_pos rfl]
    · rw [Function.update_of_ne hne]
      omega

theorem queue_of_acquire {entry : Entry Id}
    (hacquire : acquirePairCheck pending entry = some next) : next.queue = pending.queue := by
  simp only [acquirePairCheck] at hacquire
  split at hacquire <;> cases hacquire
  rfl

/-- What the `try` block does: it leaves the queue, a text that is let go of is accounted
for, and the pair it names is counted once. -/
theorem tryEntry_spec {threw : Bool} (hanswers : pass.gemini ≠ .thrown)
    (htry : tryEntry parse pending raw pass = (threw, next)) :
    next.queue = pending.queue /\
      (threw = false -> Accounted parse pending.checkedPairs [] raw pass) /\
        ∀ entry, next.checkedPairs (entryKey entry) ≤
          pending.checkedPairs (entryKey entry) + namedBefore parse [raw] entry := by
  unfold tryEntry at htry
  cases hparse : parse raw with
  | none =>
    simp only [hparse] at htry
    cases htry
    exact ⟨rfl, nofun, fun entry => Nat.le_add_right _ _⟩
  | some entry =>
    simp only [hparse] at htry
    cases hacquire : acquirePairCheck pending entry with
    | none =>
      simp only [hacquire] at htry
      cases htry
      refine ⟨rfl, fun _ => ⟨entry, hparse, ?_⟩, fun other => Nat.le_add_right _ _⟩
      simp only [acquirePairCheck] at hacquire
      split at hacquire
      · rename_i hlimit
        exact .inr (.inr (.inr (Nat.le_add_right_of_le hlimit)))
      · cases hacquire
    | some checked =>
      simp only [hacquire] at htry
      have hqueue := queue_of_acquire hacquire
      have hcount : ∀ other, checked.checkedPairs (entryKey other) ≤
          pending.checkedPairs (entryKey other) + namedBefore parse [raw] other := by
        intro other
        have hle := checkedPairs_of_acquire hacquire (entryKey other)
        simpa [namedBefore, hparse, countP_cons] using hle
      split at htry
      · rename_i fragmentsA fragmentsB hA hB
        split at htry
        · rename_i rowA rowB hrowA hrowB
          have hacted : ∀ contradicts, pass.gemini = .answered contradicts ->
              (contradicts = true -> firstStatement (.contradiction rowA rowB) = none \/
                pass.resolves = true) -> ActedOn entry pass :=
            fun contradicts hgemini hdone =>
              ⟨fragmentsA, fragmentsB, rowA, rowB, contradicts, hA, hrowA, hB, hrowB, hgemini,
                hdone⟩
          split at htry
          · rename_i hgemini
            split at htry
            · cases htry
              exact ⟨hqueue, nofun, hcount⟩
            · rename_i hresolves
              cases htry
              refine ⟨hqueue, fun _ => ⟨entry, hparse, .inl (hacted true hgemini ?_)⟩, hcount⟩
              intro _
              cases hfirst : firstStatement (.contradiction rowA rowB) with
              | none => exact .inl rfl
              | some statement => exact .inr (by simpa [hfirst] using hresolves)
          · rename_i hgemini
            cases htry
            refine ⟨hqueue, fun _ => ⟨entry, hparse, .inl (hacted false hgemini ?_)⟩, hcount⟩
            exact nofun
          · rename_i hgemini
            exact absurd hgemini hanswers
          · cases htry
            exact ⟨hqueue, nofun, hcount⟩
        · rename_i hmissing
          cases htry
          refine ⟨hqueue, fun _ => ⟨entry, hparse, ?_⟩, hcount⟩
          cases hrowA : rowOf fragmentsA entry.idA with
          | none =>
            rw [hA]
            exact .inr (.inl (gone_of_rowOf hrowA))
          | some rowA =>
            cases hrowB : rowOf fragmentsB entry.idB with
            | none =>
              rw [hB]
              exact .inr (.inr (.inl (gone_of_rowOf hrowB)))
            | some rowB => exact absurd hrowB (hmissing rowA rowB hrowA)
      · cases htry
        exact ⟨hqueue, nofun, hcount⟩

/-- A text was let go of for a reason that also held at the beginning of the call. -/
theorem Accounted.earlier {checkedPairs : Option Id × Option Id -> Nat} {earlier : List String}
    {first : String} (haccounted : Accounted parse next.checkedPairs earlier raw pass)
    (hcount : ∀ entry, next.checkedPairs (entryKey entry) ≤
      checkedPairs (entryKey entry) + namedBefore parse [first] entry) :
    Accounted parse checkedPairs (first :: earlier) raw pass := by
  obtain ⟨entry, hparse, hacted | hgoneA | hgoneB | hlimit⟩ := haccounted
  · exact ⟨entry, hparse, .inl hacted⟩
  · exact ⟨entry, hparse, .inr (.inl hgoneA)⟩
  · exact ⟨entry, hparse, .inr (.inr (.inl hgoneB))⟩
  · refine ⟨entry, hparse, .inr (.inr (Or.inr ?_))⟩
    have hsplit : namedBefore parse (first :: earlier) entry =
        namedBefore parse [first] entry + namedBefore parse earlier entry := by
      unfold namedBefore
      rw [<- singleton_append, countP_append]
    have hle := hcount entry
    omega

theorem stays_accounted (parse : String -> Option (Entry Id)) (pending : Pending Id)
    (passes : Nat -> Pass Id) :
    ∃ gone back rest, pending.queue = gone ++ back ++ rest /\
      pending.queue = rest ++ back /\ ∀ k raw, gone[k]? = some raw ->
        Accounted parse pending.checkedPairs (gone.take k) raw (passes k) := by
  refine ⟨[], [], pending.queue, rfl, (append_nil _).symm, fun k raw hk => ?_⟩
  rw [getElem?_nil] at hk
  cases hk

/-- What a stretch of passes does to the queue: texts are taken from its front, those that
are let go of are accounted for, and the others are at its end. -/
theorem loop_accounted {passes : Nat -> Pass Id} (hpushed : ∀ i, (passes i).requeued = true)
    (hanswers : ∀ i, (passes i).gemini ≠ .thrown) (left i : Nat) (pending : Pending Id)
    (hwritten : "" ∉ pending.queue) :
    ∃ gone back rest, pending.queue = gone ++ back ++ rest /\
      (loop parse passes left i pending).queue = rest ++ back /\
        ∀ k raw, gone[k]? = some raw ->
          Accounted parse pending.checkedPairs (gone.take k) raw (passes (i + k)) := by
  induction left generalizing i pending with
  | zero => exact stays_accounted parse pending fun k => passes (i + k)
  | succ left ih =>
    have hstays := stays_accounted parse pending fun k => passes (i + k)
    rw [loop]
    split
    · exact hstays
    · cases hqueue : pending.queue with
      | nil =>
        rw [hqueue] at hstays
        simp only [hqueue]
        exact hstays
      | cons raw queue =>
        have hraw : raw ≠ "" := by
          rintro rfl
          exact hwritten (hqueue ▸ mem_cons_self)
        simp only [if_neg hraw]
        cases htry : tryEntry parse { pending with queue := queue } raw (passes i) with
        | mk threw next =>
          obtain ⟨hnext, haccounted, hcount⟩ := tryEntry_spec (hanswers i) htry
          cases threw with
          | true =>
            refine ⟨[], [raw], queue, rfl, ?_, fun k other hk => ?_⟩
            · simp only [hpushed i, if_true]
              rw [hnext]
            · rw [getElem?_nil] at hk
              cases hk
          | false =>
            have hrest : "" ∉ next.queue := by
              rw [hnext]
              intro hmem
              exact hwritten (hqueue ▸ mem_cons_of_mem _ hmem)
            obtain ⟨gone, back, rest, hsplit, hafter, hall⟩ := ih (i + 1) next hrest
            refine ⟨raw :: gone, back, rest, ?_, hafter, fun k other hk => ?_⟩
            · rw [hnext] at hsplit
              exact congrArg (cons raw) hsplit
            · cases k with
              | zero =>
                obtain rfl : raw = other := by simpa using hk
                exact haccounted rfl
              | succ k =>
                have hlater := hall k other (by simpa using hk)
                rw [Nat.add_assoc, Nat.add_comm 1 k] at hlater
                exact hlater.earlier hcount

end

/-- The text `1` names the pair of the fragments 1 and 2, the text `2` that of 1 and 3. -/
def sampleParse : String -> Option (Entry Nat)
  | "1" => some { idA := some 1, idB := some 2 }
  | "2" => some { idA := some 1, idB := some 3 }
  | _ => none

def sampleFragments : Fragments Nat := sampleState.fragments

/-- The judge sees no contradiction. -/
def samplePass : Pass Nat where
  popped := true
  fragmentsA := some sampleFragments
  fragmentsB := some sampleFragments
  gemini := .answered false
  resolves := true
  requeued := true

def samplePending (checks : Nat) : Pending Nat where
  queue := ["1", "x", "2"]
  checkedPairs _ := checks
  processed := 0

/-- A judge that gives no answer. -/
def silentPass : Pass Nat := { samplePass with gemini := .null }

end AnchorMind.Link.PendingPairs
