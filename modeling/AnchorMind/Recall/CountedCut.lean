import AnchorMind.Recall.BudgetSelector

/-!
# The search-order cut with the counts the process remembers

Exact counts are kept per fragment and per text.  Before a fragment is counted,
a lower bound that needs no tokenizer run may already refuse it.  The cut is
written over the question it asks, so that the code's question and the plain
count are two answers to it, compared once.
-/

namespace AnchorMind.Recall.CountedCut

open Recall.Tokens hiding fragmentTokenLowerBound fitTokens
open Recall.BudgetSelector (Ranking Picked hasTags)

section

variable {Id State : Type*} [DecidableEq Id]

abbrev Fit (Id State : Type*) := Fragment Id -> Nat -> Rat -> State -> Option Nat × State

def cutPrefix (fit : Fit Id State) (tokenBudget : Rat) :
    List (Fragment Id) -> Nat -> State -> List (Fragment Id) × State
  | [], _, state => ([], state)
  | f :: rest, used, state =>
    match fit f used tokenBudget state with
    | (none, state) => ([], state)
    | (some tokens, state) =>
      let (kept, state) := cutPrefix fit tokenBudget rest (used + tokens) state
      (f :: kept, state)

def pickExact (fit : Fit Id State) (share : Rat) :
    List (Fragment Id) -> Picked Id -> State -> Picked Id × State
  | [], picked, state => (picked, state)
  | f :: rest, picked, state =>
    if f.kwExact then
      match fit f picked.used share state with
      | (none, state) => (picked, state)
      | (some tokens, state) => pickExact fit share rest (picked.take f tokens) state
    else pickExact fit share rest picked state

def pickSupplement (fit : Fit Id State) (share tokenBudget : Rat) :
    List (Fragment Id) -> Nat -> Picked Id -> State -> Picked Id × State
  | [], _, picked, state => (picked, state)
  | f :: rest, semUsed, picked, state =>
    if f.id ∈ picked.picked ∨ f.kwSupplement = false then
      pickSupplement fit share tokenBudget rest semUsed picked state
    else
      match fit f semUsed share state with
      | (none, state) => (picked, state)
      | (some tokens, state) =>
        if tokenBudget < (picked.used + tokens : Nat) then (picked, state)
        else
          pickSupplement fit share tokenBudget rest (semUsed + tokens)
            (picked.take f tokens) state

/-- Stage three: whatever still fits, in order. -/
def pickRest (fit : Fit Id State) (tokenBudget : Rat) :
    List (Fragment Id) -> Picked Id -> State -> Picked Id × State
  | [], picked, state => (picked, state)
  | f :: rest, picked, state =>
    if f.id ∈ picked.picked then pickRest fit tokenBudget rest picked state
    else
      match fit f picked.used tokenBudget state with
      | (none, state) => pickRest fit tokenBudget rest picked state
      | (some tokens, state) => pickRest fit tokenBudget rest (picked.take f tokens) state

/-- The search-order cut over a question about single fragments. -/
def trimBy (fit : Fit Id State) (fragments : List (Fragment Id)) (tokenBudget : Rat)
    (ranking : Ranking) (state : State) : List (Fragment Id) × State :=
  if hasTags fragments then
    let (exact, state) := pickExact fit (tokenBudget * ranking.exactSlotShare) fragments ⟨0, []⟩
      state
    let (supplement, state) := pickSupplement fit (tokenBudget * ranking.semanticSlotShare)
      tokenBudget fragments 0 exact state
    let (all, state) := pickRest fit tokenBudget fragments supplement state
    (fragments.filter fun f => f.id ∈ all.picked, state)
  else cutPrefix fit tokenBudget fragments 0 state

def fitCounted (tokensOf : Fragment Id -> Nat) : Fit Id Unit :=
  fun f used limit state =>
    (if limit < (used + tokensOf f : Nat) then none else some (tokensOf f), state)

def trimCountingAll (tokensOf : Fragment Id -> Nat) (fragments : List (Fragment Id))
    (tokenBudget : Rat) (ranking : Ranking) : List (Fragment Id) :=
  (trimBy (fitCounted tokensOf) fragments tokenBudget ranking ()).1

end

section

/-- The tokenizer and the pre-split; no law is assumed of them. -/
structure Encoder where
  countTokens : String -> Nat
  countTokenPieces : String -> Nat

def contentTokenCacheLimit : Nat := 4096

/-- The remembered counts: by fragment, beside the text that was counted, and by
text, the least recently used one first. -/
structure TokenMemory (Id : Type*) where
  countedTokens : Ref Id -> Option (String × Nat)
  contentTokens : List (String × Nat)

def clearTokenCaches {Id : Type*} : TokenMemory Id :=
  { countedTokens := fun _ => none, contentTokens := [] }

variable {Id : Type*}

def TokenMemory.cached (memory : TokenMemory Id) (f : Fragment Id) : Option Nat :=
  match memory.countedTokens f.ref with
  | some (content, tokens) => if content = f.text then some tokens else none
  | none => none

def countContentTokens (encoder : Encoder) (content : String) (memory : TokenMemory Id) :
    Nat × TokenMemory Id :=
  match memory.contentTokens.lookup content with
  | some hit =>
    let others := memory.contentTokens.filter fun entry => entry.1 ≠ content
    (hit, { memory with contentTokens := others ++ [(content, hit)] })
  | none =>
    let tokens := encoder.countTokens content
    let grown := memory.contentTokens ++ [(content, tokens)]
    (tokens, { memory with
      contentTokens := if contentTokenCacheLimit < grown.length then grown.tail else grown })

variable [DecidableEq Id]

def fragmentTokens (encoder : Encoder) (f : Fragment Id) (memory : TokenMemory Id) :
    Nat × TokenMemory Id :=
  match truthy f.estimatedTokens with
  | some tokens => (tokens, memory)
  | none =>
    match memory.cached f with
    | some tokens => (tokens, memory)
    | none =>
      let (tokens, memory) := countContentTokens encoder f.text memory
      (tokens, { memory with
        countedTokens := Function.update memory.countedTokens f.ref (some (f.text, tokens)) })

def fragmentTokenLowerBound (encoder : Encoder) (f : Fragment Id) (memory : TokenMemory Id) :
    Nat :=
  match truthy f.estimatedTokens with
  | some tokens => tokens
  | none =>
    match memory.cached f with
    | some tokens => tokens
    | none => (memory.contentTokens.lookup f.text).getD (encoder.countTokenPieces f.text)

def fitTokens (encoder : Encoder) : Fit Id (TokenMemory Id) :=
  fun f used limit memory =>
    if limit < (used + fragmentTokenLowerBound encoder f memory : Nat) then (none, memory)
    else
      let (tokens, memory) := fragmentTokens encoder f memory
      (if limit < (used + tokens : Nat) then none else some tokens, memory)

def trimInSearchOrder (encoder : Encoder) (fragments : List (Fragment Id)) (tokenBudget : Rat)
    (ranking : Ranking) (memory : TokenMemory Id) : List (Fragment Id) × TokenMemory Id :=
  trimBy (fitTokens encoder) fragments tokenBudget ranking memory

def exactTokens (encoder : Encoder) (f : Fragment Id) : Nat :=
  (truthy f.estimatedTokens).getD (encoder.countTokens f.text)

end

section

variable {Id State : Type*}

/-- A question that keeps an invariant and, under it, answers as the counts do. -/
def Answers (Inv : State -> Prop) (tokensOf : Fragment Id -> Nat) (fit : Fit Id State)
    (f : Fragment Id) : Prop :=
  ∀ used limit state, Inv state -> ∃ after,
    fit f used limit state =
        (if limit < (used + tokensOf f : Nat) then none else some (tokensOf f), after) /\
      Inv after

variable {Inv : State -> Prop} {tokensOf : Fragment Id -> Nat} {fit : Fit Id State}
  {fragments : List (Fragment Id)} {state : State}

theorem cutPrefix_answers (tokenBudget : Rat) (hfit : ∀ f ∈ fragments, Answers Inv tokensOf fit f)
    (used : Nat) (hstate : Inv state) :
    (cutPrefix fit tokenBudget fragments used state).1 =
        (cutPrefix (fitCounted tokensOf) tokenBudget fragments used ()).1 /\
      Inv (cutPrefix fit tokenBudget fragments used state).2 := by
  induction fragments generalizing used state with
  | nil => exact ⟨rfl, hstate⟩
  | cons f rest ih =>
    obtain ⟨after, hanswer, hafter⟩ := hfit f List.mem_cons_self used tokenBudget state hstate
    rw [cutPrefix, cutPrefix, fitCounted, hanswer]
    by_cases hover : tokenBudget < (used + tokensOf f : Nat)
    · simp only [hover, if_true]
      exact ⟨trivial, hafter⟩
    · simp only [hover, if_false]
      obtain ⟨hkept, hinv⟩ := ih (fun g hg => hfit g (List.mem_cons_of_mem _ hg))
        (used + tokensOf f) hafter
      exact ⟨by rw [hkept], hinv⟩

theorem pickExact_answers (share : Rat) (hfit : ∀ f ∈ fragments, Answers Inv tokensOf fit f)
    (picked : Picked Id) (hstate : Inv state) :
    (pickExact fit share fragments picked state).1 =
        (pickExact (fitCounted tokensOf) share fragments picked ()).1 /\
      Inv (pickExact fit share fragments picked state).2 := by
  induction fragments generalizing picked state with
  | nil => exact ⟨rfl, hstate⟩
  | cons f rest ih =>
    have hrest : ∀ g ∈ rest, Answers Inv tokensOf fit g :=
      fun g hg => hfit g (List.mem_cons_of_mem _ hg)
    rw [pickExact, pickExact]
    split
    · obtain ⟨after, hanswer, hafter⟩ := hfit f List.mem_cons_self picked.used share state hstate
      rw [fitCounted, hanswer]
      by_cases hover : share < (picked.used + tokensOf f : Nat)
      · simp only [hover, if_true]
        exact ⟨trivial, hafter⟩
      · simp only [hover, if_false]
        exact ih hrest (picked.take f (tokensOf f)) hafter
    · exact ih hrest picked hstate

variable [DecidableEq Id]

theorem pickSupplement_answers (share tokenBudget : Rat)
    (hfit : ∀ f ∈ fragments, Answers Inv tokensOf fit f) (semUsed : Nat) (picked : Picked Id)
    (hstate : Inv state) :
    (pickSupplement fit share tokenBudget fragments semUsed picked state).1 =
        (pickSupplement (fitCounted tokensOf) share tokenBudget fragments semUsed picked ()).1 /\
      Inv (pickSupplement fit share tokenBudget fragments semUsed picked state).2 := by
  induction fragments generalizing semUsed picked state with
  | nil => exact ⟨rfl, hstate⟩
  | cons f rest ih =>
    have hrest : ∀ g ∈ rest, Answers Inv tokensOf fit g :=
      fun g hg => hfit g (List.mem_cons_of_mem _ hg)
    rw [pickSupplement, pickSupplement]
    split
    · exact ih hrest semUsed picked hstate
    · obtain ⟨after, hanswer, hafter⟩ := hfit f List.mem_cons_self semUsed share state hstate
      rw [fitCounted, hanswer]
      by_cases hover : share < (semUsed + tokensOf f : Nat)
      · simp only [hover, if_true]
        exact ⟨trivial, hafter⟩
      · simp only [hover, if_false]
        -- The whole budget is asked after the share, of the same count on both sides.
        split
        · exact ⟨rfl, hafter⟩
        · exact ih hrest (semUsed + tokensOf f) (picked.take f (tokensOf f)) hafter

theorem pickRest_answers (tokenBudget : Rat) (hfit : ∀ f ∈ fragments, Answers Inv tokensOf fit f)
    (picked : Picked Id) (hstate : Inv state) :
    (pickRest fit tokenBudget fragments picked state).1 =
        (pickRest (fitCounted tokensOf) tokenBudget fragments picked ()).1 /\
      Inv (pickRest fit tokenBudget fragments picked state).2 := by
  induction fragments generalizing picked state with
  | nil => exact ⟨rfl, hstate⟩
  | cons f rest ih =>
    have hrest : ∀ g ∈ rest, Answers Inv tokensOf fit g :=
      fun g hg => hfit g (List.mem_cons_of_mem _ hg)
    rw [pickRest, pickRest]
    split
    · exact ih hrest picked hstate
    · obtain ⟨after, hanswer, hafter⟩ :=
        hfit f List.mem_cons_self picked.used tokenBudget state hstate
      rw [fitCounted, hanswer]
      by_cases hover : tokenBudget < (picked.used + tokensOf f : Nat)
      · simp only [hover, if_true]
        exact ih hrest picked hafter
      · simp only [hover, if_false]
        exact ih hrest (picked.take f (tokensOf f)) hafter

theorem trimBy_answers (tokenBudget : Rat) (ranking : Ranking)
    (hfit : ∀ f ∈ fragments, Answers Inv tokensOf fit f) (hstate : Inv state) :
    (trimBy fit fragments tokenBudget ranking state).1 =
        trimCountingAll tokensOf fragments tokenBudget ranking /\
      Inv (trimBy fit fragments tokenBudget ranking state).2 := by
  rw [trimCountingAll, trimBy, trimBy]
  split
  · obtain ⟨hexact, hstate⟩ := pickExact_answers (tokenBudget * ranking.exactSlotShare) hfit
      ⟨0, []⟩ hstate
    obtain ⟨hsupplement, hstate⟩ := pickSupplement_answers
      (tokenBudget * ranking.semanticSlotShare) tokenBudget hfit 0 _ hstate
    obtain ⟨hall, hstate⟩ := pickRest_answers tokenBudget hfit _ hstate
    dsimp only
    refine ⟨?_, hstate⟩
    rw [hall, hsupplement, hexact]
  · exact cutPrefix_answers tokenBudget hfit 0 hstate

end

section

variable {Id : Type*} {encoder : Encoder} {memory : TokenMemory Id}

structure TokenMemory.Exact (encoder : Encoder) (memory : TokenMemory Id) : Prop where
  counted : ∀ ref content tokens, memory.countedTokens ref = some (content, tokens) ->
    tokens = encoder.countTokens content
  contents : ∀ entry ∈ memory.contentTokens,
    entry.2 = encoder.countTokens entry.1

theorem clearTokenCaches_exact : (clearTokenCaches : TokenMemory Id).Exact encoder :=
  ⟨nofun, nofun⟩

variable {f : Fragment Id}

section

variable (hmemory : memory.Exact encoder)
include hmemory

theorem TokenMemory.Exact.cached {tokens : Nat} (hcached : memory.cached f = some tokens) :
    tokens = encoder.countTokens f.text := by
  unfold TokenMemory.cached at hcached
  split at hcached
  · rename_i content counted hcounted
    obtain ⟨rfl, htokens⟩ := Option.ite_none_right_eq_some.mp hcached
    cases htokens
    exact hmemory.counted _ _ _ hcounted
  · exact nomatch hcached

theorem TokenMemory.Exact.lookup {content : String} {tokens : Nat}
    (hhit : memory.contentTokens.lookup content = some tokens) :
    tokens = encoder.countTokens content := by
  obtain ⟨before, after, hsplit, -⟩ := List.lookup_eq_some_iff.mp hhit
  exact hmemory.contents (content, tokens) (by simp [hsplit])

theorem countContentTokens_spec (content : String) :
    (countContentTokens encoder content memory).1 = encoder.countTokens content /\
      (countContentTokens encoder content memory).2.Exact encoder := by
  unfold countContentTokens
  split
  · rename_i hit hhit
    have hexact := hmemory.lookup hhit
    refine ⟨hexact, hmemory.counted, fun entry hentry => ?_⟩
    rcases List.mem_append.mp hentry with hother | hlast
    · exact hmemory.contents entry (List.mem_of_mem_filter hother)
    · obtain rfl := List.mem_singleton.mp hlast
      exact hexact
  · refine ⟨rfl, hmemory.counted, fun entry hentry => ?_⟩
    have hgrown : entry ∈ memory.contentTokens ++ [(content, encoder.countTokens content)] := by
      dsimp only at hentry
      split at hentry
      · exact List.mem_of_mem_tail hentry
      · exact hentry
    rcases List.mem_append.mp hgrown with hother | hlast
    · exact hmemory.contents entry hother
    · obtain rfl := List.mem_singleton.mp hlast
      rfl

theorem fragmentTokenLowerBound_le
    (hpieces : encoder.countTokenPieces f.text ≤ encoder.countTokens f.text) :
    fragmentTokenLowerBound encoder f memory ≤ exactTokens encoder f := by
  unfold fragmentTokenLowerBound exactTokens
  cases truthy f.estimatedTokens with
  | some tokens => exact le_refl _
  | none =>
    dsimp only
    cases hcached : memory.cached f with
    | some tokens => exact (hmemory.cached hcached).le
    | none =>
      cases hhit : memory.contentTokens.lookup f.text with
      | some tokens => exact (hmemory.lookup hhit).le
      | none => exact hpieces

variable [DecidableEq Id]

theorem fragmentTokens_spec (f : Fragment Id) :
    (fragmentTokens encoder f memory).1 = exactTokens encoder f /\
      (fragmentTokens encoder f memory).2.Exact encoder := by
  unfold fragmentTokens exactTokens
  cases htokens : truthy f.estimatedTokens with
  | some tokens => exact ⟨rfl, hmemory⟩
  | none =>
    dsimp only
    cases hcached : memory.cached f with
    | some tokens => exact ⟨hmemory.cached hcached, hmemory⟩
    | none =>
      obtain ⟨hcount, hafter⟩ := countContentTokens_spec hmemory f.text
      refine ⟨hcount, fun ref content tokens hcounted => ?_, hafter.contents⟩
      dsimp only at hcounted
      by_cases href : ref = f.ref
      · rw [href, Function.update_self] at hcounted
        obtain ⟨rfl, rfl⟩ := Prod.mk.inj (Option.some.inj hcounted)
        exact hcount
      · rw [Function.update_of_ne href] at hcounted
        exact hafter.counted _ _ _ hcounted

omit hmemory in
theorem fitTokens_answers (hpieces : encoder.countTokenPieces f.text ≤ encoder.countTokens f.text) :
    Answers (TokenMemory.Exact encoder) (exactTokens encoder) (fitTokens encoder) f := by
  intro used limit memory hmemory
  have hbound := fragmentTokenLowerBound_le hmemory hpieces
  obtain ⟨hcount, hafter⟩ := fragmentTokens_spec hmemory f
  unfold fitTokens
  by_cases hrefused : limit < (used + fragmentTokenLowerBound encoder f memory : Nat)
  · have hover : limit < (used + exactTokens encoder f : Nat) :=
      hrefused.trans_le (Nat.cast_le.mpr (Nat.add_le_add_left hbound used))
    exact ⟨memory, by rw [if_pos hrefused, if_pos hover], hmemory⟩
  · refine ⟨(fragmentTokens encoder f memory).2, ?_, hafter⟩
    rw [if_neg hrefused]
    dsimp only
    rw [hcount]

omit hmemory in
/-- From any exact memory, the cut keeps what plain trimming keeps, where the
pieces of every text are at most its tokens; the memory stays exact. -/
theorem trimInSearchOrder_eq_trimCountingAll (hmemory : memory.Exact encoder)
    (fragments : List (Fragment Id)) (tokenBudget : Rat) (ranking : Ranking)
    (hpieces : ∀ f ∈ fragments, encoder.countTokenPieces f.text ≤ encoder.countTokens f.text) :
    (trimInSearchOrder encoder fragments tokenBudget ranking memory).1 =
        trimCountingAll (exactTokens encoder) fragments tokenBudget ranking /\
      (trimInSearchOrder encoder fragments tokenBudget ranking memory).2.Exact encoder :=
  trimBy_answers tokenBudget ranking (fun f hf => fitTokens_answers (hpieces f hf)) hmemory

end

end

/-- Without a tokenizer both counts are a quarter of the length. -/
def approximateEncoder : Encoder :=
  { countTokens := approximateCounter.countTokens
    countTokenPieces := approximateCounter.countTokenPieces }

/-- A tagged search result between two that compete for the same budget. -/
def taggedCandidates : List (Fragment String) :=
  [{ id := "a", content := some "the long note about every retry of the queue" },
    { id := "b", content := some "retry policy", kwExact := true },
    { id := "c", content := some "queue depth" }]

/-- The long note is refused by its lower bound, and plain trimming leaves it out. -/
theorem trimInSearchOrder_refuses_long_note :
    (trimInSearchOrder approximateEncoder taggedCandidates 8 {} clearTokenCaches).1 =
        trimCountingAll (exactTokens approximateEncoder) taggedCandidates 8 {} /\
      (trimCountingAll (exactTokens approximateEncoder) taggedCandidates 8 {}).map Fragment.id =
        ["b", "c"] :=
  ⟨(trimInSearchOrder_eq_trimCountingAll clearTokenCaches_exact taggedCandidates 8 {}
    fun _ _ => le_refl _).1, by decide +kernel⟩

end AnchorMind.Recall.CountedCut
