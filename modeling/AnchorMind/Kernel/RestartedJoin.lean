import Mathlib.Order.BoundedOrder.Lattice

/-!
# A join that starts over

Hits are joined one after the other, and the first complete hit starts the join over.  What
is left depends on the order, unless the complete hits hold all that the others bring.
-/

namespace AnchorMind.Kernel.RestartedJoin

open List

variable {Hit Value : Type*} [SemilatticeSup Value] [OrderBot Value]
variable (complete : Hit -> Bool) (value : Hit -> Value)

def joined (hits : List Hit) : Value := (hits.map value).foldr (· ⊔ ·) ⊥

structure State (Value : Type*) where
  complete : Bool
  value : Value

def step (state : State Value) (hit : Hit) : State Value :=
  if state.complete = false ∧ complete hit = true then { complete := true, value := value hit }
  else { state with value := state.value ⊔ value hit }

def run (state : State Value) (hits : List Hit) : State Value :=
  hits.foldl (step complete value) state

variable {complete value}

@[simp]
theorem joined_nil : joined value ([] : List Hit) = ⊥ := rfl

@[simp]
theorem joined_cons (hit : Hit) (rest : List Hit) :
    joined value (hit :: rest) = value hit ⊔ joined value rest := rfl

theorem joined_append (front back : List Hit) :
    joined value (front ++ back) = joined value front ⊔ joined value back := by
  induction front with
  | nil => exact (bot_sup_eq _).symm
  | cons hit rest ih => rw [cons_append, joined_cons, joined_cons, ih, sup_assoc]

variable {left right : List Hit}

theorem joined_perm (hperm : left.Perm right) : joined value left = joined value right := by
  induction hperm with
  | nil => rfl
  | cons hit _ ih => rw [joined_cons, joined_cons, ih]
  | swap first second rest => rw [joined_cons, joined_cons, joined_cons, joined_cons, sup_left_comm]
  | trans _ _ hfirst hsecond => exact hfirst.trans hsecond

theorem joined_filter_le (kept : Hit -> Bool) (hits : List Hit) :
    joined value (hits.filter kept) ≤ joined value hits := by
  induction hits with
  | nil => exact le_refl _
  | cons hit rest ih =>
    rw [joined_cons]
    by_cases hkept : kept hit = true
    · rw [filter_cons_of_pos hkept, joined_cons]
      exact sup_le_sup_left ih _
    · rw [filter_cons_of_neg hkept]
      exact ih.trans le_sup_right

variable {state : State Value}

theorem run_of_complete (hstate : state.complete = true) (hits : List Hit) :
    run complete value state hits =
      { complete := true, value := state.value ⊔ joined value hits } := by
  induction hits generalizing state with
  | nil =>
    rw [joined_nil, sup_bot_eq, ← hstate]
    rfl
  | cons hit rest ih =>
    have hstep : step complete value state hit =
        { state with value := state.value ⊔ value hit } := by
      refine if_neg ?_
      rintro ⟨hfalse, -⟩
      rw [hstate] at hfalse
      cases hfalse
    rw [run, foldl_cons, hstep]
    refine (@ih { state with value := state.value ⊔ value hit } hstate).trans ?_
    rw [joined_cons, sup_assoc]

variable {hits : List Hit}

theorem run_of_none (hnone : ∀ hit ∈ hits, complete hit = false) :
    run complete value state hits =
      { state with value := state.value ⊔ joined value hits } := by
  induction hits generalizing state with
  | nil =>
    rw [joined_nil, sup_bot_eq]
    rfl
  | cons hit rest ih =>
    have hstep : step complete value state hit =
        { state with value := state.value ⊔ value hit } := by
      refine if_neg ?_
      rintro ⟨-, htrue⟩
      rw [hnone hit mem_cons_self] at htrue
      cases htrue
    rw [run, foldl_cons, hstep]
    refine (@ih { state with value := state.value ⊔ value hit }
      fun other hother => hnone other (mem_cons_of_mem _ hother)).trans ?_
    rw [joined_cons, sup_assoc]

theorem run_between (hsome : ∃ hit ∈ hits, complete hit = true) :
    joined value (hits.filter complete) ≤ (run complete value state hits).value /\
      (run complete value state hits).value ≤ state.value ⊔ joined value hits := by
  induction hits generalizing state with
  | nil =>
    obtain ⟨hit, hhit, -⟩ := hsome
    exact absurd hhit not_mem_nil
  | cons hit rest ih =>
    rw [run, foldl_cons, joined_cons]
    by_cases hhit : complete hit = true
    · -- From here on everything is joined.
      obtain ⟨next, hnext, hcomplete, hlow, hhigh⟩ : ∃ next,
          step complete value state hit = next /\ next.complete = true /\
            value hit ≤ next.value /\ next.value ≤ state.value ⊔ value hit := by
        refine ⟨_, rfl, ?_⟩
        unfold step
        by_cases hstate : state.complete = true
        · rw [if_neg (by rw [hstate]; rintro ⟨hfalse, -⟩; cases hfalse)]
          exact ⟨hstate, le_sup_right, le_refl _⟩
        · rw [if_pos ⟨Bool.eq_false_iff.mpr hstate, hhit⟩]
          exact ⟨rfl, le_refl _, le_sup_right⟩
      rw [hnext]
      have hrun : run complete value next rest = _ := run_of_complete hcomplete rest
      rw [run] at hrun
      rw [hrun, filter_cons_of_pos hhit, joined_cons, ← sup_assoc]
      exact ⟨sup_le_sup hlow (joined_filter_le _ _), sup_le_sup_right hhigh _⟩
    · have hrest : ∃ other ∈ rest, complete other = true := by
        obtain ⟨other, hother, htrue⟩ := hsome
        rcases mem_cons.mp hother with rfl | hmem
        · exact absurd htrue hhit
        · exact ⟨other, hmem, htrue⟩
      have hstep : step complete value state hit =
          { state with value := state.value ⊔ value hit } :=
        if_neg fun hboth => hhit hboth.2
      rw [hstep, filter_cons_of_neg hhit, ← sup_assoc]
      exact ih hrest

def Held (complete : Hit -> Bool) (value : Hit -> Value) (hits : List Hit) : Prop :=
  (∃ hit ∈ hits, complete hit = true) ->
    joined value (hits.filter fun hit => !complete hit) ≤ joined value (hits.filter complete)

theorem joined_split (hits : List Hit) :
    joined value hits = joined value (hits.filter complete) ⊔
      joined value (hits.filter fun hit => !complete hit) := by
  rw [← joined_append]
  exact joined_perm (filter_append_perm complete hits).symm

theorem run_eq_joined (hheld : Held complete value hits) :
    (run complete value { complete := false, value := ⊥ } hits).value = joined value hits := by
  by_cases hsome : ∃ hit ∈ hits, complete hit = true
  · have hbetween := @run_between _ _ _ _ complete value { complete := false, value := ⊥ } _ hsome
    rw [bot_sup_eq] at hbetween
    have hall : joined value hits = joined value (hits.filter complete) := by
      have hsplit : joined value hits = joined value (hits.filter complete) ⊔ _ :=
        joined_split hits
      rw [hsplit]
      exact sup_eq_left.mpr (hheld hsome)
    exact le_antisymm hbetween.2 (hall ▸ hbetween.1)
  · have hnone : ∀ hit ∈ hits, complete hit = false := fun hit hhit =>
      Bool.eq_false_iff.mpr fun htrue => hsome ⟨hit, hhit, htrue⟩
    rw [run_of_none hnone]
    exact bot_sup_eq _

variable {front back : List Hit}

theorem run_incomplete_first (hfront : ∀ hit ∈ front, complete hit = false)
    (hback : ∀ hit ∈ back, complete hit = true) (hne : back ≠ []) :
    (run complete value { complete := false, value := ⊥ } (front ++ back)).value =
      joined value back := by
  obtain ⟨hit, rest, rfl⟩ := exists_cons_of_ne_nil hne
  have hhit := hback hit mem_cons_self
  have hfirst : run complete value { complete := false, value := ⊥ } front = _ :=
    run_of_none hfront
  rw [run, foldl_append, foldl_cons]
  rw [run] at hfirst
  rw [hfirst, step, if_pos ⟨rfl, hhit⟩]
  have hrest : run complete value { complete := true, value := value hit } rest = _ :=
    run_of_complete rfl rest
  rw [run] at hrest
  rw [hrest]
  rfl

theorem run_complete_first (hfront : ∀ hit ∈ front, complete hit = true) (hne : front ≠ []) :
    (run complete value { complete := false, value := ⊥ } (front ++ back)).value =
      joined value front ⊔ joined value back := by
  obtain ⟨hit, rest, rfl⟩ := exists_cons_of_ne_nil hne
  rw [run, cons_append, foldl_cons, step,
    if_pos ⟨rfl, hfront hit mem_cons_self⟩]
  have hrest : run complete value { complete := true, value := value hit } (rest ++ back) = _ :=
    run_of_complete rfl (rest ++ back)
  rw [run] at hrest
  rw [hrest, joined_append, joined_cons, sup_assoc]

theorem Held.perm (hheld : Held complete value left) (hperm : left.Perm right) :
    Held complete value right := by
  rintro ⟨hit, hhit, hcomplete⟩
  have hle := hheld ⟨hit, hperm.mem_iff.mpr hhit, hcomplete⟩
  rwa [joined_perm (hperm.filter _), joined_perm (hperm.filter _)] at hle

theorem held_of_run_eq (hfront : ∀ hit ∈ front, complete hit = false)
    (hback : ∀ hit ∈ back, complete hit = true) (hne : back ≠ [])
    (hsame : (run complete value { complete := false, value := ⊥ } (front ++ back)).value =
      (run complete value { complete := false, value := ⊥ } (back ++ front)).value) :
    Held complete value (front ++ back) := by
  intro _
  rw [run_incomplete_first hfront hback hne, run_complete_first hback hne] at hsame
  have hkept : (front ++ back).filter complete = back := by
    rw [filter_append, filter_eq_self.mpr hback, filter_eq_nil_iff.mpr]
    · rfl
    · intro hit hhit
      rw [hfront hit hhit]
      exact Bool.false_ne_true
  have hdropped : ((front ++ back).filter fun hit => !complete hit) = front := by
    rw [filter_append, filter_eq_self.mpr, filter_eq_nil_iff.mpr, append_nil]
    · intro hit hhit
      rw [hback hit hhit]
      exact Bool.false_ne_true
    · intro hit hhit
      rw [hfront hit hhit]
      rfl
  rw [hkept, hdropped, hsame]
  exact le_sup_right

end AnchorMind.Kernel.RestartedJoin
