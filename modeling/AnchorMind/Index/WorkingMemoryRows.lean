import Mathlib.Algebra.Order.BigOperators.Group.List
import Mathlib.Algebra.Order.Ring.Nat

/-!
# What a full working memory evicts

The oldest items that are not protected go until the tokens fit, then the oldest of what is left
until the rows do.
-/

namespace AnchorMind.Index.WorkingMemoryRows

/-- An item; what is no number is `none`. -/
structure Item where
  importance : Option Rat
  estimatedTokens : Option Nat

/-- The double next to 0.8. -/
def PROTECTED_IMPORTANCE : Rat := 3602879701896397 / 4503599627370496

def Item.isProtected (item : Item) : Bool := PROTECTED_IMPORTANCE < item.importance.getD 0

def Item.tokens (item : Item) : Nat := item.estimatedTokens.getD 0

def exceeds (limit : Option Nat) (amount : Nat) : Bool := limit.any (· < amount)

def totalTokens (items : List Item) : Nat := (items.map Item.tokens).sum

/-- The first loop: of each place, whether it is in the set. -/
def tokenPhase (maxTokens : Option Nat) : Nat -> List Item -> List Bool
  | _, [] => []
  | total, item :: rest =>
    if exceeds maxTokens total && !item.isProtected then
      true :: tokenPhase maxTokens (total - item.tokens) rest
    else false :: tokenPhase maxTokens total rest

/-- The second loop, over the places that the first one left. -/
def rowPhase (maxRows : Option Nat) : Nat -> List Bool -> List Bool
  | _, [] => []
  | remaining, out :: rest =>
    if exceeds maxRows remaining && !out then true :: rowPhase maxRows (remaining - 1) rest
    else out :: rowPhase maxRows remaining rest

def selectBudgetEvictionIndices (items : List Item) (maxTokens maxRows : Option Nat) : List Bool :=
  let out := tokenPhase maxTokens (totalTokens items) items
  rowPhase maxRows (out.count false) out

/-- What an eviction leaves. -/
def remaining (items : List Item) (out : List Bool) : List Item :=
  ((items.zip out).filter fun entry => !entry.2).map Prod.fst

variable {maxTokens maxRows : Option Nat} {items : List Item} {out : List Bool} {i j : Nat}
  {total : Nat}

theorem tokenPhase_of_fits (hfits : exceeds maxTokens total = false) :
    tokenPhase maxTokens total items = List.replicate items.length false := by
  induction items with
  | nil => rfl
  | cons item rest ih => simp [tokenPhase, hfits, ih, List.replicate_succ]

theorem length_tokenPhase (total : Nat) :
    (tokenPhase maxTokens total items).length = items.length := by
  induction items generalizing total with
  | nil => rfl
  | cons item rest ih =>
    rw [tokenPhase]
    split <;> simp [ih]

theorem tokenPhase_protected {item : Item} (hitem : items[i]? = some item)
    (hevicted : (tokenPhase maxTokens total items)[i]? = some true) : item.isProtected = false := by
  induction items generalizing total i with
  | nil => cases hitem
  | cons first rest ih =>
    rw [tokenPhase] at hevicted
    cases i <;> grind

theorem tokenPhase_oldest {item : Item} (hlt : i < j) (hitem : items[i]? = some item)
    (hfree : item.isProtected = false)
    (hevicted : (tokenPhase maxTokens total items)[j]? = some true) :
    (tokenPhase maxTokens total items)[i]? = some true := by
  induction items generalizing total i j with
  | nil => cases hitem
  | cons first rest ih =>
    cases hfits : exceeds maxTokens total with
    | false =>
      rw [tokenPhase_of_fits hfits, List.getElem?_replicate] at hevicted
      grind
    | true =>
      simp only [tokenPhase, hfits, Bool.true_and] at hevicted ⊢
      cases j <;> cases i <;> grind

theorem remaining_cons (item : Item) (items : List Item) (mark : Bool) (out : List Bool) :
    remaining (item :: items) (mark :: out) =
      if mark then remaining items out else item :: remaining items out := by
  cases mark <;> rfl

theorem tokenPhase_fits (before : Nat) : exceeds maxTokens (before + totalTokens
      (remaining items (tokenPhase maxTokens (before + totalTokens items) items))) = false \/
    ∀ item ∈ remaining items (tokenPhase maxTokens (before + totalTokens items) items),
      item.isProtected = true := by
  induction items generalizing before with
  | nil => exact .inr nofun
  | cons item rest ih =>
    have htotal : totalTokens (item :: rest) = item.tokens + totalTokens rest := by
      simp [totalTokens]
    cases hfits : exceeds maxTokens (before + totalTokens (item :: rest)) with
    | false =>
      have hall : remaining (item :: rest) (List.replicate (item :: rest).length false) =
          item :: rest := by
        generalize item :: rest = all
        induction all with
        | nil => rfl
        | cons first rest ih => rw [List.length_cons, List.replicate_succ, remaining_cons, ih]; rfl
      rw [tokenPhase_of_fits hfits, hall, hfits]
      exact .inl rfl
    | true =>
      cases hkind : item.isProtected with
      | false =>
        have hgone : before + totalTokens (item :: rest) - item.tokens =
            before + totalTokens rest := by omega
        simpa [tokenPhase, hfits, hkind, remaining_cons, hgone] using ih before
      | true =>
        have hstays := ih (before + item.tokens)
        rw [show before + item.tokens + totalTokens rest =
          before + totalTokens (item :: rest) by omega] at hstays
        simpa [tokenPhase, hfits, hkind, remaining_cons, totalTokens, Nat.add_assoc] using hstays

variable {amount : Nat}

theorem rowPhase_of_fits (hfits : exceeds maxRows amount = false) :
    rowPhase maxRows amount out = out := by
  induction out with
  | nil => rfl
  | cons mark rest ih => simp [rowPhase, hfits, ih]

theorem rowPhase_fits : exceeds maxRows ((rowPhase maxRows (out.count false) out).count false) =
    false := by
  induction out with
  | nil => cases maxRows <;> simp [rowPhase, exceeds]
  | cons mark rest ih =>
    cases hfits : exceeds maxRows ((mark :: rest).count false) with
    | false => rw [rowPhase_of_fits hfits, hfits]
    | true => cases mark <;> simp_all [rowPhase]

/-- What the second loop takes out is the oldest of what was left, and is taken while the rows
exceed their limit. -/
theorem rowPhase_oldest (hevicted : (rowPhase maxRows (out.count false) out)[j]? = some true) :
    out[j]? = some true \/
      (∀ i, i < j -> (rowPhase maxRows (out.count false) out)[i]? = some true) /\
        exceeds maxRows ((out.drop j).count false) = true := by
  induction out generalizing j with
  | nil => cases hevicted
  | cons mark rest ih =>
    cases hfits : exceeds maxRows ((mark :: rest).count false) with
    | false =>
      rw [rowPhase_of_fits hfits] at hevicted
      exact .inl hevicted
    | true =>
      cases j with
      | zero => cases mark <;> simp_all
      | succ j =>
        have hrest : rowPhase maxRows ((mark :: rest).count false) (mark :: rest) =
            true :: rowPhase maxRows (rest.count false) rest := by
          cases mark <;> simp_all [rowPhase]
        rw [hrest] at hevicted ⊢
        refine (ih hevicted).imp_right fun ⟨hall, hexceeds⟩ => ⟨fun i hlt => ?_, hexceeds⟩
        cases i with
        | zero => rfl
        | succ i => exact hall i (Nat.lt_of_succ_lt_succ hlt)

theorem rowPhase_keeps (hout : out[i]? = some true) :
    (rowPhase maxRows amount out)[i]? = some true := by
  induction out generalizing amount i with
  | nil => cases hout
  | cons mark rest ih =>
    rw [rowPhase]
    cases i <;> grind

theorem remaining_rowPhase_sublist :
    (remaining items (rowPhase maxRows amount out)).Sublist (remaining items out) := by
  induction items generalizing out amount with
  | nil => exact .refl _
  | cons item rest ih =>
    cases out with
    | nil => exact .refl _
    | cons mark out =>
      rw [rowPhase]
      split
      · cases mark
        · exact ih.cons item
        · simp_all
      · cases mark
        · exact ih.cons_cons item
        · exact ih

theorem length_remaining (hlength : out.length = items.length) :
    (remaining items out).length = out.count false := by
  induction items generalizing out with
  | nil => rw [List.length_eq_zero_iff.mp hlength]; rfl
  | cons item rest ih =>
    cases out with
    | nil => cases hlength
    | cons mark out =>
      have hrest := ih (Nat.succ.inj hlength)
      cases mark <;> simp [remaining_cons, hrest]

theorem length_rowPhase (amount : Nat) : (rowPhase maxRows amount out).length = out.length := by
  induction out generalizing amount with
  | nil => rfl
  | cons mark rest ih =>
    rw [rowPhase]
    split <;> simp [ih]

def rowsFrom (items : List Item) (maxTokens : Option Nat) (j : Nat) : Nat :=
  ((tokenPhase maxTokens (totalTokens items) items).drop j).count false

/-- At most so many rows are left, and their tokens fit or all of them are protected; a protected
item goes only while the rows exceed their limit, when all older ones are gone; and what goes of
the others is older than what stays of them. -/
theorem selectBudgetEvictionIndices_keeps (items : List Item) (maxTokens maxRows : Option Nat) :
    let out := selectBudgetEvictionIndices items maxTokens maxRows
    exceeds maxRows (remaining items out).length = false /\
      (exceeds maxTokens (totalTokens (remaining items out)) = false \/
        ∀ item ∈ remaining items out, item.isProtected = true) /\
      (∀ j : Nat, items[j]?.any Item.isProtected = true -> out[j]? = some true ->
        (∀ i, i < j -> out[i]? = some true) /\
          exceeds maxRows (rowsFrom items maxTokens j) = true) /\
      ∀ i j : Nat, i < j -> items[i]?.any Item.isProtected = false -> out[j]? = some true ->
        out[i]? = some true := by
  intro out
  have htokens := @length_tokenPhase maxTokens items (totalTokens items)
  have hless : (remaining items out).Sublist (remaining items
      (tokenPhase maxTokens (totalTokens items) items)) := remaining_rowPhase_sublist
  refine ⟨?_, ?_, fun j hprotected hevicted => ?_, fun i j hlt hfree hevicted => ?_⟩
  · rw [length_remaining (by rw [← htokens]; exact length_rowPhase _)]
    exact rowPhase_fits
  · have hfits := @tokenPhase_fits maxTokens items 0
    rw [Nat.zero_add, Nat.zero_add] at hfits
    refine hfits.imp (fun hfits => ?_) fun hall item hitem => hall item (hless.subset hitem)
    have hle := (hless.map Item.tokens).sum_le_sum (by simp)
    cases maxTokens with
    | none => rfl
    | some limit =>
      simp only [exceeds, Option.any_some, decide_eq_false_iff_not, Nat.not_lt] at hfits ⊢
      exact hle.trans hfits
  · refine (rowPhase_oldest hevicted).resolve_left fun hfirst => ?_
    obtain ⟨item, hitem, hkind⟩ := (Option.any_eq_true _ _).mp hprotected
    rw [tokenPhase_protected hitem hfirst] at hkind
    cases hkind
  · rcases rowPhase_oldest hevicted with hfirst | hsecond
    · have hbound : j < items.length := htokens ▸ (List.getElem?_eq_some_iff.mp hfirst).1
      have hitem := List.getElem?_eq_getElem (hlt.trans hbound)
      rw [hitem] at hfree
      exact rowPhase_keeps (tokenPhase_oldest hlt hitem hfree hfirst)
    · exact hsecond.1 i hlt

end AnchorMind.Index.WorkingMemoryRows
