import Mathlib.Logic.Basic

/-!
# Transactions and savepoints

Work on a store returns a result or an error and leaves the store changed.  A transaction
undoes the work that throws; a savepoint also undoes work whose result is not to be kept.
The two agree on work that leaves nothing behind with such a result.
-/

namespace AnchorMind.Kernel.Transactions

abbrev Work (Store Error Result : Type*) := Store -> Except Error Result × Store

variable {Store Error Result : Type*}

/-- `COMMIT` after a result, `ROLLBACK` after an error. -/
def transaction (work : Work Store Error Result) : Work Store Error Result := fun store =>
  match work store with
  | (.ok result, changed) => (.ok result, changed)
  | (.error error, _) => (.error error, store)

/-- `RELEASE SAVEPOINT` after a result to keep, `ROLLBACK TO SAVEPOINT` otherwise. -/
def savepoint (keep : Result -> Bool) (work : Work Store Error Result) :
    Work Store Error Result := fun store =>
  match work store with
  | (.ok result, changed) => (.ok result, if keep result then changed else store)
  | (.error error, _) => (.error error, store)

def Tidy (keep : Result -> Bool) (work : Work Store Error Result) : Prop :=
  ∀ store result changed, work store = (.ok result, changed) -> keep result = false ->
    changed = store

variable {keep : Result -> Bool} {work : Work Store Error Result} {store : Store}

theorem savepoint_eq_transaction (htidy : Tidy keep work) :
    savepoint keep work = transaction work := by
  funext store
  unfold savepoint transaction
  split
  · rename_i result changed hwork
    cases hkeep : keep result with
    | true => rfl
    | false => rw [htidy store result changed hwork hkeep, ite_self]
  · rfl

theorem tidy_keepAll : Tidy (fun _ => true) work := by
  intro store result changed _ hkeep
  cases hkeep

theorem transaction_of_error {error : Error} (herror : (transaction work store).1 = .error error) :
    (transaction work store).2 = store := by
  unfold transaction at herror ⊢
  split
  · rename_i result changed hwork
    rw [hwork] at herror
    cases herror
  · rfl

theorem transaction_of_tidy (htidy : Tidy keep work) {result : Result}
    (hresult : (transaction work store).1 = .ok result) (hkeep : keep result = false) :
    (transaction work store).2 = store := by
  unfold transaction at hresult ⊢
  split
  · rename_i found changed hwork
    rw [hwork] at hresult
    cases hresult
    exact htidy store result changed hwork hkeep
  · rfl

end AnchorMind.Kernel.Transactions
