import AnchorMind.Text.Characters
import Mathlib.Algebra.Order.BigOperators.Group.List

/-!
# Token counts of fragments

The exact count comes from the stored column or from the tokenizer.  Around it
stand a lower bound and an upper bound that need no tokenizer run, an estimate
used while a selection is built, and the counts made during one request.  Every
short cut is measured against the exact count.
-/

namespace AnchorMind.Recall.Tokens

open Text.Utf16

/-- A recall candidate, as far as selection and ranking read it. -/
structure Fragment (Id : Type*) where
  id : Id
  type : String := "fact"
  content : Option String := none
  estimatedTokens : Option Nat := none
  storedTokens : Option Int := none
  kwExact : Bool := false
  kwSupplement : Bool := false
  lexicalOnly : Bool := false
  linked : Bool := false
  keywords : Option (List String) := none
  similarity : Option Rat := none
  validTo : Option Int := none
  createdAt : Option Int := none
  keyId : Option String := none
  caseId : Option String := none
  quarantineState : Option String := none
  resolutionStatus : Option String := none

/-- The tokenizer.  Pieces of the pre-split text are at most its tokens, and a
token takes at least one byte. -/
structure TokenCounter where
  countTokens : String -> Nat
  countTokenPieces : String -> Nat
  pieces_le_tokens : ∀ text, countTokenPieces text ≤ countTokens text
  tokens_le_bytes : ∀ text, countTokens text ≤ text.utf8ByteSize

def approximateCounter : TokenCounter where
  countTokens := fun text => (utf16Length text + 3) / 4
  countTokenPieces := fun text => (utf16Length text + 3) / 4
  pieces_le_tokens := fun _ => le_refl _
  tokens_le_bytes := fun text => by
    have hlength := utf16Length_le_utf8ByteSize text
    omega

/-- A number that is absent or zero is falsy. -/
def truthy (n : Option Nat) : Option Nat := n.filter fun value => value ≠ 0

variable {Id : Type*}

/-- The object a request holds for a fragment: a search result, or a linked row
loaded beside it. -/
abbrev Ref (Id : Type*) := Id × Bool

def Fragment.ref (f : Fragment Id) : Ref Id := (f.id, f.linked)

def Fragment.text (f : Fragment Id) : String := f.content.getD ""

def fragmentTokens (counter : TokenCounter) (f : Fragment Id) : Nat :=
  match truthy f.estimatedTokens with
  | some tokens => tokens
  | none => counter.countTokens f.text

def fragmentTokenLowerBound (counter : TokenCounter) (remembered : Fragment Id -> Bool)
    (f : Fragment Id) : Nat :=
  match truthy f.estimatedTokens with
  | some tokens => tokens
  | none => if remembered f then counter.countTokens f.text else counter.countTokenPieces f.text

def tokenUpperBound (f : Fragment Id) : Nat :=
  match truthy f.estimatedTokens with
  | some tokens => tokens
  | none => f.text.utf8ByteSize

theorem fragmentTokenLowerBound_le (counter : TokenCounter) (remembered : Fragment Id -> Bool)
    (f : Fragment Id) :
    fragmentTokenLowerBound counter remembered f ≤ fragmentTokens counter f := by
  unfold fragmentTokenLowerBound fragmentTokens
  split
  · exact le_refl _
  · split
    · exact le_refl _
    · exact counter.pieces_le_tokens f.text

theorem fragmentTokens_le_upperBound (counter : TokenCounter) (f : Fragment Id) :
    fragmentTokens counter f ≤ tokenUpperBound f := by
  unfold fragmentTokens tokenUpperBound
  split
  · exact le_refl _
  · exact counter.tokens_le_bytes f.text

abbrev Counts (Id : Type*) := Ref Id -> Option Nat

def noCounts : Counts Id := fun _ => none

def countedTokens (counter : TokenCounter) (counts : Counts Id) (f : Fragment Id) : Nat :=
  (counts f.ref).getD (fragmentTokens counter f)

/-- The number a selection is built on. -/
def estimateTokens (counts : Counts Id) (f : Fragment Id) : Nat :=
  match truthy f.estimatedTokens with
  | some tokens => tokens
  | none =>
    match counts f.ref with
    | some tokens => tokens
    | none =>
      match f.storedTokens with
      | some (.ofNat (stored + 1)) => stored + 1
      | _ => (utf16Length f.text + 3) / 4

inductive Measure (Id : Type*) where
  | exact (remembered : Fragment Id -> Bool)
  | estimate (tokensOf : Fragment Id -> Nat)

def Measure.tokensOf (counter : TokenCounter) : Measure Id -> Fragment Id -> Nat
  | .exact _ => fragmentTokens counter
  | .estimate tokensOf => tokensOf

def Measure.refuses (counter : TokenCounter) (f : Fragment Id) (used : Nat) (limit : Rat) :
    Measure Id -> Bool
  | .exact remembered =>
    decide (limit < (used + fragmentTokenLowerBound counter remembered f : Nat))
  | .estimate _ => false

/-- The tokens of a fragment that still fits, `none` otherwise. -/
def fitTokens (counter : TokenCounter) (measure : Measure Id) (f : Fragment Id) (used : Nat)
    (limit : Rat) : Option Nat :=
  if measure.refuses counter f used limit then none
  else
    let tokens := measure.tokensOf counter f
    if limit < (used + tokens : Nat) then none else some tokens

theorem Measure.lt_of_refuses {counter : TokenCounter} {f : Fragment Id} {used : Nat} {limit : Rat}
    {measure : Measure Id} (hrefuses : measure.refuses counter f used limit = true) :
    limit < (used + measure.tokensOf counter f : Nat) := by
  cases measure with
  | estimate tokensOf => exact nomatch hrefuses
  | exact remembered =>
    have hlower := of_decide_eq_true hrefuses
    refine hlower.trans_le (Nat.cast_le.mpr ?_)
    exact Nat.add_le_add_left (fragmentTokenLowerBound_le counter remembered f) used

theorem fitTokens_eq (counter : TokenCounter) (measure : Measure Id) (f : Fragment Id) (used : Nat)
    (limit : Rat) :
    fitTokens counter measure f used limit =
      if limit < (used + measure.tokensOf counter f : Nat) then none
      else some (measure.tokensOf counter f) := by
  unfold fitTokens
  split
  · rename_i hrefuses
    rw [if_pos (Measure.lt_of_refuses hrefuses)]
  · rfl

def exactTotal (counter : TokenCounter) (fragments : List (Fragment Id)) : Nat :=
  (fragments.map (fragmentTokens counter)).sum

@[simp] theorem exactTotal_nil (counter : TokenCounter) :
    exactTotal counter ([] : List (Fragment Id)) = 0 := rfl

@[simp] theorem exactTotal_cons (counter : TokenCounter) (f : Fragment Id)
    (rest : List (Fragment Id)) :
    exactTotal counter (f :: rest) = fragmentTokens counter f + exactTotal counter rest :=
  List.sum_cons

theorem exactTotal_perm (counter : TokenCounter) {left right : List (Fragment Id)}
    (hperm : left.Perm right) : exactTotal counter left = exactTotal counter right :=
  (hperm.map _).sum_eq

theorem exactTotal_le_of_sublist (counter : TokenCounter) {small large : List (Fragment Id)}
    (hsub : small.Sublist large) : exactTotal counter small ≤ exactTotal counter large :=
  (hsub.map _).sum_le_sum fun _ _ => Nat.zero_le _

theorem exactTotal_le_upperBounds (counter : TokenCounter) (fragments : List (Fragment Id)) :
    exactTotal counter fragments ≤ (fragments.map tokenUpperBound).sum :=
  List.sum_le_sum fun f _ => fragmentTokens_le_upperBound counter f

section

variable [DecidableEq Id]

def Counts.set (counts : Counts Id) (f : Fragment Id) (tokens : Nat) : Counts Id :=
  Function.update counts f.ref (some tokens)

def countUntilOver (counter : TokenCounter) (budget : Rat) :
    List (Fragment Id) -> Nat -> Counts Id -> Bool × Counts Id
  | [], _, counts => (false, counts)
  | f :: rest, exact, counts =>
    let tokens := fragmentTokens counter f
    let counts := counts.set f tokens
    if budget < (exact + tokens : Nat) then (true, counts)
    else countUntilOver counter budget rest (exact + tokens) counts

def exceedsBudget (counter : TokenCounter) (fragments : List (Fragment Id)) (budget : Rat)
    (counts : Counts Id) : Bool × Counts Id :=
  if ((fragments.map tokenUpperBound).sum : Nat) ≤ budget then (false, counts)
  else countUntilOver counter budget fragments 0 counts

def countPrefixExactly (counter : TokenCounter) (budget : Rat) :
    List (Fragment Id) -> Nat -> Counts Id -> Counts Id
  | [], _, counts => counts
  | f :: rest, exact, counts =>
    let tokens := countedTokens counter counts f
    let counts := counts.set f tokens
    if budget < (exact + tokens : Nat) then counts
    else countPrefixExactly counter budget rest (exact + tokens) counts

theorem countUntilOver_eq_false_iff (counter : TokenCounter) (budget : Rat)
    (fragments : List (Fragment Id)) (exact : Nat) (counts : Counts Id)
    (hexact : (exact : Rat) ≤ budget) :
    (countUntilOver counter budget fragments exact counts).1 = false <->
      ((exact + exactTotal counter fragments : Nat) : Rat) ≤ budget := by
  induction fragments generalizing exact counts with
  | nil => simpa [countUntilOver] using hexact
  | cons f rest ih =>
    rw [countUntilOver, exactTotal_cons, ← Nat.add_assoc]
    split
    · rename_i hover
      have hle : exact + fragmentTokens counter f
          ≤ exact + fragmentTokens counter f + exactTotal counter rest := Nat.le_add_right _ _
      simpa using hover.trans_le (by exact_mod_cast hle)
    · rename_i hfits
      exact ih _ _ (not_lt.mp hfits)

theorem exceedsBudget_eq_false_iff (counter : TokenCounter) (fragments : List (Fragment Id))
    {budget : Rat} (counts : Counts Id) (hbudget : 0 ≤ budget) :
    (exceedsBudget counter fragments budget counts).1 = false <->
      (exactTotal counter fragments : Rat) ≤ budget := by
  unfold exceedsBudget
  split
  · rename_i hupper
    have hle : (exactTotal counter fragments : Rat)
        ≤ ((fragments.map tokenUpperBound).sum : Nat) :=
      Nat.cast_le.mpr (exactTotal_le_upperBounds counter fragments)
    exact ⟨fun _ => hle.trans hupper, fun _ => rfl⟩
  · have hzero : ((0 : Nat) : Rat) ≤ budget := by simpa using hbudget
    simpa using countUntilOver_eq_false_iff counter budget fragments 0 counts hzero

end

end AnchorMind.Recall.Tokens
