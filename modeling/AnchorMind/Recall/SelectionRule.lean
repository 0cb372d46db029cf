import AnchorMind.Recall.RankingOrder
import AnchorMind.Recall.WithinBudget

/-!
# The rule behind a construction

A construction is described without positions, marks or running maxima: what has
been chosen decides what is chosen next.  The rule reads the pool and the chosen
fragments as collections only, and the code's construction follows it.
-/

namespace AnchorMind.Recall.SelectionRule

open Kernel.LeastRank Recall.Tokens Recall.BudgetSelector List

section

variable {Id Value : Type*} [LinearOrder Id] [Score Value]

structure Weights (Id Value : Type*) where
  score : Fragment Id -> Value
  tier : Fragment Id -> Nat
  tokens : Fragment Id -> Nat

variable (weights : Weights Id Value) (budget : Rat) (lambda : Value)

def used (chosen : List (Fragment Id)) : Nat := (chosen.map weights.tokens).sum

def hasRoom (chosen : List (Fragment Id)) (f : Fragment Id) : Bool :=
  decide (f.id ∉ chosen.map Fragment.id) &&
    decide ((used weights chosen + weights.tokens f : Nat) ≤ budget)

def closeness (chosen : List (Fragment Id)) (f : Fragment Id) : Value :=
  (chosen.map (pairSimilarity f)).foldl max 0

def density (chosen : List (Fragment Id)) (f : Fragment Id) : Value :=
  (lambda * weights.score f - (1 - lambda) * closeness chosen f) /
    ((max (weights.tokens f) 1 : Nat) : Value)

def sectionRank (f : Fragment Id) : Nat ×ₗ Valueᵒᵈ ×ₗ Id :=
  toLex (weights.tier f, toLex (OrderDual.toDual (weights.score f), f.id))

def fillRank (chosen : List (Fragment Id)) (f : Fragment Id) :
    Nat ×ₗ Valueᵒᵈ ×ₗ Valueᵒᵈ ×ₗ Id :=
  toLex (weights.tier f, toLex (OrderDual.toDual (density weights lambda chosen f),
    toLex (OrderDual.toDual (weights.score f), f.id)))

def sectionChoice (chosen : List (Fragment Id)) (sec : Section) (pool : List (Fragment Id)) :
    Option (Fragment Id) :=
  (pool.filter fun f => decide (sectionOf f = sec ∧ 0 < weights.score f) &&
    hasRoom weights budget chosen f).argmin (sectionRank weights)

def fillChoice (chosen : List (Fragment Id)) (pool : List (Fragment Id)) :
    Option (Fragment Id) :=
  (pool.filter (hasRoom weights budget chosen)).argmin (fillRank weights lambda chosen)

def represent (pool : List (Fragment Id)) (represented : List Section) (sections : List Section)
    (chosen : List (Fragment Id)) : List (Fragment Id) :=
  sections.foldl (fun chosen sec =>
    if sec ∈ represented then chosen
    else chosen ++ (sectionChoice weights budget chosen sec pool).toList) chosen

def fillUp (pool : List (Fragment Id)) : Nat -> List (Fragment Id) -> List (Fragment Id)
  | 0, chosen => chosen
  | rounds + 1, chosen =>
    match fillChoice weights budget lambda chosen pool with
    | none => chosen
    | some best => fillUp pool rounds (chosen ++ [best])

def construct (pool seed : List (Fragment Id)) : List (Fragment Id) :=
  fillUp weights budget lambda pool pool.length
    (represent weights budget pool (seed.map sectionOf) sectionOrder seed)

end

section

variable {Id Value : Type*} {weights : Weights Id Value} {budget : Rat} {lambda : Value}
  {pool others chosen same : List (Fragment Id)}

theorem eq_of_id (hids : (pool.map Fragment.id).Nodup) {f g : Fragment Id} (hf : f ∈ pool)
    (hg : g ∈ pool) (hsame : f.id = g.id) : f = g :=
  inj_on_of_nodup_map hids hf hg hsame

theorem hasRoom_perm [LinearOrder Id] (hchosen : chosen.Perm same) :
    hasRoom weights budget chosen = hasRoom weights budget same := by
  funext f
  have hused : used weights chosen = used weights same := (hchosen.map weights.tokens).sum_eq
  simp only [hasRoom, hused, (hchosen.map Fragment.id).mem_iff]

variable [Score Value]

theorem closeness_perm (hchosen : chosen.Perm same) (f : Fragment Id) :
    (closeness chosen f : Value) = closeness same f :=
  (hchosen.map (pairSimilarity f)).foldl_op_eq

theorem fillRank_perm (hchosen : chosen.Perm same) :
    fillRank weights lambda chosen = fillRank weights lambda same := by
  funext f
  simp only [fillRank, density, closeness_perm hchosen f]

variable [LinearOrder Id]

theorem sectionChoice_perm (hchosen : chosen.Perm same) (hpool : pool.Perm others)
    (hids : (others.map Fragment.id).Nodup) (sec : Section) :
    sectionChoice weights budget chosen sec pool =
      sectionChoice weights budget same sec others := by
  rw [sectionChoice, sectionChoice, hasRoom_perm hchosen]
  refine argmin_eq_of_perm (hpool.filter _) fun f hf g hg hrank => ?_
  have hid : f.id = g.id :=
    (Prod.mk.inj (toLex.injective (Prod.mk.inj (toLex.injective hrank)).2)).2
  exact eq_of_id hids (mem_of_mem_filter hf) (mem_of_mem_filter hg) hid

theorem fillChoice_perm (hchosen : chosen.Perm same) (hpool : pool.Perm others)
    (hids : (others.map Fragment.id).Nodup) :
    fillChoice weights budget lambda chosen pool =
      fillChoice weights budget lambda same others := by
  rw [fillChoice, fillChoice, hasRoom_perm hchosen, fillRank_perm hchosen]
  refine argmin_eq_of_perm (hpool.filter _) fun f hf g hg hrank => ?_
  have htail := (Prod.mk.inj (toLex.injective hrank)).2
  have hid : f.id = g.id :=
    (Prod.mk.inj (toLex.injective (Prod.mk.inj (toLex.injective htail)).2)).2
  exact eq_of_id hids (mem_of_mem_filter hf) (mem_of_mem_filter hg) hid

theorem represent_perm {represented marked : List Section} (hsections : represented ⊆ marked)
    (hback : marked ⊆ represented) (hchosen : chosen.Perm same) (hpool : pool.Perm others)
    (hids : (others.map Fragment.id).Nodup) (sections : List Section) :
    (represent weights budget pool represented sections chosen).Perm
      (represent weights budget others marked sections same) := by
  induction sections generalizing chosen same with
  | nil => exact hchosen
  | cons sec rest ih =>
    refine ih ?_
    dsimp only
    by_cases hsec : sec ∈ represented
    · rw [if_pos hsec, if_pos (hsections hsec)]
      exact hchosen
    · rw [if_neg hsec, if_neg fun hmarked => hsec (hback hmarked),
        sectionChoice_perm hchosen hpool hids]
      exact hchosen.append_right _

theorem fillUp_perm (hpool : pool.Perm others) (hids : (others.map Fragment.id).Nodup)
    (rounds : Nat) (hchosen : chosen.Perm same) :
    (fillUp weights budget lambda pool rounds chosen).Perm
      (fillUp weights budget lambda others rounds same) := by
  induction rounds generalizing chosen same with
  | zero => exact hchosen
  | succ rounds ih =>
    rw [fillUp, fillUp, fillChoice_perm hchosen hpool hids]
    cases fillChoice weights budget lambda same others with
    | none => exact hchosen
    | some best => exact ih (hchosen.append_right [best])

theorem construct_perm (weights : Weights Id Value) (budget : Rat) (lambda : Value)
    {seed start : List (Fragment Id)} (hpool : pool.Perm others) (hseed : seed.Perm start)
    (hids : (others.map Fragment.id).Nodup) :
    (construct weights budget lambda pool seed).Perm
      (construct weights budget lambda others start) := by
  have hsections := hseed.map sectionOf
  rw [construct, construct, hpool.length_eq]
  exact fillUp_perm hpool hids _
    (represent_perm hsections.subset hsections.symm.subset hseed hpool hids sectionOrder)

end

end AnchorMind.Recall.SelectionRule

/-!
# Rows of the recall

Objects with the fields that the rankings read and write: what a copy with updated fields
holds, their fields as numbers, and the order by score.
-/

namespace AnchorMind.Recall.Rows

open Kernel.Comparators RankingOrder List

/-- The fields of an object. -/
abbrev Row := List (String × Input)

def Row.id (row : Row) : Input := read (some row) "id"

/-- `f.similarity ?? 0` -/
def similarityOrZero (f : Fragment) : Input :=
  match read f "similarity" with
  | .undefined => .number (.finite 0)
  | .null => .number (.finite 0)
  | similarity => similarity

def Row.similarity (row : Row) : Input := similarityOrZero (some row)

/-- `{ ...fields, ...updates }` -/
def assign (fields updates : Row) : Row :=
  fields.filter (fun field => field.1 ∉ updates.map Prod.fst) ++ updates

theorem lookup_filter (kept : String -> Bool) (fields : Row) (name : String) :
    (fields.filter fun field => kept field.1).lookup name =
      if kept name then fields.lookup name else none := by
  induction fields with
  | nil => exact (ite_self none).symm
  | cons field rest ih =>
    by_cases hname : field.1 = name
    · subst hname
      by_cases hkept : kept field.1 = true
      · rw [filter_cons_of_pos (by exact hkept), if_pos hkept, lookup_cons,
          lookup_cons, beq_self_eq_true]
      · rw [filter_cons_of_neg (by exact hkept), ih, if_neg hkept, if_neg hkept]
    · have hother : (name == field.1) = false := beq_false_of_ne (Ne.symm hname)
      rw [lookup_cons, hother, ← ih]
      by_cases hkept : kept field.1 = true
      · rw [filter_cons_of_pos (by exact hkept), lookup_cons, hother]
      · rw [filter_cons_of_neg (by exact hkept)]

theorem read_assign (fields updates : Row) (name : String) :
    RankingOrder.read (some (assign fields updates)) name =
      if name ∈ updates.map Prod.fst then RankingOrder.read (some updates) name
      else RankingOrder.read (some fields) name := by
  have hlookup : (assign fields updates).lookup name =
      ((if name ∉ updates.map Prod.fst then fields.lookup name else none).or
        (updates.lookup name)) := by
    have hfilter := lookup_filter (fun field => decide (field ∉ updates.map Prod.fst)) fields name
    rw [assign, lookup_append, hfilter]
    simp only [decide_eq_true_eq]
  show ((assign fields updates).lookup name).getD Input.undefined = _
  rw [hlookup]
  by_cases hname : name ∈ updates.map Prod.fst
  · rw [if_neg (not_not_intro hname), if_pos hname, Option.none_or]
    rfl
  · have hupdates : updates.lookup name = none := by
      rw [lookup_eq_none_iff]
      intro field hfield
      exact bne_iff_ne.mpr fun hsame => hname (hsame ▸ mem_map_of_mem hfield)
    rw [if_pos hname, if_neg hname, hupdates, Option.or_none]
    rfl

section

variable (convert : Conversions)

/-- `Number(value)` -/
def toNumber : Input -> Number
  | .undefined => .nan
  | .null => .finite 0
  | .boolean value => .finite (if value then 1 else 0)
  | .number value => value
  | .string text => convert.toNumber text
  | .date time => Number.ofTime time

/-- `byDescendingScore` -/
def byDescendingScore {Item : Type} (object : Item -> Fragment) (scoreOf : Fragment -> Input) :
    Item -> Item -> Ordering :=
  byKey object (compareRankedFragments convert scoreOf)

end

end AnchorMind.Recall.Rows
