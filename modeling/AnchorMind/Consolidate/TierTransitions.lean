import AnchorMind.Index.FragmentIndex
import AnchorMind.Kernel.KeyedTable
import Mathlib.Algebra.Order.Field.Basic

/-!
# The transitions between the tiers

`transitionTTL` raises and lowers the tier of the fragments by five statements, executed one
after another.  Three of them make a fragment permanent, and the last one takes the permanent
tier from a fragment that nobody read for half a year.  Times are microseconds.
-/

namespace AnchorMind.Consolidate.TierTransitions

open Index.FragmentIndex (FragmentType)
open Kernel.KeyedTable Kernel.UpdateSequence List

/-- `ttl_tier` -/
inductive Tier where
  | short
  | hot
  | warm
  | cold
  | permanent
  deriving DecidableEq, Repr

/-- The columns that the transitions read and write. -/
structure FragmentRow (Id : Type) where
  id : Id
  type : FragmentType
  importance : Rat
  ttlTier : Option Tier
  isAnchor : Option Bool
  qualityVerified : Option Bool
  accessedAt : Option Int
  createdAt : Option Int
  deriving DecidableEq

def FragmentRow.withTier {Id : Type} (row : FragmentRow Id) (tier : Tier) : FragmentRow Id :=
  { row with ttlTier := some tier }

structure LinkRow (Id : Type) where
  fromId : Id
  toId : Id
  deletedAt : Option Int

/-- The CHECK constraint of the column. -/
def ImportanceInRange {Id : Type} (row : FragmentRow Id) : Prop :=
  0 ≤ row.importance /\ row.importance ≤ 1

abbrev Rows (Id : Type) :=
  Table (FragmentRow.id : FragmentRow Id -> Id) ImportanceInRange

section

variable {Id : Type} [DecidableEq Id]

def days (count : Int) : Int := count * 86400000000

def linkEnds (links : List (LinkRow Id)) : List Id :=
  let active := links.filter fun link => link.deletedAt.isNone
  active.map LinkRow.fromId ++ active.map LinkRow.toId

/-- `ttl_tier != 'permanent'`, which is not true of NULL. -/
def notPermanent (row : FragmentRow Id) : Bool :=
  match row.ttlTier with
  | some tier => tier ≠ .permanent
  | none => false

/-- `column < instant`, which is not true of NULL. -/
def earlier (column : Option Int) (instant : Int) : Bool :=
  match column with
  | some time => time < instant
  | none => false

def isPreference (row : FragmentRow Id) : Bool := row.type = .preference

/-- `HAVING count(*) >= 5` -/
def isHub (links : List (LinkRow Id)) (row : FragmentRow Id) : Bool :=
  5 ≤ (linkEnds links).count row.id

/-- `importance >= 0.8` with the circuit breaker on the verdict about the quality. -/
def isImportant (row : FragmentRow Id) : Bool :=
  decide (4 / 5 ≤ row.importance) &&
    (row.qualityVerified == some true ||
      (row.qualityVerified.isNone && row.isAnchor == some true) ||
      (row.qualityVerified.isNone && decide (9 / 10 ≤ row.importance))) &&
    row.qualityVerified != some false

def isStale (now : Int) (row : FragmentRow Id) : Bool :=
  decide (row.importance < 3 / 10) ||
    (row.accessedAt.isNone && earlier row.createdAt (now - days 30)) ||
    earlier row.accessedAt (now - days 30)

def isParoled (now : Int) (row : FragmentRow Id) : Bool :=
  row.isAnchor == some false && decide (row.importance < 1 / 2) &&
    (row.accessedAt.isNone || earlier row.accessedAt (now - days 180))

/-- A statement of the run: the name its rows are counted under, the rows it locks, and the
tier it writes. -/
structure Rule (Id : Type) where
  transition : String
  selects : FragmentRow Id -> Bool
  tier : Tier

def Rule.update (rule : Rule Id) :
    Table.Update (FragmentRow.id : FragmentRow Id -> Id) ImportanceInRange where
  select := rule.selects
  image row := row.withTier rule.tier
  keepsKey _ := rfl
  keepsCheck _ _ hcheck := hcheck

def promotion (transition : String) (kind : FragmentRow Id -> Bool) : Rule Id where
  transition := transition
  selects row := kind row && notPermanent row
  tier := .permanent

def demotion (transition : String) (tier : Tier) (kind : FragmentRow Id -> Bool) : Rule Id where
  transition := transition
  selects row := row.ttlTier == some tier && kind row
  tier := .cold

/-- The statements of `transitionTTL`. -/
def rules (links : List (LinkRow Id)) (now : Int) : List (Rule Id) :=
  [ promotion "preference_permanent" isPreference,
    promotion "hub_permanent" (isHub links),
    promotion "importance_permanent" isImportant,
    demotion "warm_cold" .warm (isStale now),
    demotion "permanent_cold" .permanent (isParoled now) ]

def updates (links : List (LinkRow Id)) (now : Int) :
    List (Table.Update (FragmentRow.id : FragmentRow Id -> Id) ImportanceInRange) :=
  (rules links now).map Rule.update

/-- The table after the run. -/
def transitionTTL (links : List (LinkRow Id)) (now : Int) (rows : Rows Id) : Rows Id :=
  applyAll rows (updates links now)

/-- What the run adds to the counter of the transitions. -/
def countTiers (links : List (LinkRow Id)) (now : Int) (rows : Rows Id) : List (String × Nat) :=
  (((rules links now).map Rule.transition).zip
    (affectedCounts rows (updates links now))).filter fun entry => 0 < entry.2

end

variable {Id : Type} {now : Int} {row : FragmentRow Id}

theorem isParoled_of_isImportant (himportant : isImportant row = true) :
    isParoled now row = false := by
  unfold isImportant at himportant
  simp only [Bool.and_eq_true, decide_eq_true_eq] at himportant
  have hhigh : decide (row.importance < 1 / 2) = false := by
    have hhalf : (1 / 2 : Rat) ≤ 4 / 5 := by norm_num
    exact decide_eq_false (not_lt.mpr (hhalf.trans himportant.1.1))
  rw [isParoled, hhigh, Bool.and_false, Bool.false_and]

variable {tier : Tier}

theorem withTier_eq_self (htier : row.ttlTier = some tier) : row.withTier tier = row := by
  cases row
  cases htier
  rfl

def IgnoresTier (kind : FragmentRow Id -> Bool) : Prop :=
  ∀ row tier, kind (row.withTier tier) = kind row

theorem rowStep_promotion (htier : row.ttlTier = some tier) (name : String)
    (kind : FragmentRow Id -> Bool) :
    rowStep row (promotion name kind).update =
      if kind row then row.withTier .permanent else row := by
  cases hkind : kind row with
  | false =>
    refine rowStep_of_unselected ?_
    show (kind row && notPermanent row) = false
    rw [hkind, Bool.false_and]
  | true =>
    by_cases hpermanent : tier = .permanent
    · subst hpermanent
      refine (rowStep_of_unselected ?_).trans (withTier_eq_self htier).symm
      show (kind row && notPermanent row) = false
      simp [notPermanent, htier]
    · refine rowStep_of_selected ?_
      show (kind row && notPermanent row) = true
      simp [notPermanent, htier, hkind, hpermanent]

theorem rowAfter_promotions (promotions : List (String × (FragmentRow Id -> Bool)))
    (hkinds : ∀ entry ∈ promotions, IgnoresTier entry.2) (htier : row.ttlTier = some tier) :
    rowAfter (promotions.map fun entry => (promotion entry.1 entry.2).update) row =
      if promotions.any fun entry => entry.2 row then row.withTier .permanent else row := by
  induction promotions generalizing row tier with
  | nil => rfl
  | cons entry rest ih =>
    have hrest : ∀ other ∈ rest, IgnoresTier other.2 :=
      fun other hother => hkinds other (mem_cons_of_mem _ hother)
    rw [map_cons, rowAfter_cons, rowStep_promotion htier, any_cons]
    cases hkind : entry.2 row with
    | false =>
      rw [Bool.false_or]
      exact ih hrest htier
    | true =>
      have hpermanent : (row.withTier .permanent).ttlTier = some .permanent := rfl
      rw [if_pos rfl, Bool.true_or, if_pos rfl, ih hrest hpermanent]
      split <;> rfl

theorem rowStep_demotion (row : FragmentRow Id) (tier : Tier) (name : String) (taken : Tier)
    {kind : FragmentRow Id -> Bool} (hkind : IgnoresTier kind) :
    rowStep (row.withTier tier) (demotion name taken kind).update =
      row.withTier (if tier = taken /\ kind row = true then .cold else tier) := by
  by_cases hselect : tier = taken /\ kind row = true
  · rw [if_pos hselect]
    refine rowStep_of_selected ?_
    show (some tier == some taken && kind (row.withTier tier)) = true
    rw [hkind row tier, hselect.1, hselect.2]
    simp
  · rw [if_neg hselect]
    refine rowStep_of_unselected ?_
    show (some tier == some taken && kind (row.withTier tier)) = false
    rw [hkind row tier]
    simpa using hselect

theorem rowAfter_rules (executed : List (Rule Id)) (row : FragmentRow Id) :
    rowAfter (executed.map Rule.update) row = row \/
      ∃ tier, rowAfter (executed.map Rule.update) row = row.withTier tier := by
  induction executed generalizing row with
  | nil => exact .inl rfl
  | cons rule rest ih =>
    rw [map_cons, rowAfter_cons]
    cases hselect : rule.selects row with
    | false =>
      have hstep : rowStep row rule.update = row := rowStep_of_unselected hselect
      rw [hstep]
      exact ih row
    | true =>
      have hstep : rowStep row rule.update = row.withTier rule.tier :=
        rowStep_of_selected hselect
      rw [hstep]
      rcases ih (row.withTier rule.tier) with hsame | ⟨tier, htier⟩
      · exact Or.inr ⟨rule.tier, hsame⟩
      · exact Or.inr ⟨tier, htier⟩

section

variable {Id : Type} [DecidableEq Id] {links : List (LinkRow Id)} {now : Int}

/-- The row is of a kind that the run makes permanent whatever its importance. -/
def isPinned (links : List (LinkRow Id)) (row : FragmentRow Id) : Bool :=
  isPreference row || isHub links row

def isPromoted (links : List (LinkRow Id)) (row : FragmentRow Id) : Bool :=
  isPinned links row || isImportant row

def settledTier (links : List (LinkRow Id)) (now : Int) (row : FragmentRow Id) (tier : Tier) :
    Tier :=
  if isPromoted links row then
    if isParoled now row then .cold else .permanent
  else if tier = .warm /\ isStale now row then .cold
  else if tier = .permanent /\ isParoled now row then .cold
  else tier

variable {row : FragmentRow Id}

theorem quiet_of_untiered (htier : row.ttlTier = none) : Quiet (updates links now) row := by
  intro update hupdate
  obtain ⟨rule, hrule, rfl⟩ := mem_map.mp hupdate
  simp only [rules, mem_cons, not_mem_nil, or_false] at hrule
  rcases hrule with rfl | rfl | rfl | rfl | rfl <;>
    simp [Rule.update, promotion, demotion, notPermanent, htier]

/-- The first three statements. -/
def promotions (links : List (LinkRow Id)) : List (String × (FragmentRow Id -> Bool)) :=
  [("preference_permanent", isPreference), ("hub_permanent", isHub links),
    ("importance_permanent", isImportant)]

theorem promotions_ignore_tier : ∀ entry ∈ promotions links, IgnoresTier entry.2 := by
  intro entry hentry row tier
  simp only [promotions, mem_cons, not_mem_nil, or_false] at hentry
  rcases hentry with rfl | rfl | rfl <;> rfl

theorem promotions_any (row : FragmentRow Id) :
    ((promotions links).any fun entry => entry.2 row) = isPromoted links row := by
  simp [promotions, isPromoted, isPinned, Bool.or_assoc]

theorem updates_eq :
    updates links now =
      ((promotions links).map fun entry => (promotion entry.1 entry.2).update) ++
        [(demotion "warm_cold" .warm (isStale now)).update,
          (demotion "permanent_cold" .permanent (isParoled now)).update] := rfl

variable {tier : Tier}

theorem rowAfter_updates (htier : row.ttlTier = some tier) :
    rowAfter (updates links now) row = row.withTier (settledTier links now row tier) := by
  have hpromoted : rowAfter ((promotions links).map fun entry =>
      (promotion entry.1 entry.2).update) row =
      row.withTier (if isPromoted links row then .permanent else tier) := by
    rw [rowAfter_promotions _ promotions_ignore_tier htier, promotions_any]
    split
    · rfl
    · exact (withTier_eq_self htier).symm
  rw [updates_eq, rowAfter_append, hpromoted, rowAfter_cons, rowAfter_cons, rowAfter_nil,
    rowStep_demotion _ _ _ _ fun _ _ => rfl, rowStep_demotion _ _ _ _ fun _ _ => rfl]
  congr 1
  unfold settledTier
  cases isPromoted links row with
  | true => simp
  | false =>
    by_cases hstale : tier = .warm /\ isStale now row = true <;> simp [hstale]

def SecondRunChangesNothing (links : List (LinkRow Id)) (now : Int) (rows : Rows Id) : Prop :=
  countTiers links now (transitionTTL links now rows) = []

def PromotionsStand (links : List (LinkRow Id)) (now : Int) (rows : Rows Id) : Prop :=
  ∀ before rule after, rules links now = before ++ rule :: after ->
    rule.tier = .permanent -> ∀ row ∈ applyAll rows (before.map Rule.update),
      rule.selects row = true -> ∀ final ∈ transitionTTL links now rows,
        final.id = row.id -> final.ttlTier = some .permanent

def IsPulledBothWays (links : List (LinkRow Id)) (now : Int) (row : FragmentRow Id) : Prop :=
  row.ttlTier.isSome = true /\ isPinned links row = true /\ isParoled now row = true

theorem countTiers_eq_nil_iff (rows : Rows Id) :
    countTiers links now rows = [] <->
      ∀ row ∈ rows, Quiet (updates links now) row := by
  have hcounts : ((((rules links now).map Rule.transition).zip
      (affectedCounts rows (updates links now))).map Prod.snd) =
      affectedCounts rows (updates links now) := by
    refine map_snd_zip ?_
    rw [affectedCounts_length, updates, length_map, length_map]
  rw [<- affectedCounts_eq_zero_iff, <- hcounts, countTiers, filter_eq_nil_iff,
    forall_mem_map]
  refine forall₂_congr fun entry _ => ?_
  rw [decide_eq_true_eq, Nat.not_lt, Nat.le_zero]

theorem settledTier_of_isPromoted (htier : row.ttlTier = some tier)
    (hpulled : ¬ IsPulledBothWays links now row) (hpromoted : isPromoted links row = true) :
    settledTier links now row tier = .permanent /\ isParoled now row = false := by
  have hparoled : isParoled now row = false := by
    rcases Bool.or_eq_true_iff.mp hpromoted with hpinned | himportant
    · refine Bool.eq_false_of_not_eq_true fun hparoled => hpulled ⟨?_, hpinned, hparoled⟩
      rw [htier]
      rfl
    · exact isParoled_of_isImportant himportant
  rw [settledTier, hpromoted, hparoled]
  exact ⟨rfl, rfl⟩

theorem settledTier_of_not_isPromoted (tier : Tier) (hpromoted : isPromoted links row = false) :
    (settledTier links now row tier = .warm -> isStale now row = false) /\
      (settledTier links now row tier = .permanent -> isParoled now row = false) := by
  rw [settledTier, hpromoted]
  by_cases hstale : tier = .warm /\ isStale now row = true
  · simp [hstale]
  · by_cases hparoled : tier = .permanent /\ isParoled now row = true
    · simp [hparoled]
    · simp only [hstale, hparoled, if_false, Bool.false_eq_true]
      exact ⟨fun hwarm => Bool.eq_false_of_not_eq_true fun h => hstale ⟨hwarm, h⟩,
        fun hpermanent => Bool.eq_false_of_not_eq_true fun h => hparoled ⟨hpermanent, h⟩⟩

theorem mem_rules {rule : Rule Id} (hrule : rule ∈ rules links now) :
    (∃ entry ∈ promotions links, rule = promotion entry.1 entry.2) \/
      rule = demotion "warm_cold" .warm (isStale now) \/
      rule = demotion "permanent_cold" .permanent (isParoled now) := by
  have hrules : rules links now =
      ((promotions links).map fun entry => promotion entry.1 entry.2) ++
        [demotion "warm_cold" .warm (isStale now),
          demotion "permanent_cold" .permanent (isParoled now)] := rfl
  rw [hrules] at hrule
  rcases mem_append.mp hrule with hpromotion | hdemotion
  · obtain ⟨entry, hentry, rfl⟩ := mem_map.mp hpromotion
    exact Or.inl ⟨entry, hentry, rfl⟩
  · exact .inr (by simpa using hdemotion)

/-- The statements pass over the row that the first run leaves. -/
theorem quiet_settled (htier : row.ttlTier = some tier)
    (hpulled : ¬ IsPulledBothWays links now row) :
    Quiet (updates links now) (row.withTier (settledTier links now row tier)) := by
  intro update hupdate
  obtain ⟨rule, hrule, rfl⟩ := mem_map.mp hupdate
  have hleft : (settledTier links now row tier = .warm -> isStale now row = false) /\
      (settledTier links now row tier = .permanent -> isParoled now row = false) := by
    cases hpromoted : isPromoted links row with
    | false => exact settledTier_of_not_isPromoted tier hpromoted
    | true =>
      obtain ⟨hpermanent, hparoled⟩ := settledTier_of_isPromoted htier hpulled hpromoted
      exact ⟨fun hwarm => absurd (hpermanent.symm.trans hwarm) (by decide), fun _ => hparoled⟩
  rcases mem_rules hrule with ⟨entry, hentry, rfl⟩ | rfl | rfl
  · show (entry.2 (row.withTier _) && notPermanent _) = false
    rw [promotions_ignore_tier entry hentry]
    cases hkind : entry.2 row with
    | false => rfl
    | true =>
      have hpromoted : isPromoted links row = true := by
        rw [<- promotions_any]
        exact any_eq_true.mpr ⟨entry, hentry, hkind⟩
      rw [(settledTier_of_isPromoted htier hpulled hpromoted).1]
      rfl
  · show (some (settledTier links now row tier) == some .warm && isStale now row) = false
    by_cases hwarm : settledTier links now row tier = .warm
    · rw [hleft.1 hwarm, Bool.and_false]
    · simp [hwarm]
  · show (some (settledTier links now row tier) == some .permanent && isParoled now row) = false
    by_cases hpermanent : settledTier links now row tier = .permanent
    · rw [hleft.2 hpermanent, Bool.and_false]
    · simp [hpermanent]

variable {rows : Rows Id}

theorem secondRunChangesNothing (hpulled : ∀ row ∈ rows, ¬ IsPulledBothWays links now row) :
    SecondRunChangesNothing links now rows := by
  refine (countTiers_eq_nil_iff _).mpr fun row hrow => ?_
  obtain ⟨source, hsource, rfl⟩ := mem_applyAll.mp hrow
  cases htier : source.ttlTier with
  | none =>
    have hquiet : Quiet (updates links now) source := quiet_of_untiered htier
    have hkept := rowAfter_of_quiet hquiet
    rw [hkept]
    exact hquiet
  | some tier =>
    rw [rowAfter_updates htier]
    exact quiet_settled htier (hpulled source hsource)

theorem promotionsStand (hpulled : ∀ row ∈ rows, ¬ IsPulledBothWays links now row) :
    PromotionsStand links now rows := by
  intro before rule after hrules hpermanent row hrow hselect final hfinal hid
  obtain ⟨source, hsource, rfl⟩ := mem_applyAll.mp hrow
  obtain ⟨other, hother, rfl⟩ := mem_applyAll.mp hfinal
  have hsame : other = source :=
    Table.eq_of_key_eq hother hsource
      ((key_rowAfter _ other).symm.trans (hid.trans (key_rowAfter _ source)))
  subst hsame
  have hmem : rule ∈ rules links now := by
    rw [hrules]
    exact mem_append_right _ mem_cons_self
  rcases mem_rules hmem with ⟨entry, hentry, rfl⟩ | rfl | rfl
  · obtain ⟨hkind, hnot⟩ := Bool.and_eq_true_iff.mp hselect
    have hsource : entry.2 other = true := by
      rcases rowAfter_rules before other with hsame | ⟨tier, htier⟩
      · rw [hsame] at hkind
        exact hkind
      · rw [htier, promotions_ignore_tier entry hentry] at hkind
        exact hkind
    have hpromoted : isPromoted links other = true := by
      rw [<- promotions_any]
      exact any_eq_true.mpr ⟨entry, hentry, hsource⟩
    cases htier : other.ttlTier with
    | some tier =>
      rw [rowAfter_updates htier,
        (settledTier_of_isPromoted htier (hpulled other hother) hpromoted).1]
      rfl
    | none =>
      -- a row without a tier reaches no statement
      have hwhole : Quiet (updates links now) other := quiet_of_untiered htier
      have hquiet : Quiet (before.map Rule.update) other := by
        intro update hupdate
        refine hwhole update ?_
        rw [updates, hrules, map_append]
        exact mem_append_left _ hupdate
      rw [rowAfter_of_quiet hquiet, notPermanent, htier] at hnot
      exact nomatch hnot
  · exact nomatch hpermanent
  · exact nomatch hpermanent

theorem not_isPulledBothWays (hsecond : SecondRunChangesNothing links now rows)
    (hrow : row ∈ rows) : ¬ IsPulledBothWays links now row := by
  rintro ⟨hsome, hpinned, hparoled⟩
  obtain ⟨tier, htier⟩ := Option.isSome_iff_exists.mp hsome
  have hcold : settledTier links now row tier = .cold := by
    rw [settledTier, isPromoted, hpinned, hparoled]
    rfl
  have hquiet := (countTiers_eq_nil_iff _).mp hsecond _ (mem_applyAll.mpr ⟨row, hrow, rfl⟩)
  rw [rowAfter_updates htier, hcold] at hquiet
  have hfalse : ∀ entry ∈ promotions links, entry.2 row = false := by
    intro entry hentry
    have hmem : (promotion entry.1 entry.2).update ∈ updates links now := by
      rw [updates_eq]
      exact mem_append_left _ (mem_map.mpr ⟨entry, hentry, rfl⟩)
    have hselect := hquiet _ hmem
    replace hselect : (entry.2 (row.withTier .cold) && true) = false := hselect
    rw [Bool.and_true, promotions_ignore_tier entry hentry] at hselect
    exact hselect
  have hpreference : isPreference row = false := hfalse _ mem_cons_self
  have hhub : isHub links row = false := hfalse _ (mem_cons_of_mem _ mem_cons_self)
  rw [isPinned, hpreference, hhub] at hpinned
  exact Bool.false_ne_true hpinned

/-- Exactly the fragments that are pulled both ways keep a second run from being idle, or lose
the tier that a statement gave them. -/
theorem transitionTTL_settles_iff (rows : Rows Id) :
    SecondRunChangesNothing links now rows /\ PromotionsStand links now rows <->
      ∀ row ∈ rows, ¬ IsPulledBothWays links now row := by
  constructor
  · intro hsettles row hrow
    exact not_isPulledBothWays hsettles.1 hrow
  · intro hpulled
    exact ⟨secondRunChangesNothing hpulled, promotionsStand hpulled⟩

end

def unreadPreference : FragmentRow Nat where
  id := 1
  type := .preference
  importance := 2 / 5
  ttlTier := some .cold
  isAnchor := some false
  qualityVerified := none
  accessedAt := none
  createdAt := some 0

def unreadRows : Rows Nat where
  rows := [unreadPreference]
  keysNodup := nodup_singleton _
  checked row hrow := by
    rw [mem_singleton.mp hrow]
    constructor <;> norm_num [unreadPreference]

/-- The preference is made permanent and cold by each run. -/
theorem unread_preference_moves :
    ¬ SecondRunChangesNothing [] 0 unreadRows /\ ¬ PromotionsStand [] 0 unreadRows := by
  constructor
  · intro hnothing
    have hmoves : countTiers [] 0 (transitionTTL [] 0 unreadRows) =
        [("preference_permanent", 1), ("permanent_cold", 1)] := by decide +kernel
    rw [SecondRunChangesNothing, hmoves] at hnothing
    exact nomatch hnothing
  · intro hstand
    have hselect : (promotion "preference_permanent" isPreference).selects unreadPreference =
        true := by decide
    have hfinal : (transitionTTL [] 0 unreadRows).rows = [unreadPreference] := by decide +kernel
    have hmem : unreadPreference ∈ transitionTTL [] 0 unreadRows := by
      rw [Table.mem_def, hfinal]
      exact mem_cons_self
    exact nomatch hstand [] _ _ rfl rfl unreadPreference mem_cons_self hselect
      unreadPreference hmem rfl

end AnchorMind.Consolidate.TierTransitions
