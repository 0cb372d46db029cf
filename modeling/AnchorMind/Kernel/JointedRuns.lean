import Mathlib.Data.Nat.Basic

/-!
# Runs with joints

A run is a row of core symbols in which single joints may stand between two core symbols, as
the separators do in a number.  A scan takes the longest runs from left to right.  A run is
found by the scan exactly when it stands apart: neither side of it continues it.
-/

namespace AnchorMind.Kernel.JointedRuns

open List

variable {Symbol : Type*}

structure Kinds (Symbol : Type*) where
  core : Symbol -> Bool
  joint : Symbol -> Bool

namespace Kinds

variable (kinds : Kinds Symbol)

def continues : List Symbol -> Bool
  | [] => false
  | symbol :: rest => kinds.core symbol || (kinds.joint symbol && rest.head?.any kinds.core)

/-- The runs from a place on, where `current` is what is read of an open run. -/
def runsFrom (current : List Symbol) : List Symbol -> List (List Symbol)
  | [] => if current.isEmpty then [] else [current]
  | symbol :: rest =>
    if kinds.core symbol ||
        (!current.isEmpty && kinds.joint symbol && rest.head?.any kinds.core) then
      runsFrom (current ++ [symbol]) rest
    else (if current.isEmpty then [] else [current]) ++ runsFrom [] rest

def runs (text : List Symbol) : List (List Symbol) := kinds.runsFrom [] text

/-- What of a text belongs to a run that is open before it, and the text after that. -/
def ahead : List Symbol -> List Symbol × List Symbol
  | [] => ([], [])
  | symbol :: rest =>
    if kinds.continues (symbol :: rest) then (symbol :: (ahead rest).1, (ahead rest).2)
    else ([], symbol :: rest)

inductive IsRun : List Symbol -> Prop where
  | single {symbol : Symbol} (hcore : kinds.core symbol = true) : IsRun [symbol]
  | core {symbol : Symbol} {rest : List Symbol} (hcore : kinds.core symbol = true)
      (hrest : IsRun rest) : IsRun (symbol :: rest)
  | joint {symbol joint : Symbol} {rest : List Symbol} (hcore : kinds.core symbol = true)
      (hjoint : kinds.joint joint = true) (hrest : IsRun rest) : IsRun (symbol :: joint :: rest)

def StandsApart (text run : List Symbol) : Prop :=
  ∃ before after, text = before ++ run ++ after /\ kinds.IsRun run /\
    kinds.continues before.reverse = false /\ kinds.continues after = false

end Kinds

variable {kinds : Kinds Symbol} {symbol : Symbol}

theorem continues_of_core {rest : List Symbol} (hcore : kinds.core symbol = true) :
    kinds.continues (symbol :: rest) = true := by
  rw [Kinds.continues, hcore, Bool.true_or]

theorem continues_append_eq_false {front back : List Symbol}
    (happend : kinds.continues (front ++ back) = false) : kinds.continues front = false := by
  match front with
  | [] => rfl
  | [symbol] =>
    have hcore := (Bool.or_eq_false_iff.mp happend).1
    simp [Kinds.continues, hcore]
  | symbol :: next :: rest => exact happend

theorem Kinds.IsRun.exists_cons {run : List Symbol} (hrun : kinds.IsRun run) :
    ∃ symbol rest, run = symbol :: rest /\ kinds.core symbol = true := by
  cases hrun with
  | single hcore => exact ⟨_, _, rfl, hcore⟩
  | core hcore _ => exact ⟨_, _, rfl, hcore⟩
  | joint hcore _ _ => exact ⟨_, _, rfl, hcore⟩

theorem runsFrom_open {current : List Symbol} (hopen : current ≠ []) (text : List Symbol) :
    kinds.runsFrom current text =
      (current ++ (kinds.ahead text).1) :: kinds.runs (kinds.ahead text).2 := by
  have hempty {here : List Symbol} (hhere : here ≠ []) : here.isEmpty = false :=
    eq_false_of_ne_true fun h => hhere (isEmpty_iff.mp h)
  induction text generalizing current with
  | nil => simp [Kinds.runsFrom, Kinds.ahead, Kinds.runs, hempty hopen]
  | cons symbol rest ih =>
    rw [Kinds.runsFrom, Kinds.ahead, hempty hopen, Bool.not_false, Bool.true_and]
    cases hcontinues : kinds.continues (symbol :: rest) with
    | true =>
      rw [Kinds.continues] at hcontinues
      rw [hcontinues, if_pos rfl, ih (append_ne_nil_of_right_ne_nil _ (by simp))]
      simp
    | false =>
      have hcore := (Bool.or_eq_false_iff.mp hcontinues).1
      rw [Kinds.continues] at hcontinues
      rw [hcontinues]
      simp [Kinds.runs, Kinds.runsFrom, hcore]

theorem runs_cons_of_core (hcore : kinds.core symbol = true) (rest : List Symbol) :
    kinds.runs (symbol :: rest) =
      (symbol :: (kinds.ahead rest).1) :: kinds.runs (kinds.ahead rest).2 := by
  rw [Kinds.runs, Kinds.runsFrom, hcore, Bool.true_or, if_pos rfl]
  exact runsFrom_open (cons_ne_nil _ _) rest

theorem runs_cons_of_not_core (hcore : kinds.core symbol = false) (rest : List Symbol) :
    kinds.runs (symbol :: rest) = kinds.runs rest := by
  simp [Kinds.runs, Kinds.runsFrom, hcore]

theorem ahead_append (text : List Symbol) :
    (kinds.ahead text).1 ++ (kinds.ahead text).2 = text := by
  induction text with
  | nil => rfl
  | cons symbol rest ih =>
    rw [Kinds.ahead]
    split
    · exact congrArg (symbol :: ·) ih
    · rfl

theorem ahead_length_le (text : List Symbol) : (kinds.ahead text).2.length ≤ text.length := by
  have hlength : ((kinds.ahead text).1 ++ (kinds.ahead text).2).length = text.length :=
    congrArg length (ahead_append text)
  rw [length_append] at hlength
  omega

theorem continues_ahead (text : List Symbol) : kinds.continues (kinds.ahead text).2 = false := by
  induction text with
  | nil => rfl
  | cons symbol rest ih =>
    rw [Kinds.ahead]
    split
    · exact ih
    · rename_i hstop
      exact eq_false_of_ne_true hstop

theorem isRun_ahead (text : List Symbol) :
    (∀ symbol, kinds.core symbol = true -> kinds.IsRun (symbol :: (kinds.ahead text).1)) /\
      (text.head?.any kinds.core = true -> kinds.IsRun (kinds.ahead text).1) := by
  induction text with
  | nil => exact ⟨fun _ hcore => .single hcore, fun hhead => nomatch hhead⟩
  | cons next rest ih =>
    have hhead : kinds.core next = true -> kinds.IsRun (kinds.ahead (next :: rest)).1 := by
      intro hcore
      rw [Kinds.ahead, if_pos (continues_of_core hcore)]
      exact ih.1 next hcore
    refine ⟨fun symbol hcore => ?_, hhead⟩
    cases hnext : kinds.core next with
    | true => exact .core hcore (hhead hnext)
    | false =>
      rw [Kinds.ahead, Kinds.continues, hnext, Bool.false_or]
      split
      · rename_i hjoint
        obtain ⟨hjoint, hrest⟩ := Bool.and_eq_true_iff.mp hjoint
        exact .joint hcore hjoint (ih.2 hrest)
      · exact .single hcore

theorem continues_append_of_not_core {back : List Symbol} (hback : kinds.continues back = false)
    (hcore : kinds.core symbol = false) : kinds.continues (back ++ [symbol]) = false := by
  match back with
  | [] => simp [Kinds.continues, hcore]
  | [last] =>
    have hlast : kinds.core last = false := (Bool.or_eq_false_iff.mp hback).1
    simp [Kinds.continues, hcore, hlast]
  | first :: second :: more => exact hback

theorem continues_reverse_append {closed before run after : List Symbol} (hrun : kinds.IsRun run)
    (hbefore : kinds.continues before.reverse = false)
    (hclosed : kinds.continues (before ++ run ++ after) = false) :
    kinds.continues (closed ++ before).reverse = false := by
  obtain ⟨symbol, rest, rfl, hcore⟩ := hrun.exists_cons
  obtain ⟨behind, rfl⟩ : ∃ behind, before = behind.reverse :=
    ⟨before.reverse, before.reverse_reverse.symm⟩
  rw [reverse_reverse] at hbefore
  rw [reverse_append, reverse_reverse]
  match behind with
  | [] =>
    rw [reverse_nil, nil_append, cons_append, continues_of_core hcore] at hclosed
    exact nomatch hclosed
  | [last] =>
    have hlast : kinds.core last = false := (Bool.or_eq_false_iff.mp hbefore).1
    have hjoint : kinds.joint last = false := by simpa [Kinds.continues, hlast, hcore] using hclosed
    simp [Kinds.continues, hlast, hjoint]
  | first :: second :: more => exact hbefore

variable {text run : List Symbol}

theorem standsApart_of_mem_runs (hmem : run ∈ kinds.runs text) : kinds.StandsApart text run := by
  induction hlength : text.length using Nat.strongRecOn generalizing text with
  | ind length ih =>
    cases text with
    | nil => cases hmem
    | cons symbol rest =>
      cases hcore : kinds.core symbol with
      | false =>
        rw [runs_cons_of_not_core hcore] at hmem
        obtain ⟨before, after, hrest, hrun, hbefore, hafter⟩ :=
          ih rest.length (by simp [<- hlength]) hmem rfl
        refine ⟨symbol :: before, after, congrArg (symbol :: ·) hrest, hrun, ?_, hafter⟩
        rw [reverse_cons]
        exact continues_append_of_not_core hbefore hcore
      | true =>
        rw [runs_cons_of_core hcore] at hmem
        rcases mem_cons.mp hmem with rfl | hmem
        · refine ⟨[], (kinds.ahead rest).2, ?_, (isRun_ahead rest).1 symbol hcore, rfl,
            continues_ahead rest⟩
          exact congrArg (symbol :: ·) (ahead_append rest).symm
        · have hshort : (kinds.ahead rest).2.length ≤ rest.length := ahead_length_le rest
          obtain ⟨before, after, hrest, hrun, hbefore, hafter⟩ :=
            ih (kinds.ahead rest).2.length (by simp [<- hlength]; omega) hmem rfl
          refine ⟨symbol :: (kinds.ahead rest).1 ++ before, after, ?_, hrun, ?_, hafter⟩
          · calc symbol :: rest
              _ = symbol :: ((kinds.ahead rest).1 ++ (kinds.ahead rest).2) :=
                  congrArg (symbol :: ·) (ahead_append rest).symm
              _ = symbol :: (kinds.ahead rest).1 ++ before ++ run ++ after := by
                  rw [hrest]
                  simp
          · have hclosed : kinds.continues (kinds.ahead rest).2 = false := continues_ahead rest
            rw [hrest] at hclosed
            exact continues_reverse_append hrun hbefore hclosed

theorem ahead_of_isRun {run after : List Symbol} (hrun : kinds.IsRun run)
    (hafter : kinds.continues after = false) : kinds.ahead (run ++ after) = (run, after) := by
  have hclosed : kinds.ahead after = ([], after) := by
    cases after with
    | nil => rfl
    | cons symbol rest => rw [Kinds.ahead, hafter, if_neg Bool.false_ne_true]
  induction hrun with
  | single hcore => 
    rw [cons_append, Kinds.ahead, if_pos (continues_of_core hcore), nil_append, hclosed]
  | core hcore _ ih => rw [cons_append, Kinds.ahead, if_pos (continues_of_core hcore), ih]
  | joint hcore hjoint hrest ih =>
    obtain ⟨next, more, rfl, hnext⟩ := hrest.exists_cons
    rw [cons_append, cons_append, Kinds.ahead, if_pos (continues_of_core hcore),
      Kinds.ahead, ih, if_pos]
    simp [Kinds.continues, hjoint, hnext]

/-- The run that is open behind a place is read no further than to the next run that stands
apart.  `behind` is what is read of the open run, backwards. -/
theorem ahead_stops_before (before run after : List Symbol) {behind : List Symbol}
    (hlive : kinds.continues behind = true)
    (hopen : behind.head?.any kinds.core = true \/
      (before ++ run ++ after).head?.any kinds.core = true)
    (hapart : kinds.continues (before.reverse ++ behind) = false) :
    ∃ rest, (kinds.ahead (before ++ run ++ after)).2 = rest ++ run ++ after /\
      rest.length ≤ before.length /\ kinds.continues rest.reverse = false := by
  induction before generalizing behind with
  | nil => exact absurd (hlive.symm.trans hapart) (by decide)
  | cons symbol rest ih =>
    rw [reverse_cons, append_assoc, singleton_append] at hapart
    rw [cons_append, cons_append, Kinds.ahead]
    cases hcontinues : kinds.continues (symbol :: (rest ++ run ++ after)) with
    | false =>
      refine ⟨symbol :: rest, rfl, Nat.le_refl _, ?_⟩
      rw [reverse_cons]
      rw [<- singleton_append, <- append_assoc] at hapart
      exact continues_append_eq_false hapart
    | true =>
      rw [if_pos rfl]
      have hstep : kinds.continues (symbol :: behind) = true /\
          ((symbol :: behind).head?.any kinds.core = true \/
            (rest ++ run ++ after).head?.any kinds.core = true) := by
        cases hcore : kinds.core symbol with
        | true => exact ⟨continues_of_core hcore, .inl hcore⟩
        | false =>
          -- a joint continues the run only between two core symbols
          rw [Kinds.continues, hcore, Bool.false_or, Bool.and_eq_true] at hcontinues
          have hbehind : behind.head?.any kinds.core = true := by
            rcases hopen with hbehind | hhead
            · exact hbehind
            · exact absurd (hcore.symm.trans hhead) Bool.false_ne_true
          rw [Kinds.continues, hcore, hcontinues.1, hbehind]
          exact ⟨rfl, .inr hcontinues.2⟩
      obtain ⟨more, hmore, hlength, hfree⟩ := ih hstep.1 hstep.2 hapart
      exact ⟨more, hmore, Nat.le_succ_of_le hlength, hfree⟩

theorem mem_runs_of_standsApart (hapart : kinds.StandsApart text run) : run ∈ kinds.runs text := by
  obtain ⟨before, after, rfl, hrun, hbefore, hafter⟩ := hapart
  induction hlength : before.length using Nat.strongRecOn generalizing before with
  | ind length ih =>
    cases before with
    | nil =>
      obtain ⟨symbol, rest, rfl, hcore⟩ := hrun.exists_cons
      have hahead := ahead_of_isRun hrun hafter
      rw [cons_append, Kinds.ahead, if_pos (continues_of_core hcore)] at hahead
      have hread : (kinds.ahead (rest ++ after)).1 = rest :=
        (cons.inj (congrArg Prod.fst hahead)).2
      rw [nil_append, cons_append, runs_cons_of_core hcore, hread]
      exact mem_cons_self
    | cons symbol before =>
      rw [cons_append, cons_append]
      cases hcore : kinds.core symbol with
      | false =>
        rw [runs_cons_of_not_core hcore]
        rw [reverse_cons] at hbefore
        exact ih before.length (by simp [<- hlength]) before
          (continues_append_eq_false hbefore) rfl
      | true =>
        rw [runs_cons_of_core hcore]
        rw [reverse_cons] at hbefore
        obtain ⟨rest, hrest, hshort, hfree⟩ := ahead_stops_before before _ after
          (continues_of_core hcore) (.inl hcore) hbefore
        rw [hrest]
        exact mem_cons_of_mem _
          (ih rest.length (by simp [<- hlength]; omega) rest hfree rfl)

theorem mem_runs_iff : run ∈ kinds.runs text <-> kinds.StandsApart text run :=
  ⟨standsApart_of_mem_runs, mem_runs_of_standsApart⟩

end AnchorMind.Kernel.JointedRuns

/-!
# The nearest mark before a position

From a position one looks back a fixed distance for a marked position above a floor, and
stays where one is if there is none.  The place found moves forward with the position and
with the floor.
-/

namespace AnchorMind.Kernel.NearestMark

open List

variable (marked : Nat -> Bool) (distance : Nat)

def Near (floor pos place : Nat) : Prop :=
  floor < place /\ place ≤ pos /\ pos ≤ place + distance /\ marked place = true

def nearest (floor pos : Nat) : Nat :=
  match (range (distance + 1)).find? fun d =>
      decide (floor < pos - d) && marked (pos - d) with
  | some d => pos - d
  | none => pos

variable {marked distance} {floor pos place : Nat}

section

variable (hnear : Near marked distance floor pos place)
include hnear

theorem Near.tried :
    pos - place ∈ range (distance + 1) /\
      (decide (floor < pos - (pos - place)) && marked (pos - (pos - place))) = true := by
  obtain ⟨hfloor, hle, hnear, hmarked⟩ := hnear
  have hback : pos - (pos - place) = place := by omega
  refine ⟨mem_range.mpr (by omega), ?_⟩
  rw [hback, hmarked, decide_eq_true hfloor]
  rfl

omit hnear in
theorem nearest_spec (floor pos : Nat) :
    (Near marked distance floor pos (nearest marked distance floor pos) /\
        ∀ place, Near marked distance floor pos place ->
          place ≤ nearest marked distance floor pos) \/
      (nearest marked distance floor pos = pos /\
        ∀ place, ¬ Near marked distance floor pos place) := by
  unfold nearest
  cases hfind : (range (distance + 1)).find? fun d =>
      decide (floor < pos - d) && marked (pos - d) with
  | none =>
    refine .inr ⟨rfl, fun place hnear => ?_⟩
    obtain ⟨hmem, htrue⟩ := hnear.tried
    exact find?_eq_none.mp hfind _ hmem htrue
  | some d =>
    have htrue := find?_some hfind
    simp only [Bool.and_eq_true, decide_eq_true_eq] at htrue
    have hd := mem_range.mp (mem_of_find?_eq_some hfind)
    dsimp only
    refine .inl ⟨⟨htrue.1, by omega, by omega, htrue.2⟩, ?_⟩
    intro place hnear
    obtain ⟨hmem, hplace⟩ := hnear.tried
    by_contra hlt
    -- A place further on would have been tried before.
    have hbefore : pos - place < d := by
      have := hnear.2.1
      omega
    obtain ⟨-, before, after, hsplit, hnone⟩ := find?_eq_some_iff_append.mp hfind
    have hsmall : pos - place ∈ before := by
      have hsorted := @pairwise_lt_range (distance + 1)
      rw [hsplit] at hsorted hmem
      rcases mem_append.mp hmem with hin | hin
      · exact hin
      · obtain ⟨-, htail, -⟩ := pairwise_append.mp hsorted
        rcases mem_cons.mp hin with heq | hlater
        · omega
        · have := rel_of_pairwise_cons htail hlater
          omega
    have hfalse := hnone _ hsmall
    rw [hplace] at hfalse
    cases hfalse

omit hnear in
theorem nearest_le (floor pos : Nat) : nearest marked distance floor pos ≤ pos := by
  rcases @nearest_spec marked distance floor pos with
    ⟨hnear, -⟩ | ⟨hpos, -⟩
  · exact hnear.2.1
  · exact Nat.le_of_eq hpos

theorem Near.le_nearest : place ≤ nearest marked distance floor pos := by
  rcases @nearest_spec marked distance floor pos with
    ⟨-, hlast⟩ | ⟨-, hnone⟩
  · exact hlast place hnear
  · exact absurd hnear (hnone place)

theorem Near.near_nearest : Near marked distance floor pos (nearest marked distance floor pos) := by
  rcases @nearest_spec marked distance floor pos with
    ⟨hfound, -⟩ | ⟨-, hnone⟩
  · exact hfound
  · exact absurd hnear (hnone place)

end

theorem lt_nearest (hfloor : floor < pos) : floor < nearest marked distance floor pos := by
  rcases @nearest_spec marked distance floor pos with
    ⟨hfound, -⟩ | ⟨hpos, -⟩
  · exact hfound.1
  · rw [hpos]
    exact hfloor

theorem nearest_mono {otherFloor otherPos : Nat} (hfloor : floor ≤ otherFloor)
    (hpos : pos ≤ otherPos) :
    nearest marked distance floor pos ≤ nearest marked distance otherFloor otherPos := by
  rcases @nearest_spec marked distance otherFloor otherPos with
    ⟨hother, -⟩ | ⟨hstay, -⟩
  · by_contra hlt
    -- The later search stopped before the earlier position, so the earlier one met a mark.
    have hle := @nearest_le marked distance floor pos
    obtain ⟨habove, hbelow, hclose, hmarked⟩ := hother
    have hback : Near marked distance floor pos
        (nearest marked distance otherFloor otherPos) := by
      refine ⟨by omega, by omega, by omega, hmarked⟩
    obtain ⟨hfound, -, hreach, hmark⟩ := hback.near_nearest
    have hagain : Near marked distance otherFloor otherPos
        (nearest marked distance floor pos) := by
      refine ⟨by omega, by omega, by omega, hmark⟩
    exact hlt hagain.le_nearest
  · rw [hstay]
    exact Nat.le_trans (nearest_le floor pos) hpos

end AnchorMind.Kernel.NearestMark
