import Mathlib.Data.List.Count
import Mathlib.Data.List.Pairwise

/-!
# Partial unique indexes and multi-row upserts

A table is a list of rows, and a partial unique index is the entry it keeps for each row it
covers.  A statement proposes rows one after another: a row that meets another one in the
arbiter index is merged into it, every other row must be free in all enforced indexes, and no
row may be merged into twice by one statement.
-/

namespace AnchorMind.Kernel.UniqueIndex

open List Function

abbrev Index (Row Entry : Type*) := Row -> Option Entry

section Clashes

variable {Row Entry : Type*} {index : Index Row Entry} {left middle right : Row}

def Clash (index : Index Row Entry) (left right : Row) : Prop :=
  ∃ entry, index left = some entry /\ index right = some entry

theorem Clash.symm (hclash : Clash index left right) : Clash index right left := by
  obtain ⟨entry, hleft, hright⟩ := hclash
  exact ⟨entry, hright, hleft⟩

theorem Clash.trans (hleft : Clash index left middle) (hright : Clash index middle right) :
    Clash index left right := by
  obtain ⟨entry, hl, hm⟩ := hleft
  obtain ⟨other, hm', hr⟩ := hright
  have hsame : entry = other := Option.some.inj (hm.symm.trans hm')
  subst hsame
  exact ⟨entry, hl, hr⟩

theorem clash_congr {other : Row} (hentry : index left = index other) :
    Clash index left right <-> Clash index other right := by
  simp only [Clash, hentry]

instance [DecidableEq Entry] : Decidable (Clash index left right) :=
  match hleft : index left with
  | none => isFalse (by rintro ⟨entry, h, -⟩; simp [hleft] at h)
  | some entry =>
    decidable_of_iff (index right = some entry)
      ⟨fun h => ⟨entry, hleft, h⟩, fun ⟨_, h, h'⟩ => by rw [h', <- h, hleft]⟩

def Unique (index : Index Row Entry) (table : List Row) : Prop :=
  table.Pairwise fun left right => Not (Clash index left right)

instance : Std.Symm fun left right : Row => Not (Clash index left right) :=
  ⟨fun _ _ hnot hback => hnot hback.symm⟩

theorem Unique.eq_of_clash {table : List Row} (hunique : Unique index table) (hleft : left ∈ table)
    (hright : right ∈ table) (hclash : Clash index left right) : left = right := by
  by_contra hne
  exact hunique.forall hleft hright hne hclash

theorem Unique.perm {table other : List Row} (hunique : Unique index table)
    (hperm : table.Perm other) : Unique index other :=
  hperm.pairwise hunique fun hnot hback => hnot hback.symm

theorem Unique.cons {table : List Row} (hunique : Unique index table) {row : Row}
    (hfree : ∀ old ∈ table, Not (Clash index row old)) : Unique index (row :: table) :=
  pairwise_cons.mpr ⟨hfree, hunique⟩

theorem Unique.append_uncovered {table news : List Row} (hunique : Unique index table)
    (hnone : ∀ new ∈ news, index new = none) : Unique index (news ++ table) := by
  induction news with
  | nil => exact hunique
  | cons new rest ih =>
    have hrest := ih fun later hlater => hnone later (mem_cons_of_mem _ hlater)
    refine hrest.cons ?_
    rintro old _ ⟨entry, hentry, -⟩
    rw [hnone new mem_cons_self] at hentry
    cases hentry

end Clashes

/-- What a statement runs against: the enforced indexes, the arbiter among them,
and how a proposed row is merged into the one it meets. -/
structure Upsert (Name Row Entry : Type*) where
  index : Name -> Index Row Entry
  enforced : List Name
  arbiter : Option Name
  merge : Row -> Row -> Row
  arbiter_enforced : ∀ name, arbiter = some name -> name ∈ enforced
  index_merge : ∀ name old new, index name (merge old new) = index name old

/-- Why a statement is refused. -/
inductive Refusal (Name : Type*) where
  | uniqueViolation (name : Name)
  | affectedTwice
deriving DecidableEq

namespace Upsert

variable {Name Row Entry : Type*}

def Conflicts (upsert : Upsert Name Row Entry) (old new : Row) : Prop :=
  ∃ name, upsert.arbiter = some name /\ Clash (upsert.index name) old new

instance [DecidableEq Entry] (upsert : Upsert Name Row Entry) (old new : Row) :
    Decidable (upsert.Conflicts old new) :=
  match harbiter : upsert.arbiter with
  | none => isFalse (by rintro ⟨name, h, -⟩; simp [harbiter] at h)
  | some name =>
    decidable_of_iff (Clash (upsert.index name) old new)
      ⟨fun h => ⟨name, harbiter, h⟩,
        fun ⟨_, h, hclash⟩ => by
          cases Option.some.inj (harbiter.symm.trans h)
          exact hclash⟩

def Apart (upsert : Upsert Name Row Entry) (left right : Row) : Prop :=
  ∀ name ∈ upsert.enforced, Not (Clash (upsert.index name) left right)

variable {upsert : Upsert Name Row Entry} {old new other : Row}

theorem Apart.not_conflicts (hapart : upsert.Apart old new) : Not (upsert.Conflicts old new) := by
  rintro ⟨name, harbiter, hclash⟩
  exact hapart name (upsert.arbiter_enforced name harbiter) hclash

theorem Apart.symm (hapart : upsert.Apart old new) : upsert.Apart new old :=
  fun name hname hclash => hapart name hname hclash.symm

theorem Conflicts.not_apart (hnew : upsert.Conflicts old new)
    (hother : upsert.Conflicts old other) : Not (upsert.Apart new other) := by
  intro hapart
  obtain ⟨name, harbiter, hclash⟩ := hnew
  obtain ⟨name', harbiter', hclash'⟩ := hother
  have hname : name = name' := Option.some.inj (harbiter.symm.trans harbiter')
  subst hname
  exact hapart name (upsert.arbiter_enforced name harbiter) (hclash.symm.trans hclash')

@[simp] theorem conflicts_merge :
    upsert.Conflicts (upsert.merge old new) other <-> upsert.Conflicts old other := by
  simp only [Conflicts, clash_congr (upsert.index_merge _ old new)]

@[simp] theorem apart_merge :
    upsert.Apart (upsert.merge old new) other <-> upsert.Apart old other := by
  simp only [Apart, clash_congr (upsert.index_merge _ old new)]

section Statements

variable [DecidableEq Entry] (upsert)

def propose (table : List (Row × Bool)) (new : Row) :
    Except (Refusal Name) (Row × List (Row × Bool)) :=
  match table.find? (fun entry => decide (upsert.Conflicts entry.1 new)) with
  | some (_, true) => .error .affectedTwice
  | some (old, false) =>
    .ok (upsert.merge old new,
      table.map fun entry =>
        if upsert.Conflicts entry.1 new then (upsert.merge entry.1 new, true) else entry)
  | none =>
    match upsert.enforced.find? (fun name =>
        table.any fun entry => decide (Clash (upsert.index name) entry.1 new)) with
    | some name => .error (.uniqueViolation name)
    | none => .ok (new, table ++ [(new, true)])

def proposeAll : List (Row × Bool) -> List Row ->
    Except (Refusal Name) (List Row × List (Row × Bool))
  | table, [] => .ok ([], table)
  | table, new :: rest =>
    match propose upsert table new with
    | .error refusal => .error refusal
    | .ok (row, middle) =>
      match proposeAll middle rest with
      | .error refusal => .error refusal
      | .ok (rows, last) => .ok (row :: rows, last)

def statement (table news : List Row) : Except (Refusal Name) (List Row × List Row) :=
  match proposeAll upsert (table.map fun row => (row, false)) news with
  | .error refusal => .error refusal
  | .ok (rows, last) => .ok (rows, last.map Prod.fst)

def statements : List Row -> List (List Row) ->
    Except (Refusal Name) (List Row × List Row)
  | table, [] => .ok ([], table)
  | table, news :: rest =>
    match statement upsert table news with
    | .error refusal => .error refusal
    | .ok (rows, middle) =>
      match statements middle rest with
      | .error refusal => .error refusal
      | .ok (more, last) => .ok (rows ++ more, last)

def target (table : List Row) (new : Row) : Row :=
  match table.find? (fun old => decide (upsert.Conflicts old new)) with
  | some old => upsert.merge old new
  | none => new

def absorb (news : List Row) (old : Row) : Row :=
  match news.find? (fun new => decide (upsert.Conflicts old new)) with
  | some new => upsert.merge old new
  | none => old

def Free (table : List Row) (new : Row) : Prop :=
  ∀ old ∈ table, Not (upsert.Conflicts old new)

instance (table : List Row) (new : Row) : Decidable (Free upsert table new) :=
  decidableBAll _ table

def settled (table news : List Row) : List Row :=
  table.map (absorb upsert news) ++ news.filter fun new => decide (Free upsert table new)

/-- Every proposed row meets an old row in the arbiter or is free in all the
enforced indexes, and no two proposed rows meet in any of them. -/
structure Fits (table news : List Row) : Prop where
  apart : news.Pairwise upsert.Apart
  meets : ∀ new ∈ news,
    (∃ old ∈ table, upsert.Conflicts old new) \/
      ∀ old ∈ table, upsert.Apart old new

end Statements

section Settling

variable [DecidableEq Entry] {table news rest : List Row}

theorem index_absorb (name : Name) (news : List Row) (old : Row) :
    upsert.index name (upsert.absorb news old) = upsert.index name old := by
  unfold absorb
  split
  · exact upsert.index_merge name old _
  · rfl

theorem conflicts_absorb :
    upsert.Conflicts (upsert.absorb news old) new <-> upsert.Conflicts old new := by
  simp only [Conflicts, clash_congr (index_absorb _ news old)]

theorem apart_absorb : upsert.Apart (upsert.absorb news old) new <-> upsert.Apart old new := by
  simp only [Apart, clash_congr (index_absorb _ news old)]

theorem absorb_eq_self (hnone : ∀ new ∈ news, Not (upsert.Conflicts old new)) :
    upsert.absorb news old = old := by
  have hfind : news.find? (fun new => decide (upsert.Conflicts old new)) = none := by
    rw [find?_eq_none]
    intro new hnew
    simpa using hnone new hnew
  simp only [absorb, hfind]

theorem absorb_cons_of_conflicts (hnew : upsert.Conflicts old new) :
    upsert.absorb (new :: rest) old = upsert.merge old new := by
  simp [absorb, hnew]

theorem absorb_cons_of_not_conflicts (hnew : Not (upsert.Conflicts old new)) :
    upsert.absorb (new :: rest) old = upsert.absorb rest old := by
  simp [absorb, hnew]

theorem target_of_find {row : Row}
    (hfind : table.find? (fun old => decide (upsert.Conflicts old new)) = some row) :
    upsert.target table new = upsert.merge row new := by
  simp only [target, hfind]

theorem target_of_free (hfree : upsert.Free table new) : upsert.target table new = new := by
  have hfind : table.find? (fun old => decide (upsert.Conflicts old new)) = none := by
    rw [find?_eq_none]
    intro old hold
    simpa using hfree old hold
  simp only [target, hfind]

end Settling

section Heads

variable [DecidableEq Entry] {table news rest : List Row}

section

variable (hfits : upsert.Fits table (new :: rest))
include hfits

omit [DecidableEq Entry] in
theorem Fits.head_apart : ∀ row ∈ rest, upsert.Apart new row :=
  (pairwise_cons.mp hfits.apart).1

omit [DecidableEq Entry] in
theorem Fits.not_conflicts_of_head (hold : upsert.Conflicts old new) {row : Row}
    (hrow : row ∈ rest) : Not (upsert.Conflicts old row) :=
  fun hconflict => hold.not_apart hconflict (hfits.head_apart row hrow)

omit hfits in
theorem settled_single_of_not_free (hmeet : Not (upsert.Free table new)) :
    upsert.settled table [new] = table.map (upsert.absorb [new]) := by
  simp [settled, hmeet]

omit hfits in
theorem settled_single_of_free (hfree : upsert.Free table new) :
    upsert.settled table [new] = table ++ [new] := by
  have hmap : table.map (upsert.absorb [new]) = table.map id := by
    apply map_congr_left
    intro old hold
    apply absorb_eq_self
    intro row hrow
    rw [mem_singleton.mp hrow]
    exact hfree old hold
  simp [settled, hfree, hmap]

omit hfits in
@[simp] theorem settled_nil : upsert.settled table [] = table := by
  have hmap : table.map (upsert.absorb []) = table.map id :=
    map_congr_left fun old _ => absorb_eq_self (by simp)
  simp [settled, hmap]

omit hfits in
theorem mem_settled {row : Row} :
    row ∈ upsert.settled table news <->
      (∃ old ∈ table, upsert.absorb news old = row) \/
        (row ∈ news /\ upsert.Free table row) := by
  simp [settled]

/-- What is free of the table and of the head is free of what the head leaves. -/
theorem Fits.tail : upsert.Fits (upsert.settled table [new]) rest := by
  constructor
  · exact (pairwise_cons.mp hfits.apart).2
  · intro row hrow
    rcases hfits.meets row (mem_cons_of_mem _ hrow) with ⟨old, hold, hmeet⟩ | hfree
    · refine Or.inl ⟨upsert.absorb [new] old, mem_settled.mpr (Or.inl ⟨old, hold, rfl⟩), ?_⟩
      rwa [conflicts_absorb]
    · refine Or.inr ?_
      intro left hleft
      rcases mem_settled.mp hleft with ⟨old, hold, rfl⟩ | ⟨hnew, -⟩
      · rw [apart_absorb]
        exact hfree old hold
      · rw [mem_singleton.mp hnew]
        exact hfits.head_apart row hrow

theorem Fits.target_settled {row : Row} (hrow : row ∈ rest) :
    upsert.target (upsert.settled table [new]) row = upsert.target table row := by
  have hfind : (upsert.settled table [new]).find? (fun old => decide (upsert.Conflicts old row)) =
      table.find? (fun old => decide (upsert.Conflicts old row)) := by
    have hkeep : ∀ old ∈ table, upsert.Conflicts old row ->
        upsert.absorb [new] old = old := by
      intro old _ hconflict
      apply absorb_eq_self
      intro other hother hmeet
      rw [mem_singleton.mp hother] at hmeet
      exact hfits.not_conflicts_of_head hmeet hrow hconflict
    have htail : ([new].filter fun new => decide (upsert.Free table new)).find?
        (fun old => decide (upsert.Conflicts old row)) = none := by
      rw [find?_eq_none]
      intro other hother
      have hsame : other = new := mem_singleton.mp (mem_filter.mp hother).1
      subst hsame
      simpa using (hfits.head_apart row hrow).not_conflicts
    have hcomp : table.find? ((fun old => decide (upsert.Conflicts old row)) ∘ upsert.absorb [new])
      =
        table.find? (fun old => decide (upsert.Conflicts old row)) := by
      congr 1
      funext old
      simp only [comp, conflicts_absorb]
    rw [settled, find?_append, find?_map, hcomp, htail, Option.or_none]
    cases hfound : table.find? (fun old => decide (upsert.Conflicts old row)) with
    | none => rfl
    | some old =>
      have hconflict : upsert.Conflicts old row := by simpa using find?_some hfound
      rw [Option.map_some, hkeep old (mem_of_find?_eq_some hfound) hconflict]
  simp only [target, hfind]

/-- The head first, then the others, leaves what all of them leave. -/
theorem Fits.settled_cons :
    upsert.settled (upsert.settled table [new]) rest = upsert.settled table (new :: rest) := by
  have hmap : table.map (upsert.absorb rest ∘ upsert.absorb [new]) =
      table.map (upsert.absorb (new :: rest)) := by
    apply map_congr_left
    intro old _
    rcases Classical.em (upsert.Conflicts old new) with hmeet | hmeet
    · rw [comp, absorb_cons_of_conflicts hmeet, absorb_cons_of_conflicts hmeet]
      apply absorb_eq_self
      intro row hrow
      rw [conflicts_merge]
      exact hfits.not_conflicts_of_head hmeet hrow
    · rw [comp, absorb_cons_of_not_conflicts hmeet, absorb_cons_of_not_conflicts hmeet]
      rfl
  rcases Classical.em (upsert.Free table new) with hfree | hmeet
  · have hhead : upsert.absorb rest new = new :=
      absorb_eq_self fun row hrow => (hfits.head_apart row hrow).not_conflicts
    have hold : table.map (upsert.absorb rest) = table.map (upsert.absorb (new :: rest)) := by
      apply map_congr_left
      intro old hold
      rw [absorb_cons_of_not_conflicts (hfree old hold)]
    have hfilter : (rest.filter fun row => decide (upsert.Free (table ++ [new]) row)) =
        rest.filter fun row => decide (upsert.Free table row) := by
      apply filter_congr
      intro row hrow
      simp [Free, or_imp, forall_and, (hfits.head_apart row hrow).not_conflicts]
    rw [settled_single_of_free hfree, settled, map_append, hold, hfilter]
    simp [settled, hfree, hhead]
  · have hfilter : (rest.filter fun row =>
          decide (upsert.Free (table.map (upsert.absorb [new])) row)) =
        rest.filter fun row => decide (upsert.Free table row) := by
      apply filter_congr
      intro row _
      simp [Free, conflicts_absorb]
    rw [settled_single_of_not_free hmeet, settled, map_map, hmap, hfilter]
    simp [settled, hmeet]

end

theorem Fits.split {front back : List Row} (hfits : upsert.Fits table (front ++ back)) :
    upsert.Fits table front /\
      upsert.Fits (upsert.settled table front) back /\
      (∀ row ∈ back,
        upsert.target (upsert.settled table front) row = upsert.target table row) /\
      upsert.settled (upsert.settled table front) back = upsert.settled table (front ++ back) := by
  have hfront : upsert.Fits table front :=
    ⟨(pairwise_append.mp hfits.apart).1,
      fun new hnew => hfits.meets new (mem_append_left _ hnew)⟩
  refine ⟨hfront, ?_⟩
  clear hfront
  induction front generalizing table with
  | nil =>
    rw [settled_nil]
    exact ⟨hfits, fun _ _ => rfl, rfl⟩
  | cons new front ih =>
    have hinit : upsert.Fits table (new :: front) :=
      ⟨(pairwise_append.mp hfits.apart).1,
        fun row hrow => hfits.meets row (mem_append_left _ hrow)⟩
    obtain ⟨hback, htarget, hlast⟩ := ih hfits.tail
    rw [hinit.settled_cons] at hback htarget hlast
    refine ⟨hback, ?_, ?_⟩
    · intro row hrow
      rw [htarget row hrow, hfits.target_settled (mem_append_right _ hrow)]
    · rw [hlast]
      exact hfits.settled_cons

end Heads

section Runs

variable [DecidableEq Entry] {table news rest : List Row} {marked : List (Row × Bool)}

def Spent (upsert : Upsert Name Row Entry) (marked : List (Row × Bool)) (news : List Row) : Prop :=
  ∀ entry ∈ marked, entry.2 = true ->
    ∀ new ∈ news, Not (upsert.Conflicts entry.1 new)

theorem find_marked (new : Row) :
    (marked.map Prod.fst).find? (fun old => decide (upsert.Conflicts old new)) =
      (marked.find? fun entry => decide (upsert.Conflicts entry.1 new)).map Prod.fst := by
  rw [find?_map]
  rfl

theorem propose_table {row : Row} {next : List (Row × Bool)}
    (hstep : propose upsert marked new = .ok (row, next)) :
    next.map Prod.fst = upsert.settled (marked.map Prod.fst) [new] := by
  unfold propose at hstep
  split at hstep
  · cases hstep
  · rename_i old hfind
    cases hstep
    have hmem : (old, false) ∈ marked := mem_of_find?_eq_some hfind
    have hmeet : upsert.Conflicts old new := by simpa using find?_some hfind
    have hnotfree : Not (upsert.Free (marked.map Prod.fst) new) :=
      fun hfree => hfree old (mem_map.mpr ⟨_, hmem, rfl⟩) hmeet
    rw [settled_single_of_not_free hnotfree, map_map, map_map]
    apply map_congr_left
    intro entry _
    rcases Classical.em (upsert.Conflicts entry.1 new) with hconflict | hconflict
    · simp [hconflict, absorb_cons_of_conflicts]
    · simp [hconflict, absorb]
  · rename_i hfind
    split at hstep
    · cases hstep
    · cases hstep
      have hfree : upsert.Free (marked.map Prod.fst) new := by
        intro old hold hconflict
        obtain ⟨entry, hentry, rfl⟩ := mem_map.mp hold
        simpa [hconflict] using find?_eq_none.mp hfind entry hentry
      rw [settled_single_of_free hfree, map_append]
      rfl

theorem propose_ok (hfits : upsert.Fits (marked.map Prod.fst) (new :: rest))
    (hspent : upsert.Spent marked (new :: rest)) :
    ∃ next, propose upsert marked new = .ok (upsert.target (marked.map Prod.fst) new, next) /\
      next.map Prod.fst = upsert.settled (marked.map Prod.fst) [new] /\
      upsert.Spent next rest := by
  cases hfind : marked.find? (fun entry => decide (upsert.Conflicts entry.1 new)) with
  | some entry =>
    obtain ⟨old, written⟩ := entry
    have hmem : (old, written) ∈ marked := mem_of_find?_eq_some hfind
    have hmeet : upsert.Conflicts old new := by simpa using find?_some hfind
    have hunwritten : written = false := by
      by_contra hwritten
      exact hspent _ hmem (by simpa using hwritten) new mem_cons_self hmeet
    subst hunwritten
    have htarget : upsert.target (marked.map Prod.fst) new = upsert.merge old new :=
      target_of_find (by rw [find_marked, hfind]; rfl)
    let next := marked.map fun entry =>
      if upsert.Conflicts entry.1 new then (upsert.merge entry.1 new, true) else entry
    have hstep : propose upsert marked new =
        .ok (upsert.target (marked.map Prod.fst) new, next) := by
      rw [propose, hfind, htarget]
    refine ⟨next, hstep, propose_table hstep, ?_⟩
    intro entry hentry hwritten row hrow hconflict
    obtain ⟨before, hbefore, rfl⟩ := mem_map.mp hentry
    rcases Classical.em (upsert.Conflicts before.1 new) with hhit | hhit
    · rw [if_pos hhit, conflicts_merge] at hconflict
      exact hfits.not_conflicts_of_head hhit hrow hconflict
    · rw [if_neg hhit] at hwritten hconflict
      exact hspent before hbefore hwritten row (mem_cons_of_mem _ hrow) hconflict
  | none =>
    have hfree : upsert.Free (marked.map Prod.fst) new := by
      intro old hold hconflict
      obtain ⟨entry, hentry, rfl⟩ := mem_map.mp hold
      simpa [hconflict] using find?_eq_none.mp hfind entry hentry
    have hapart : ∀ old ∈ marked.map Prod.fst, upsert.Apart old new := by
      rcases hfits.meets new mem_cons_self with ⟨old, hold, hmeet⟩ | hall
      · exact absurd hmeet (hfree old hold)
      · exact hall
    have hviolated : upsert.enforced.find? (fun name =>
        marked.any fun entry => decide (Clash (upsert.index name) entry.1 new)) = none := by
      rw [find?_eq_none]
      intro name hname hany
      obtain ⟨entry, hentry, hclash⟩ := any_eq_true.mp hany
      exact hapart entry.1 (mem_map.mpr ⟨entry, hentry, rfl⟩) name hname (by simpa using hclash)
    have hstep : propose upsert marked new =
        .ok (upsert.target (marked.map Prod.fst) new, marked ++ [(new, true)]) := by
      rw [propose, hfind, target_of_free hfree]
      simp only [hviolated]
    refine ⟨_, hstep, propose_table hstep, ?_⟩
    intro entry hentry hwritten row hrow
    rcases mem_append.mp hentry with hold | hnew
    · exact hspent entry hold hwritten row (mem_cons_of_mem _ hrow)
    · rw [mem_singleton.mp hnew]
      exact (hfits.head_apart row hrow).not_conflicts

theorem proposeAll_ok (hfits : upsert.Fits (marked.map Prod.fst) news)
    (hspent : upsert.Spent marked news) :
    ∃ last, proposeAll upsert marked news =
        .ok (news.map (upsert.target (marked.map Prod.fst)), last) /\
      last.map Prod.fst = upsert.settled (marked.map Prod.fst) news := by
  induction news generalizing marked with
  | nil => exact ⟨marked, rfl, by simp⟩
  | cons new rest ih =>
    obtain ⟨next, hstep, hnext, hspent'⟩ := propose_ok hfits hspent
    have hfits' : upsert.Fits (next.map Prod.fst) rest := by
      rw [hnext]
      exact hfits.tail
    obtain ⟨last, hrun, hlast⟩ := ih hfits' hspent'
    refine ⟨last, ?_, ?_⟩
    · have hrows : rest.map (upsert.target (next.map Prod.fst)) =
          rest.map (upsert.target (marked.map Prod.fst)) := by
        apply map_congr_left
        intro row hrow
        rw [hnext]
        exact hfits.target_settled hrow
      simp only [proposeAll, hstep, hrun, hrows, map_cons]
    · rw [hlast, hnext, hfits.settled_cons]

theorem statement_ok (hfits : upsert.Fits table news) :
    statement upsert table news =
      .ok (news.map (upsert.target table), upsert.settled table news) := by
  have hmap : (table.map fun row => (row, false)).map Prod.fst = table := by
    simp [comp_def]
  have hspent : upsert.Spent (table.map fun row => (row, false)) news := by
    intro entry hentry hwritten
    obtain ⟨row, -, rfl⟩ := mem_map.mp hentry
    cases hwritten
  obtain ⟨last, hrun, hlast⟩ := proposeAll_ok (hmap.symm ▸ hfits) hspent
  rw [hmap] at hrun hlast
  simp only [statement, hrun, hlast]

variable {chunks : List (List Row)}

theorem statements_ok (hfits : upsert.Fits table chunks.flatten) :
    statements upsert table chunks =
      .ok (chunks.flatten.map (upsert.target table), upsert.settled table chunks.flatten) := by
  induction chunks generalizing table with
  | nil => simp [statements]
  | cons news more ih =>
    obtain ⟨hfirst, hsplit⟩ := hfits.split
    have hrows : more.flatten.map (upsert.target (upsert.settled table news)) =
        more.flatten.map (upsert.target table) :=
      map_congr_left fun row hrow => hsplit.2.1 row hrow
    simp only [statements, statement_ok hfirst, ih hsplit.1, flatten_cons, map_append,
      hrows, hsplit.2.2]

/-- The arbiter finds no row for the proposed one, yet an enforced index does. -/
structure Barred (upsert : Upsert Name Row Entry) (table : List Row) (new : Row) : Prop where
  free : upsert.Free table new
  held : ∃ old ∈ table, Not (upsert.Apart old new)

theorem Barred.settled (hbarred : upsert.Barred table new) (hapart : upsert.Apart other new) :
    upsert.Barred (upsert.settled table [other]) new := by
  constructor
  · intro row hrow
    rcases mem_settled.mp hrow with ⟨old, hold, rfl⟩ | ⟨hother, -⟩
    · rw [conflicts_absorb]
      exact hbarred.free old hold
    · rw [mem_singleton.mp hother]
      exact hapart.not_conflicts
  · obtain ⟨old, hold, hnot⟩ := hbarred.held
    refine ⟨upsert.absorb [other] old, mem_settled.mpr (Or.inl ⟨old, hold, rfl⟩), ?_⟩
    rwa [apart_absorb]

theorem propose_barred (hbarred : upsert.Barred (marked.map Prod.fst) new) :
    ∃ refusal, propose upsert marked new = .error refusal := by
  have hfind : marked.find? (fun entry => decide (upsert.Conflicts entry.1 new)) = none := by
    rw [find?_eq_none]
    intro entry hentry
    simpa using hbarred.free entry.1 (mem_map.mpr ⟨entry, hentry, rfl⟩)
  obtain ⟨old, hold, hnot⟩ := hbarred.held
  obtain ⟨entry, hentry, rfl⟩ := mem_map.mp hold
  cases hviolated : upsert.enforced.find? (fun name =>
      marked.any fun entry => decide (Clash (upsert.index name) entry.1 new)) with
  | some name => exact ⟨.uniqueViolation name, by simp only [propose, hfind, hviolated]⟩
  | none =>
    refine absurd ?_ hnot
    intro name hname hclash
    have hnone := find?_eq_none.mp hviolated name hname
    exact hnone (any_eq_true.mpr ⟨entry, hentry, by simpa using hclash⟩)

theorem proposeAll_barred (hapart : news.Pairwise upsert.Apart)
    (hbarred : upsert.Barred (marked.map Prod.fst) new) :
    (new ∈ news -> ∃ refusal, proposeAll upsert marked news = .error refusal) /\
      ∀ rows last, (∀ row ∈ news, upsert.Apart row new) ->
        proposeAll upsert marked news = .ok (rows, last) ->
          upsert.Barred (last.map Prod.fst) new := by
  induction news generalizing marked with
  | nil =>
    constructor
    · intro hmem
      cases hmem
    · intro rows last _ hrun
      cases hrun
      exact hbarred
  | cons head rest ih =>
    obtain ⟨hhead, hrest⟩ := pairwise_cons.mp hapart
    cases hstep : propose upsert marked head with
    | error refusal =>
      constructor
      · intro _
        exact ⟨refusal, by simp only [proposeAll, hstep]⟩
      · intro rows last _ hrun
        simp only [proposeAll, hstep] at hrun
        cases hrun
    | ok result =>
      obtain ⟨row, next⟩ := result
      have hkeep (h : upsert.Apart head new) : upsert.Barred (next.map Prod.fst) new := by
        rw [propose_table hstep]
        exact hbarred.settled h
      constructor
      · intro hmem
        rcases mem_cons.mp hmem with rfl | htail
        · obtain ⟨refusal, herror⟩ := propose_barred hbarred
          rw [hstep] at herror
          cases herror
        · obtain ⟨refusal, herror⟩ := (ih hrest (hkeep (hhead new htail))).1 htail
          exact ⟨refusal, by simp only [proposeAll, hstep, herror]⟩
      · intro rows last hall hrun
        simp only [proposeAll, hstep] at hrun
        split at hrun
        · cases hrun
        · rename_i hmore
          cases hrun
          exact (ih hrest (hkeep (hall head mem_cons_self))).2 _ _
            (fun row hrow => hall row (mem_cons_of_mem _ hrow)) hmore

theorem statements_barred (hapart : chunks.flatten.Pairwise upsert.Apart)
    (hnew : new ∈ chunks.flatten) (hbarred : upsert.Barred table new) :
    ∃ refusal, statements upsert table chunks = .error refusal := by
  induction chunks generalizing table with
  | nil => cases hnew
  | cons news more ih =>
    obtain ⟨hnews, hmore, hcross⟩ := pairwise_append.mp (flatten_cons ▸ hapart)
    have hmap : (table.map fun row => (row, false)).map Prod.fst = table := by
      simp [comp_def]
    obtain ⟨hin, hout⟩ := proposeAll_barred hnews (hmap.symm ▸ hbarred)
    cases hrun : proposeAll upsert (table.map fun row => (row, false)) news with
    | error refusal => exact ⟨refusal, by simp only [statements, statement, hrun]⟩
    | ok result =>
      obtain ⟨rows, last⟩ := result
      have hlater : new ∈ more.flatten := by
        rcases mem_append.mp (flatten_cons ▸ hnew) with hhere | hlater
        · obtain ⟨refusal, herror⟩ := hin hhere
          rw [hrun] at herror
          cases herror
        · exact hlater
      have hstill := hout rows last (fun row hrow => hcross row hrow new hlater) hrun
      obtain ⟨refusal, herror⟩ := ih hmore hlater hstill
      exact ⟨refusal, by simp only [statements, statement, hrun, herror]⟩

end Runs

end Upsert

end AnchorMind.Kernel.UniqueIndex

/-!
# What accepted statements add

A statement that is accepted keeps every enforced index unique, and of any kind of
row a merge does not make out of nothing it leaves at most as many as there were
and as many as it was given.
-/

namespace AnchorMind.Kernel.UniqueIndex

open List Function

section Counting

variable {Item : Type*} {items : List Item} {select : Item -> Bool}

theorem countP_map_le {update : Item -> Item} {hit : Item -> Prop} {extra : Nat}
    (honce : items.Pairwise fun left right => Not (hit left /\ hit right))
    (hmiss : ∀ item ∈ items, Not (hit item) -> update item = item)
    (hhit : ∀ item ∈ items, hit item ->
      (select (update item)).toNat ≤ (select item).toNat + extra) :
    (items.map update).countP select ≤ items.countP select + extra := by
  have hcount (item : Item) (rest : List Item) :
      (item :: rest).countP select = rest.countP select + (select item).toNat := by
    rw [countP_cons]
    cases select item <;> rfl
  induction items with
  | nil => simp
  | cons head rest ih =>
    obtain ⟨hhead, hrest⟩ := pairwise_cons.mp honce
    rw [map_cons, hcount, hcount]
    rcases Classical.em (hit head) with hmeet | hmeet
    · have hsame : rest.map update = rest.map id := by
        apply map_congr_left
        intro item hitem
        exact hmiss item (mem_cons_of_mem _ hitem) fun hitem' =>
          hhead item hitem ⟨hmeet, hitem'⟩
      have hadd := hhit head mem_cons_self hmeet
      rw [hsame, map_id]
      omega
    · have hrest := ih hrest (fun item hitem => hmiss item (mem_cons_of_mem _ hitem))
        fun item hitem => hhit item (mem_cons_of_mem _ hitem)
      rw [hmiss head mem_cons_self hmeet]
      omega

end Counting

namespace Upsert

variable {Name Row Entry : Type*} {upsert : Upsert Name Row Entry}
variable {table middle last news more : List Row} {new : Row} {select : Row -> Bool}

def Consistent (upsert : Upsert Name Row Entry) (table : List Row) : Prop :=
  ∀ name ∈ upsert.enforced, Unique (upsert.index name) table

def Selects (upsert : Upsert Name Row Entry) (select : Row -> Bool) (news : List Row) : Prop :=
  ∀ new ∈ news, ∀ old, select (upsert.merge old new) = true ->
    select old = true \/ select new = true

theorem Selects.mono (hselects : upsert.Selects select news) (hsubset : more ⊆ news) :
    upsert.Selects select more :=
  fun new hnew => hselects new (hsubset hnew)

structure Grows (upsert : Upsert Name Row Entry) (select : Row -> Bool)
    (table news last : List Row) : Prop where
  consistent : upsert.Consistent last
  count : last.countP select ≤ table.countP select + news.countP select

theorem Grows.trans (hfirst : upsert.Grows select table news middle)
    (hmore : upsert.Grows select middle more last) :
    upsert.Grows select table (news ++ more) last := by
  constructor
  · exact hmore.consistent
  · have hcount := hfirst.count
    have hrest := hmore.count
    rw [countP_append]
    omega

section Growth

variable [DecidableEq Entry] {marked next : List (Row × Bool)}

theorem apart_of_propose {row : Row} (hstep : propose upsert marked new = .ok (row, next))
    (hfree : upsert.Free (marked.map Prod.fst) new) {old : Row} (hold : old ∈ marked.map Prod.fst) :
    upsert.Apart old new := by
  obtain ⟨entry, hentry, rfl⟩ := mem_map.mp hold
  have hfind : marked.find? (fun entry => decide (upsert.Conflicts entry.1 new)) = none := by
    rw [find?_eq_none]
    intro other hother
    simpa using hfree other.1 (mem_map.mpr ⟨other, hother, rfl⟩)
  unfold propose at hstep
  simp only [hfind] at hstep
  split at hstep
  · cases hstep
  · rename_i hviolated
    intro name hname hclash
    have hnone := find?_eq_none.mp hviolated name hname
    exact hnone (any_eq_true.mpr ⟨entry, hentry, by simpa using hclash⟩)

theorem grows_single (hconsistent : upsert.Consistent table)
    (hselects : upsert.Selects select [new])
    (hapart : upsert.Free table new -> ∀ old ∈ table, upsert.Apart old new) :
    upsert.Grows select table [new] (upsert.settled table [new]) := by
  rcases Classical.em (upsert.Free table new) with hfree | hmeet
  · rw [settled_single_of_free hfree]
    constructor
    · intro name hname
      refine pairwise_append.mpr ⟨hconsistent name hname, pairwise_singleton _ _, ?_⟩
      intro old hold row hrow
      rw [mem_singleton.mp hrow]
      exact hapart hfree old hold name hname
    · exact Nat.le_of_eq (countP_append ..)
  · rw [settled_single_of_not_free hmeet]
    constructor
    · intro name hname
      refine pairwise_map.mpr ((hconsistent name hname).imp ?_)
      intro left right hnot hclash
      rw [Clash, index_absorb, index_absorb] at hclash
      exact hnot hclash
    · have honce : table.Pairwise fun left right =>
          Not (upsert.Conflicts left new /\ upsert.Conflicts right new) := by
        cases harbiter : upsert.arbiter with
        | none =>
          refine pairwise_of_forall ?_
          rintro left right ⟨⟨name, hname, -⟩, -⟩
          rw [harbiter] at hname
          cases hname
        | some name =>
          refine (hconsistent name (upsert.arbiter_enforced name harbiter)).imp ?_
          rintro left right hnot ⟨⟨name', hname', hleft⟩, ⟨name'', hname'', hright⟩⟩
          rw [harbiter] at hname' hname''
          cases hname'
          cases hname''
          exact hnot (hleft.trans hright.symm)
      apply countP_map_le honce
      · intro old _ hnot
        apply absorb_eq_self
        intro row hrow
        rwa [mem_singleton.mp hrow]
      · intro old _ hhit
        rw [absorb_cons_of_conflicts hhit, countP_singleton]
        cases hmerged : select (upsert.merge old new) with
        | false => simp
        | true =>
          rcases hselects new mem_cons_self old hmerged with hold | hnew
          · simp [hold]
          · simp [hnew]

variable {rows : List Row}

theorem proposeAll_grows (hselects : upsert.Selects select news)
    (hconsistent : upsert.Consistent (marked.map Prod.fst))
    (hrun : proposeAll upsert marked news = .ok (rows, next)) :
    upsert.Grows select (marked.map Prod.fst) news (next.map Prod.fst) := by
  induction news generalizing marked rows with
  | nil =>
    cases hrun
    exact ⟨hconsistent, by simp⟩
  | cons new rest ih =>
    unfold proposeAll at hrun
    split at hrun
    · cases hrun
    · rename_i row between hstep
      split at hrun
      · cases hrun
      · rename_i others hmore
        cases hrun
        have hfirst : upsert.Grows select (marked.map Prod.fst) [new]
            (upsert.settled (marked.map Prod.fst) [new]) :=
          grows_single hconsistent (hselects.mono (by simp)) fun hfree old hold =>
            apart_of_propose hstep hfree hold
        rw [<- propose_table hstep] at hfirst
        exact hfirst.trans (ih (hselects.mono (by simp)) hfirst.consistent hmore)

theorem statement_grows (hselects : upsert.Selects select news)
    (hconsistent : upsert.Consistent table)
    (hrun : statement upsert table news = .ok (rows, last)) :
    upsert.Grows select table news last := by
  have hmap : (table.map fun row => (row, false)).map Prod.fst = table := by
    simp [comp_def]
  unfold statement at hrun
  split at hrun
  · cases hrun
  · rename_i marked hall
    cases hrun
    have hgrows := proposeAll_grows hselects (hmap.symm ▸ hconsistent) hall
    rwa [hmap] at hgrows

/-- Statements that are accepted keep the table consistent and add at most what they
were given. -/
theorem statements_grows {chunks : List (List Row)}
    (hselects : upsert.Selects select chunks.flatten) (hconsistent : upsert.Consistent table)
    (hrun : statements upsert table chunks = .ok (rows, last)) :
    upsert.Grows select table chunks.flatten last := by
  induction chunks generalizing table rows with
  | nil =>
    cases hrun
    exact ⟨hconsistent, by simp⟩
  | cons news rest ih =>
    unfold statements at hrun
    split at hrun
    · cases hrun
    · rename_i first between hstatement
      split at hrun
      · cases hrun
      · rename_i others hmore
        cases hrun
        have hselects : upsert.Selects select (news ++ rest.flatten) := hselects
        have hfirst := statement_grows (hselects.mono (subset_append_left _ _)) hconsistent
          hstatement
        exact hfirst.trans
          (ih (hselects.mono (subset_append_right _ _)) hfirst.consistent hmore)

end Growth

section Single

variable [DecidableEq Entry] {keeps : Row -> Row -> Prop}

theorem statement_single {rows : List Row}
    (hrun : statement upsert table [new] = .ok (rows, last)) :
    last = upsert.settled table [new] /\ (upsert.Free table new -> rows = [new]) := by
  have hmap : (table.map fun row => (row, false)).map Prod.fst = table := by
    simp [comp_def]
  unfold statement at hrun
  simp only [proposeAll] at hrun
  cases hstep : propose upsert (table.map fun row => (row, false)) new with
  | error refusal =>
    rw [hstep] at hrun
    cases hrun
  | ok pair =>
    obtain ⟨row, next⟩ := pair
    rw [hstep] at hrun
    cases hrun
    refine ⟨by rw [propose_table hstep, hmap], fun hfree => ?_⟩
    have hfind : (table.map fun row => (row, false)).find?
        (fun entry => decide (upsert.Conflicts entry.1 new)) = none := by
      rw [find?_eq_none]
      intro entry hentry
      have hold := mem_map_of_mem (f := Prod.fst) hentry
      rw [hmap] at hold
      simpa using hfree entry.1 hold
    unfold propose at hstep
    simp only [hfind] at hstep
    split at hstep
    · cases hstep
    · cases hstep
      rfl

theorem keeps_absorb (hrefl : ∀ row, keeps row row)
    (hmerge : ∀ old new, keeps old (upsert.merge old new)) (news : List Row) (old : Row) :
    keeps old (upsert.absorb news old) := by
  unfold absorb
  split
  · exact hmerge old _
  · exact hrefl old

end Single

end Upsert

end AnchorMind.Kernel.UniqueIndex
