import AnchorMind.Kernel.UniqueIndex

/-!
# Statements of many rows and rows one by one

Rows of one statement that do not meet each other in the arbiter index end as they would
in statements of their own.  Two rows that do meet there end as their merge would, where
merging is associative, however many rows of other entries stand between them.
-/

namespace AnchorMind.Kernel.OneByOne

open UniqueIndex UniqueIndex.Upsert List Function

variable {Name Row Entry : Type*}

section Meeting

variable {upsert : Upsert Name Row Entry} {table : List Row} {old new other : Row}

theorem Conflicts.symm (hconflict : upsert.Conflicts old new) : upsert.Conflicts new old := by
  obtain ⟨name, harbiter, hclash⟩ := hconflict
  exact ⟨name, harbiter, hclash.symm⟩

theorem Conflicts.trans (hleft : upsert.Conflicts old new) (hright : upsert.Conflicts new other) :
    upsert.Conflicts old other := by
  obtain ⟨name, harbiter, hclash⟩ := hleft
  obtain ⟨name', harbiter', hclash'⟩ := hright
  obtain rfl : name = name' := Option.some.inj (harbiter.symm.trans harbiter')
  exact ⟨name, harbiter, hclash.trans hclash'⟩

def Admitted (upsert : Upsert Name Row Entry) (table : List Row) (new : Row) : Prop :=
  (∃ old ∈ table, upsert.Conflicts old new) \/
    ∀ old ∈ table, upsert.Apart old new

theorem not_admitted (hnot : Not (Admitted upsert table new)) : upsert.Barred table new := by
  obtain ⟨hfree, hheld⟩ := not_or.mp hnot
  refine ⟨fun old hold hconflict => hfree ⟨old, hold, hconflict⟩, ?_⟩
  push Not at hheld
  exact hheld

theorem fits_single (hadmitted : Admitted upsert table new) : upsert.Fits table [new] := by
  refine ⟨pairwise_singleton _ _, ?_⟩
  intro row hrow
  rw [mem_singleton.mp hrow]
  exact hadmitted

end Meeting

variable [DecidableEq Entry]

instance (upsert : Upsert Name Row Entry) (table : List Row) (new : Row) :
    Decidable (Admitted upsert table new) :=
  inferInstanceAs (Decidable ((∃ old ∈ table, upsert.Conflicts old new) \/
    ∀ old ∈ table, ∀ name ∈ upsert.enforced,
      Not (Clash (upsert.index name) old new)))

def insertRow (upsert : Upsert Name Row Entry) (table : List Row) (new : Row) :
    Option (List Row) :=
  if Admitted upsert table new then some (upsert.settled table [new]) else none

def insertRows (upsert : Upsert Name Row Entry) (table news : List Row) : Option (List Row) :=
  news.foldlM (insertRow upsert) table

section Statements

variable {upsert : Upsert Name Row Entry} {table news rest : List Row} {old new other : Row}

theorem propose_spent {marked next : List (Row × Bool)} {row : Row}
    (hstep : propose upsert marked new = .ok (row, next))
    (hspent : upsert.Spent marked (new :: rest))
    (hrest : ∀ later ∈ rest, Not (upsert.Conflicts new later)) : upsert.Spent next rest := by
  intro entry hentry hwritten later hlater hconflict
  unfold propose at hstep
  split at hstep
  · cases hstep
  · cases hstep
    obtain ⟨before, hbefore, rfl⟩ := mem_map.mp hentry
    by_cases hhit : upsert.Conflicts before.1 new
    · rw [if_pos hhit, conflicts_merge] at hconflict
      exact hrest later hlater (Conflicts.trans (Conflicts.symm hhit) hconflict)
    · rw [if_neg hhit] at hwritten hconflict
      exact hspent before hbefore hwritten later (mem_cons_of_mem _ hlater) hconflict
  · split at hstep
    · cases hstep
    · cases hstep
      rcases mem_append.mp hentry with hold | hnew
      · exact hspent entry hold hwritten later (mem_cons_of_mem _ hlater) hconflict
      · rw [mem_singleton.mp hnew] at hconflict
        exact hrest later hlater hconflict

/-- The rows of one statement, none of which meets another in the arbiter. -/
theorem proposeAll_eq {marked : List (Row × Bool)}
    (hapart : news.Pairwise fun left right => Not (upsert.Conflicts left right))
    (hspent : upsert.Spent marked news) :
    (proposeAll upsert marked news).toOption.map (fun result => result.2.map Prod.fst) =
      insertRows upsert (marked.map Prod.fst) news := by
  induction news generalizing marked with
  | nil => rfl
  | cons new rest ih =>
    obtain ⟨hhead, htail⟩ := pairwise_cons.mp hapart
    rw [insertRows, foldlM_cons, insertRow]
    by_cases hadmitted : Admitted upsert (marked.map Prod.fst) new
    · have hown : upsert.Spent marked [new] := by
        intro entry hentry hwritten row hrow
        rw [mem_singleton.mp hrow]
        exact hspent entry hentry hwritten new mem_cons_self
      obtain ⟨next, hstep, hnext, -⟩ := propose_ok (fits_single hadmitted) hown
      have hrun := ih htail (propose_spent hstep hspent hhead)
      rw [if_pos hadmitted, proposeAll, hstep]
      rw [hnext] at hrun
      simp only [Option.bind_eq_bind, Option.bind_some]
      rw [<- insertRows, <- hrun]
      cases proposeAll upsert next rest with
      | error refusal => rfl
      | ok result => rfl
    · obtain ⟨refusal, hrefused⟩ := propose_barred (not_admitted hadmitted)
      rw [if_neg hadmitted, proposeAll, hrefused]
      rfl

theorem statement_eq (hapart : news.Pairwise fun left right => Not (upsert.Conflicts left right)) :
    (statement upsert table news).toOption.map Prod.snd = insertRows upsert table news := by
  have hmap : (table.map fun row => (row, false)).map Prod.fst = table := by
    simp [comp_def]
  have hspent : upsert.Spent (table.map fun row => (row, false)) news := by
    intro entry hentry hwritten
    obtain ⟨row, -, rfl⟩ := mem_map.mp hentry
    cases hwritten
  have hrun := proposeAll_eq hapart hspent
  rw [hmap] at hrun
  rw [<- hrun, statement]
  cases proposeAll upsert (table.map fun row => (row, false)) news with
  | error refusal => rfl
  | ok result => rfl

theorem statements_eq {chunks : List (List Row)}
    (hapart : ∀ chunk ∈ chunks,
      chunk.Pairwise fun left right => Not (upsert.Conflicts left right)) :
    (statements upsert table chunks).toOption.map Prod.snd =
      insertRows upsert table chunks.flatten := by
  induction chunks generalizing table with
  | nil => rfl
  | cons news more ih =>
    have hfirst := @statement_eq _ _ _ _ upsert table news (hapart news mem_cons_self)
    rw [flatten_cons, insertRows, foldlM_append, <- insertRows, <- hfirst, statements]
    cases statement upsert table news with
    | error refusal => rfl
    | ok result =>
      have hrest := @ih result.2 fun chunk hchunk =>
        hapart chunk (mem_cons_of_mem _ hchunk)
      have hflat : (some result.2 >>= fun middle =>
          more.flatten.foldlM (insertRow upsert) middle) =
        insertRows upsert result.2 more.flatten := rfl
      simp only [Except.toOption, Option.map_some]
      rw [hflat, <- hrest]
      cases statements upsert result.2 more with
      | error refusal => rfl
      | ok last => rfl

end Statements

section Merging

variable {upsert : Upsert Name Row Entry} {table rest : List Row} {old new other later : Row}

theorem absorb_single_of_conflicts (hmeet : upsert.Conflicts old new) :
    upsert.absorb [new] old = upsert.merge old new :=
  absorb_cons_of_conflicts hmeet

theorem absorb_single_of_not (hmiss : Not (upsert.Conflicts old new)) :
    upsert.absorb [new] old = old := by
  refine absorb_eq_self ?_
  intro row hrow
  rwa [mem_singleton.mp hrow]

omit [DecidableEq Entry] in
theorem conflicts_merge_right :
    upsert.Conflicts old (upsert.merge new other) <-> upsert.Conflicts old new := by
  constructor
  · intro hmeet
    exact Conflicts.symm (conflicts_merge.mp (Conflicts.symm hmeet))
  · intro hmeet
    exact Conflicts.symm (conflicts_merge.mpr (Conflicts.symm hmeet))

omit [DecidableEq Entry] in
theorem admitted_merge :
    Admitted upsert table (upsert.merge new other) <-> Admitted upsert table new := by
  have hapart : ∀ old, upsert.Apart old (upsert.merge new other) <-> upsert.Apart old new := by
    intro old
    constructor
    · intro hfree
      exact (apart_merge.mp hfree.symm).symm
    · intro hfree
      exact (apart_merge.mpr hfree.symm).symm
  simp only [Admitted, conflicts_merge_right, hapart]

theorem insertRow_of_met (hmet : ∃ old ∈ table, upsert.Conflicts old new) :
    insertRow upsert table new = some (table.map (upsert.absorb [new])) := by
  have hnotfree : Not (upsert.Free table new) := by
    intro hfree
    obtain ⟨old, hold, hmeet⟩ := hmet
    exact hfree old hold hmeet
  rw [insertRow, if_pos (.inl hmet), settled_single_of_not_free hnotfree]

theorem met_settled (hmet : ∃ old ∈ table, upsert.Conflicts old later) :
    ∃ old ∈ upsert.settled table [new], upsert.Conflicts old later := by
  obtain ⟨old, hold, hmeet⟩ := hmet
  exact ⟨upsert.absorb [new] old, mem_settled.mpr (.inl ⟨old, hold, rfl⟩),
    conflicts_absorb.mpr hmeet⟩

theorem admitted_absorb :
    Admitted upsert (table.map (upsert.absorb [later])) new <-> Admitted upsert table new := by
  simp only [Admitted, mem_map, exists_exists_and_eq_and, forall_exists_index, and_imp,
    forall_apply_eq_imp_iff₂, conflicts_absorb, apart_absorb]

theorem insertRow_merge
    (hassoc : ∀ old new later,
      upsert.merge (upsert.merge old new) later = upsert.merge old (upsert.merge new later))
    (hmeet : upsert.Conflicts new later) :
    (insertRow upsert table new).bind (fun middle => insertRow upsert middle later) =
      insertRow upsert table (upsert.merge new later) := by
  by_cases hadmitted : Admitted upsert table new
  · rw [insertRow, if_pos hadmitted, Option.bind_some]
    by_cases hfree : upsert.Free table new
    · have hmerged : upsert.Free table (upsert.merge new later) := fun old hold hconflict =>
        hfree old hold (conflicts_merge_right.mp hconflict)
      have hold : table.map (upsert.absorb [later]) = table := by
        refine (map_congr_left ?_).trans (map_id table)
        intro old hold
        refine absorb_single_of_not ?_
        intro hconflict
        exact hfree old hold (Conflicts.trans hconflict (Conflicts.symm hmeet))
      rw [settled_single_of_free hfree, insertRow_of_met ⟨new, by simp, hmeet⟩, map_append,
        map_cons, map_nil, hold, absorb_single_of_conflicts hmeet, insertRow,
        if_pos (admitted_merge.mpr hadmitted), settled_single_of_free hmerged]
    · have hheld : ∃ old ∈ table, upsert.Conflicts old new := by
        unfold Free at hfree
        push Not at hfree
        exact hfree
      have hlater : ∃ old ∈ table, upsert.Conflicts old later := by
        obtain ⟨old, hold, hconflict⟩ := hheld
        exact ⟨old, hold, Conflicts.trans hconflict hmeet⟩
      have hmerged : ∃ old ∈ table,
          upsert.Conflicts old (upsert.merge new later) := by
        obtain ⟨old, hold, hconflict⟩ := hheld
        exact ⟨old, hold, conflicts_merge_right.mpr hconflict⟩
      rw [insertRow_of_met (met_settled hlater), settled_single_of_not_free hfree,
        insertRow_of_met hmerged, map_map]
      congr 1
      refine map_congr_left ?_
      intro old _
      rw [comp_apply]
      by_cases hconflict : upsert.Conflicts old new
      · rw [absorb_single_of_conflicts hconflict,
          absorb_single_of_conflicts (conflicts_merge.mpr (Conflicts.trans hconflict hmeet)),
          absorb_single_of_conflicts (conflicts_merge_right.mpr hconflict), hassoc]
      · have hmiss : Not (upsert.Conflicts old later) := fun hback =>
          hconflict (Conflicts.trans hback (Conflicts.symm hmeet))
        rw [absorb_single_of_not hconflict, absorb_single_of_not hmiss,
          absorb_single_of_not (fun hback => hconflict (conflicts_merge_right.mp hback))]
  · rw [insertRow, if_neg hadmitted, insertRow,
      if_neg (fun hback => hadmitted (admitted_merge.mp hback))]
    rfl

theorem insertRow_comm (hmet : ∃ old ∈ table, upsert.Conflicts old later)
    (hmiss : Not (upsert.Conflicts new later)) :
    (insertRow upsert table new).bind (fun middle => insertRow upsert middle later) =
      (insertRow upsert table later).bind fun middle => insertRow upsert middle new := by
  rw [insertRow_of_met hmet, Option.bind_some]
  by_cases hadmitted : Admitted upsert table new
  · rw [insertRow, if_pos hadmitted, Option.bind_some, insertRow_of_met (met_settled hmet),
      insertRow, if_pos (admitted_absorb.mpr hadmitted)]
    congr 1
    by_cases hfree : upsert.Free table new
    · have hstill : upsert.Free (table.map (upsert.absorb [later])) new := by
        simpa [Free, conflicts_absorb] using hfree
      rw [settled_single_of_free hfree, settled_single_of_free hstill, map_append,
        map_cons, map_nil, absorb_single_of_not hmiss]
    · have hstill : Not (upsert.Free (table.map (upsert.absorb [later])) new) := by
        simpa [Free, conflicts_absorb] using hfree
      rw [settled_single_of_not_free hfree, settled_single_of_not_free hstill, map_map,
        map_map]
      refine map_congr_left ?_
      intro old _
      rw [comp_apply, comp_apply]
      by_cases hnew : upsert.Conflicts old new
      · have hnot : Not (upsert.Conflicts old later) := fun hback =>
          hmiss (Conflicts.trans (Conflicts.symm hnew) hback)
        rw [absorb_single_of_conflicts hnew, absorb_single_of_not hnot,
          absorb_single_of_not (fun hback => hnot (conflicts_merge.mp hback)),
          absorb_single_of_conflicts hnew]
      · have hagain : upsert.absorb [new] (upsert.absorb [later] old) =
            upsert.absorb [later] old :=
          absorb_single_of_not fun hback => hnew (conflicts_absorb.mp hback)
        rw [absorb_single_of_not hnew, hagain]
  · rw [insertRow, if_neg hadmitted, insertRow,
      if_neg (fun hback => hadmitted (admitted_absorb.mp hback))]
    rfl

theorem insertRows_cons :
    insertRows upsert table (new :: rest) =
      (insertRow upsert table new).bind fun middle => insertRows upsert middle rest :=
  foldlM_cons

theorem insertRow_eq_some {middle : List Row} (hrun : insertRow upsert table new = some middle) :
    middle = upsert.settled table [new] := by
  rw [insertRow] at hrun
  split at hrun
  · exact (Option.some.inj hrun).symm
  · cases hrun

theorem insertRows_comm (hmet : ∃ old ∈ table, upsert.Conflicts old later)
    (hmiss : ∀ row ∈ rest, Not (upsert.Conflicts row later)) :
    (insertRows upsert table rest).bind (fun middle => insertRow upsert middle later) =
      (insertRow upsert table later).bind fun middle => insertRows upsert middle rest := by
  induction rest generalizing table with
  | nil =>
    rw [insertRow_of_met hmet]
    exact insertRow_of_met hmet
  | cons new rest ih =>
    have hswap := insertRow_comm hmet (hmiss new mem_cons_self)
    have hrest : ∀ middle, insertRow upsert table new = some middle ->
        (insertRows upsert middle rest).bind (fun last => insertRow upsert last later) =
          (insertRow upsert middle later).bind fun last => insertRows upsert last rest := by
      intro middle hfirst
      refine ih ?_ fun row hrow => hmiss row (mem_cons_of_mem _ hrow)
      rw [insertRow_eq_some hfirst]
      exact met_settled hmet
    calc (insertRows upsert table (new :: rest)).bind (fun last => insertRow upsert last later)
        = (insertRow upsert table new).bind (fun middle =>
            (insertRows upsert middle rest).bind fun last => insertRow upsert last later) := by
          rw [insertRows_cons, Option.bind_assoc]
      _ = (insertRow upsert table new).bind (fun middle =>
            (insertRow upsert middle later).bind fun last => insertRows upsert last rest) := by
          cases hfirst : insertRow upsert table new with
          | none => rfl
          | some middle => exact hrest middle hfirst
      _ = ((insertRow upsert table later).bind fun middle => insertRow upsert middle new).bind
            (fun last => insertRows upsert last rest) := by
          rw [<- Option.bind_assoc, hswap]
      _ = (insertRow upsert table later).bind
            (fun middle => insertRows upsert middle (new :: rest)) := by
          simp only [Option.bind_assoc, insertRows_cons]

theorem insertRows_merge
    (hassoc : ∀ old new later,
      upsert.merge (upsert.merge old new) later = upsert.merge old (upsert.merge new later))
    (hmeet : upsert.Conflicts new later) (hmiss : ∀ row ∈ rest, Not (upsert.Conflicts row later)) :
    (insertRows upsert table (new :: rest)).bind (fun last => insertRow upsert last later) =
      insertRows upsert table (upsert.merge new later :: rest) := by
  rw [insertRows_cons, insertRows_cons, <- insertRow_merge hassoc hmeet, Option.bind_assoc,
    Option.bind_assoc]
  cases hfirst : insertRow upsert table new with
  | none => rfl
  | some middle =>
    refine insertRows_comm ?_ hmiss
    rw [insertRow_eq_some hfirst]
    by_cases hfree : upsert.Free table new
    · rw [settled_single_of_free hfree]
      exact ⟨new, by simp, hmeet⟩
    · unfold Free at hfree
      push Not at hfree
      obtain ⟨old, hold, hconflict⟩ := hfree
      exact met_settled ⟨old, hold, Conflicts.trans hconflict hmeet⟩

end Merging

section Forgetting

variable {Other : Type*} {upsert : Upsert Name Row Entry} {plain : Upsert Name Other Entry}
  {table : List Row}

structure Forgets (upsert : Upsert Name Row Entry) (plain : Upsert Name Other Entry)
    (forget : Row -> Other) : Prop where
  index : ∀ name row, plain.index name (forget row) = upsert.index name row
  enforced : plain.enforced = upsert.enforced
  arbiter : plain.arbiter = upsert.arbiter
  merge : ∀ old new, forget (upsert.merge old new) = plain.merge (forget old) (forget new)

variable {forget : Row -> Other}

section

variable (hforgets : Forgets upsert plain forget)
include hforgets

omit [DecidableEq Entry] in
theorem Forgets.conflicts (old new : Row) :
    plain.Conflicts (forget old) (forget new) <-> upsert.Conflicts old new := by
  simp only [Conflicts, Clash, hforgets.index, hforgets.arbiter]

omit [DecidableEq Entry] in
theorem Forgets.apart (old new : Row) :
    plain.Apart (forget old) (forget new) <-> upsert.Apart old new := by
  simp only [Apart, Clash, hforgets.index, hforgets.enforced]

theorem Forgets.absorb (old new : Row) :
    forget (upsert.absorb [new] old) = plain.absorb [forget new] (forget old) := by
  by_cases hmeet : upsert.Conflicts old new
  · rw [absorb_single_of_conflicts hmeet,
      absorb_single_of_conflicts ((hforgets.conflicts old new).mpr hmeet), hforgets.merge]
  · rw [absorb_single_of_not hmeet,
      absorb_single_of_not fun hback => hmeet ((hforgets.conflicts old new).mp hback)]

theorem Forgets.insertRow (new : Row) :
    (OneByOne.insertRow upsert table new).map (map forget) =
      OneByOne.insertRow plain (table.map forget) (forget new) := by
  have hadmitted : Admitted plain (table.map forget) (forget new) <->
      Admitted upsert table new := by
    simp only [Admitted, mem_map, exists_exists_and_eq_and, forall_exists_index, and_imp,
      forall_apply_eq_imp_iff₂, hforgets.conflicts, hforgets.apart]
  by_cases hnew : Admitted upsert table new
  · rw [OneByOne.insertRow, if_pos hnew, OneByOne.insertRow, if_pos (hadmitted.mpr hnew),
      Option.map_some]
    congr 1
    have htable : (table.map (upsert.absorb [new])).map forget =
        (table.map forget).map (plain.absorb [forget new]) := by
      simp only [map_map]
      exact map_congr_left fun old _ => hforgets.absorb old new
    have hfree : plain.Free (table.map forget) (forget new) <-> upsert.Free table new := by
      simp only [Free, mem_map, forall_exists_index, and_imp, forall_apply_eq_imp_iff₂,
        hforgets.conflicts]
    by_cases hfresh : upsert.Free table new
    · rw [settled_single_of_free hfresh, settled_single_of_free (hfree.mpr hfresh),
        map_append]
      rfl
    · rw [settled_single_of_not_free hfresh,
        settled_single_of_not_free (fun hback => hfresh (hfree.mp hback)), htable]
  · rw [OneByOne.insertRow, if_neg hnew, OneByOne.insertRow,
      if_neg (fun hback => hnew (hadmitted.mp hback))]
    rfl

theorem Forgets.insertRows (news : List Row) :
    (OneByOne.insertRows upsert table news).map (map forget) =
      OneByOne.insertRows plain (table.map forget) (news.map forget) := by
  induction news generalizing table with
  | nil => rfl
  | cons new rest ih =>
    rw [insertRows_cons, map_cons, insertRows_cons, <- hforgets.insertRow]
    cases OneByOne.insertRow upsert table new with
    | none => rfl
    | some middle => exact ih

end

end Forgetting

end AnchorMind.Kernel.OneByOne
