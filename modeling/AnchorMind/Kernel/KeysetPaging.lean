import Mathlib.Data.List.Nodup
import Mathlib.Data.List.Perm.Subperm
import Mathlib.Order.Lattice

/-!
# Paging by the key of the last row

A page is the first rows behind a mark, and a full page leaves a mark for the
next one.  A mark is read back as some key, not behind the row it stands for.
Following the marks lists every row exactly once just when the mark of every
full page is read back as the key of that page's last row.
-/

namespace AnchorMind.Kernel.KeysetPaging

open List

section

variable {Row Key : Type*} (key : Row -> Key) (markOf : Row -> Option Key) (limit : Nat)

def Exact (rows : List Row) : Prop :=
  ∀ n row, rows[n]? = some row -> (n + 1) % limit = 0 -> markOf row = some (key row)

variable {key markOf limit}

theorem exact_of_short {rest : List Row} (hshort : rest.length < limit) :
    Exact key markOf limit rest := by
  intro n row hrow hend
  have hn : n < rest.length := (List.getElem?_eq_some_iff.mp hrow).1
  rw [Nat.mod_eq_of_lt (by omega)] at hend
  omega

theorem exact_iff_of_full {before after : List Row} {last : Row}
    (hlength : (before ++ [last]).length = limit) :
    Exact key markOf limit (before ++ [last] ++ after) <->
      markOf last = some (key last) /\ Exact key markOf limit after := by
  constructor
  · intro hexact
    refine ⟨hexact before.length last ?_ ?_, fun n row hrow hend => ?_⟩
    · simp
    · rw [← hlength, length_append, length_singleton, Nat.mod_self]
    · refine hexact (limit + n) row ?_ ?_
      · rw [getElem?_append_right (by omega), hlength, Nat.add_sub_cancel_left]
        exact hrow
      · rw [Nat.add_assoc, Nat.add_mod_left]
        exact hend
  · rintro ⟨hlast, hafter⟩ n row hrow hend
    by_cases hn : n < limit
    · have hsame : n = before.length := by
        have hsum : n + 1 = limit := by
          rcases Nat.lt_or_ge (n + 1) limit with hless | hge
          · rw [Nat.mod_eq_of_lt hless] at hend
            omega
          · omega
        rw [length_append, length_singleton] at hlength
        omega
      subst hsame
      rw [append_assoc, getElem?_append_right (Nat.le_refl _), Nat.sub_self] at hrow
      cases hrow
      exact hlast
    · rw [getElem?_append_right (by omega), hlength] at hrow
      refine hafter (n - limit) row hrow ?_
      rw [← hend]
      have hsplit : n + 1 = limit + (n - limit + 1) := by omega
      rw [hsplit, Nat.add_mod_left]

end

variable {Row Key : Type*} [LinearOrder Key] (key : Row -> Key) (markOf : Row -> Option Key)
  (limit : Nat)

def behind (mark : Option Key) (row : Row) : Bool :=
  match mark with
  | none => true
  | some mark => decide (mark < key row)

def page (sorted : List Row) (mark : Option Key) : List Row :=
  (sorted.filter (behind key mark)).take limit

def pageEnd (rows : List Row) : Option Row :=
  if rows.length = limit then rows.getLast? else none

def follow (sorted : List Row) : Nat -> Option Key -> Option (List Row)
  | 0, _ => none
  | fuel + 1, mark =>
    let rows := page key limit sorted mark
    match pageEnd limit rows with
    | none => some rows
    | some last =>
      match markOf last with
      | none => none
      | some next => (follow sorted fuel (some next)).map (rows ++ ·)

variable {key markOf limit} {sorted : List Row} {mark : Option Key}

theorem pageEnd_append (before : List Row) (last : Row)
    (hlength : (before ++ [last]).length = limit) :
    pageEnd limit (before ++ [last]) = some last := by
  rw [pageEnd, if_pos hlength, getLast?_concat]

variable {before after : List Row} {last : Row}

theorem filter_behind (hsorted : (before ++ [last] ++ after).Pairwise fun a b => key a < key b) :
    (before ++ [last] ++ after).filter (behind key (some (key last))) = after := by
  rw [pairwise_append] at hsorted
  obtain ⟨hbefore, -, hafter⟩ := hsorted
  rw [filter_append]
  have hnone : (before ++ [last]).filter (behind key (some (key last))) = [] := by
    refine filter_eq_nil_iff.mpr fun row hrow => ?_
    rw [behind, decide_eq_true_iff, not_lt]
    rcases mem_append.mp hrow with hrow | hrow
    · exact le_of_lt ((pairwise_append.mp hbefore).2.2 row hrow last mem_cons_self)
    · rw [mem_singleton.mp hrow]
  have hall : after.filter (behind key (some (key last))) = after := by
    refine filter_eq_self.mpr fun row hrow => ?_
    exact decide_eq_true (hafter last (mem_append_right _ mem_cons_self) row hrow)
  rw [hnone, hall, nil_append]

theorem filter_behind_last (hsorted : sorted.Pairwise fun a b => key a < key b)
    (hrest : sorted.filter (behind key mark) = before ++ [last] ++ after) :
    sorted.filter (behind key (some (key last))) = after := by
  have hlast : behind key mark last = true := by
    have hmem : last ∈ sorted.filter (behind key mark) := by
      rw [hrest]
      exact mem_append_left _ (mem_append_right _ mem_cons_self)
    exact (mem_filter.mp hmem).2
  have hboth : ∀ row, (behind key (some (key last)) row && behind key mark row) =
      behind key (some (key last)) row := by
    intro row
    cases mark with
    | none => exact Bool.and_true _
    | some mark =>
      by_cases hrow : key last < key row
      · have hmark : mark < key row := lt_trans (of_decide_eq_true hlast) hrow
        rw [behind, behind, decide_eq_true hrow, decide_eq_true hmark, Bool.and_true]
      · rw [behind, decide_eq_false hrow, Bool.false_and]
  have hpart : (before ++ [last] ++ after).Pairwise fun a b => key a < key b := by
    rw [← hrest]
    exact hsorted.sublist filter_sublist
  calc sorted.filter (behind key (some (key last)))
      = (sorted.filter (behind key mark)).filter (behind key (some (key last))) := by
        rw [filter_filter]
        exact filter_congr fun row _ => (hboth row).symm
    _ = after := by rw [hrest, filter_behind hpart]

theorem page_prefix {rows : List Row} {fuel : Nat}
    (hfollow : follow key markOf limit sorted fuel mark = some rows) :
    page key limit sorted mark <+: rows := by
  cases fuel with
  | zero => cases hfollow
  | succ fuel =>
    rw [follow] at hfollow
    split at hfollow
    · cases hfollow
      exact prefix_rfl
    · split at hfollow
      · cases hfollow
      · obtain ⟨later, -, rfl⟩ := Option.map_eq_some_iff.mp hfollow
        exact prefix_append _ _

theorem follow_ne_of_low {low : Key} {fuel : Nat} (hlimit : 1 ≤ limit)
    (hsorted : sorted.Pairwise fun a b => key a < key b)
    (hrest : sorted.filter (behind key mark) = before ++ [last] ++ after) (hlow : low < key last) :
    follow key markOf limit sorted fuel (some low) ≠ some after := by
  intro hfollow
  have hlater : ∀ row ∈ after, key last < key row := by
    intro row hrow
    rw [← filter_behind_last hsorted hrest] at hrow
    exact of_decide_eq_true (mem_filter.mp hrow).2
  have hlast : last ∈ sorted.filter (behind key (some low)) := by
    refine mem_filter.mpr ⟨?_, decide_eq_true hlow⟩
    have hmem : last ∈ sorted.filter (behind key mark) := by
      rw [hrest]
      exact mem_append_left _ (mem_append_right _ mem_cons_self)
    exact (mem_filter.mp hmem).1
  have hpart : (sorted.filter (behind key (some low))).Pairwise fun a b => key a < key b :=
    hsorted.sublist filter_sublist
  have hprefix := page_prefix hfollow
  rw [page] at hprefix
  cases hrows : sorted.filter (behind key (some low)) with
  | nil =>
    rw [hrows] at hlast
    exact not_mem_nil hlast
  | cons head tail =>
    rw [hrows] at hprefix hlast hpart
    have hhead : head ∈ after := by
      refine hprefix.subset ?_
      obtain ⟨n, rfl⟩ : ∃ n, limit = n + 1 := ⟨limit - 1, by omega⟩
      exact mem_cons_self
    rcases mem_cons.mp hlast with rfl | hlast
    · exact lt_irrefl _ (hlater last hhead)
    · exact lt_asymm (hlater head hhead) (rel_of_pairwise_cons hpart hlast)

theorem follow_behind_iff (hlimit : 1 ≤ limit) (hsorted : sorted.Pairwise fun a b => key a < key b)
    (hmark : ∀ row next, markOf row = some next -> next ≤ key row) {rest : List Row}
    (hrest : sorted.filter (behind key mark) = rest) :
    (∃ fuel, follow key markOf limit sorted fuel mark = some rest) <->
      Exact key markOf limit rest := by
  induction hlength : rest.length using Nat.strongRecOn generalizing rest mark with
  | _ length ih =>
    rcases Nat.lt_or_ge rest.length limit with hshort | hfull
    · refine ⟨fun _ => exact_of_short hshort, fun _ => ⟨1, ?_⟩⟩
      have hpage : page key limit sorted mark = rest := by
        rw [page, hrest, take_of_length_le (Nat.le_of_lt hshort)]
      have hend : pageEnd limit rest = none := if_neg (Nat.ne_of_lt hshort)
      simp only [follow, hpage, hend]
    · obtain ⟨before, last, htake⟩ : ∃ before last, rest.take limit = before ++ [last] := by
        refine ⟨_, _, (dropLast_append_getLast (l := rest.take limit) ?_).symm⟩
        rw [← length_pos_iff, length_take]
        omega
      have hfullPage : (before ++ [last]).length = limit := by
        rw [← htake, length_take]
        omega
      have hsplit : rest = before ++ [last] ++ rest.drop limit := by
        rw [← htake, take_append_drop]
      have hpage : page key limit sorted mark = before ++ [last] := by rw [page, hrest, htake]
      generalize rest.drop limit = after at hsplit
      subst hsplit
      have hafter := filter_behind_last hsorted hrest
      have hless : after.length < length := by
        rw [← hlength, length_append, hfullPage]
        omega
      rw [exact_iff_of_full hfullPage, ← ih after.length hless hafter rfl]
      constructor
      · rintro ⟨fuel, hfollow⟩
        cases fuel with
        | zero => cases hfollow
        | succ fuel =>
          simp only [follow, hpage, pageEnd_append before last hfullPage] at hfollow
          cases hnext : markOf last with
          | none => simp [hnext] at hfollow
          | some next =>
            rw [hnext] at hfollow
            obtain ⟨later, hlater, heq⟩ := Option.map_eq_some_iff.mp hfollow
            obtain rfl := append_cancel_left heq
            rcases lt_or_eq_of_le (hmark last next hnext) with hlow | rfl
            · exact absurd hlater (follow_ne_of_low hlimit hsorted hrest hlow)
            · exact ⟨rfl, fuel, hlater⟩
      · rintro ⟨hnext, fuel, hlater⟩
        refine ⟨fuel + 1, ?_⟩
        simp only [follow, hpage, pageEnd_append before last hfullPage, hnext, hlater,
          Option.map_some]

theorem follow_iff (hlimit : 1 ≤ limit) (hsorted : sorted.Pairwise fun a b => key a < key b)
    (hmark : ∀ row next, markOf row = some next -> next ≤ key row) :
    (∃ fuel, follow key markOf limit sorted fuel none = some sorted) <->
      Exact key markOf limit sorted :=
  follow_behind_iff hlimit hsorted hmark (filter_eq_self.mpr fun _ _ => rfl)

end AnchorMind.Kernel.KeysetPaging

/-!
# Draining a pool page by page

A pool of items with distinct keys is handed out in pages.  Every page is a part
of what the earlier pages left, and the last one takes the rest.  Whatever each
page chooses, together they hand out every item once.
-/

namespace AnchorMind.Kernel.Draining

open List

variable {Item Key : Type*} [DecidableEq Key] (key : Item -> Key)

def remaining (pool returned : List Item) : List Item :=
  pool.filter fun item => key item ∉ returned.map key

@[simp] theorem remaining_nil (pool : List Item) : remaining key pool [] = pool := by
  simp [remaining]

theorem remaining_append (pool returned page : List Item) :
    remaining key pool (returned ++ page) = remaining key (remaining key pool returned) page := by
  simp only [remaining, filter_filter, map_append, mem_append, not_or]
  apply filter_congr
  simp [Bool.and_comm]

theorem remaining_sublist (pool returned : List Item) :
    (remaining key pool returned).Sublist pool :=
  filter_sublist

variable {key} {pool page : List Item}

theorem append_remaining_perm (hkeys : (pool.map key).Nodup) (hpage : page.Subperm pool) :
    (page ++ remaining key pool page).Perm pool := by
  obtain ⟨middle, hmiddle, hsub⟩ := hpage
  obtain ⟨rest, hrest⟩ := hsub.exists_perm_append
  have hperm : pool.Perm (page ++ rest) := hrest.trans (hmiddle.append_right rest)
  have hsplit : ((page ++ rest).map key).Nodup := (hperm.map key).nodup_iff.mp hkeys
  have hdisjoint : ∀ item ∈ rest, key item ∉ page.map key := by
    intro item hitem hin
    rw [map_append] at hsplit
    exact (nodup_append'.mp hsplit).2.2 hin (mem_map_of_mem hitem)
  have hrest : (remaining key pool page).Perm rest := by
    refine (hperm.filter _).trans ?_
    rw [filter_append, filter_eq_nil_iff.mpr, filter_eq_self.mpr]
    · exact Perm.refl _
    · simpa using hdisjoint
    · intro item hitem
      simpa using ⟨item, hitem, rfl⟩
  exact (hrest.append_left page).trans hperm.symm

theorem length_add_remaining (hkeys : (pool.map key).Nodup) (hpage : page.Subperm pool) :
    page.length + (remaining key pool page).length = pool.length := by
  rw [← length_append]
  exact (append_remaining_perm hkeys hpage).length_eq

theorem append_subperm {pool returned page : List Item} (hkeys : (pool.map key).Nodup)
    (hreturned : returned.Subperm pool) (hpage : page.Subperm (remaining key pool returned)) :
    (returned ++ page).Subperm pool :=
  ((subperm_append_left returned).mpr hpage).trans
    (append_remaining_perm hkeys hreturned).subperm

inductive Drains (key : Item -> Key) (pool : List Item) : List Item -> List (List Item) -> Prop
  | last {returned page : List Item} (hpage : page.Perm (remaining key pool returned)) :
      Drains key pool returned [page]
  | next {returned page : List Item} {rest : List (List Item)}
      (hpage : page.Subperm (remaining key pool returned)) (hnonempty : page ≠ [])
      (hrest : Drains key pool (returned ++ page) rest) :
      Drains key pool returned (page :: rest)

variable {pool returned : List Item} {pages : List (List Item)}

theorem Drains.perm (hkeys : (pool.map key).Nodup) (hdrains : Drains key pool returned pages)
    (hreturned : returned.Subperm pool) : (returned ++ pages.flatten).Perm pool := by
  induction hdrains with
  | @last returned page hpage =>
    rw [flatten_cons, flatten_nil, append_nil]
    exact (hpage.append_left returned).trans (append_remaining_perm hkeys hreturned)
  | @next returned page rest hpage _ _ ih =>
    rw [flatten_cons, ← append_assoc]
    exact ih (append_subperm hkeys hreturned hpage)

theorem Drains.length_le (hkeys : (pool.map key).Nodup) (hdrains : Drains key pool returned pages)
    (hreturned : returned.Subperm pool) :
    pages.length ≤ (remaining key pool returned).length + 1 := by
  induction hdrains with
  | last _ => exact Nat.succ_le_succ (Nat.zero_le _)
  | @next returned page rest hpage hnonempty _ ih =>
    have hleft := ih (append_subperm hkeys hreturned hpage)
    have hsplit := length_add_remaining
      ((remaining_sublist key pool returned).map key |>.nodup hkeys) hpage
    have hpos := length_pos_iff.mpr hnonempty
    rw [remaining_append] at hleft
    rw [length_cons]
    omega

end AnchorMind.Kernel.Draining
