import Mathlib.Data.List.MinMax
import Mathlib.Data.List.Sort

/-!
# Comparison functions

A comparison function is a total preorder when it turns around under exchange of its
arguments and is transitive (`Std.TransCmp`).  Such functions are put together from a
comparison of keys, a place for missing keys, and a second comparison for ties; a list
sorts to one result once ties stand only between equal items.
-/

namespace AnchorMind.Kernel.Comparators

open Std List

section

variable {Value Item : Type*} {compareBy : Value -> Value -> Ordering}

def byKey (key : Item -> Value) (compareBy : Value -> Value -> Ordering) (a b : Item) : Ordering :=
  compareBy (key a) (key b)

instance byKey_transCmp [TransCmp compareBy] (key : Item -> Value) :
    TransCmp (byKey key compareBy) where
  eq_swap {a b} := @OrientedCmp.eq_swap _ compareBy _ (key a) (key b)
  isLE_trans {a b c} := @TransCmp.isLE_trans _ compareBy _ (key a) (key b) (key c)

/-- Where missing values stand. -/
inductive Nulls where
  | first
  | last
  deriving DecidableEq

/-- What a missing value is to a present one. -/
def Nulls.side : Nulls -> Ordering
  | .first => .lt
  | .last => .gt

def withNulls (nulls : Nulls) (compareBy : Value -> Value -> Ordering) :
    Option Value -> Option Value -> Ordering
  | some a, some b => compareBy a b
  | none, some _ => nulls.side
  | some _, none => nulls.side.swap
  | none, none => .eq

theorem withNulls_swap [OrientedCmp compareBy] (nulls : Nulls) (a b : Option Value) :
    withNulls nulls compareBy a b = (withNulls nulls compareBy b a).swap := by
  cases a with
  | none => cases b with
    | none => rfl
    | some b => exact (Ordering.swap_swap).symm
  | some a => cases b with
    | none => rfl
    | some b => exact @OrientedCmp.eq_swap _ compareBy _ a b

theorem withNulls_trans [TransCmp compareBy] (nulls : Nulls) {a b c : Option Value}
    (hab : (withNulls nulls compareBy a b).isLE) (hbc : (withNulls nulls compareBy b c).isLE) :
    (withNulls nulls compareBy a c).isLE := by
  cases a with
  | none => cases b with
    | none => exact hbc
    | some b => cases c with
      | none => rfl
      | some c => exact hab
  | some a => cases b with
    | none => cases c with
      | none => exact hab
      | some c =>
        -- A missing value stands on one side only.
        cases nulls with
        | first => cases hab
        | last => cases hbc
    | some b => cases c with
      | none => exact hbc
      | some c => exact @TransCmp.isLE_trans _ compareBy _ _ _ _ hab hbc

instance withNulls_transCmp [TransCmp compareBy] (nulls : Nulls) :
    TransCmp (withNulls nulls compareBy) where
  eq_swap := withNulls_swap nulls _ _
  isLE_trans := withNulls_trans nulls

theorem eq_of_withNulls [LawfulEqCmp compareBy] {nulls : Nulls} {a b : Option Value}
    (htie : withNulls nulls compareBy a b = .eq) : a = b := by
  cases a with
  | none => cases b with
    | none => rfl
    | some b => cases nulls <;> cases htie
  | some a => cases b with
    | none => cases nulls <;> cases htie
    | some b => exact congrArg some (@LawfulEqCmp.eq_of_compare _ compareBy _ _ _ htie)

end

section

variable {Item Key : Type*} {compareBy : Item -> Item -> Ordering}

def sortBy (compareBy : Item -> Item -> Ordering) (items : List Item) : List Item :=
  items.insertionSort fun a b => (compareBy a b).isLE = true

theorem sortBy_perm (compareBy : Item -> Item -> Ordering) (items : List Item) :
    (sortBy compareBy items).Perm items :=
  perm_insertionSort _ items

theorem isLE_total [OrientedCmp compareBy] (a b : Item) :
    (compareBy a b).isLE = true \/ (compareBy b a).isLE = true := by
  rw [@OrientedCmp.eq_swap _ compareBy _ b a]
  cases compareBy a b with
  | lt => exact .inl rfl
  | eq => exact .inl rfl
  | gt => exact .inr rfl

theorem sortBy_pairwise [TransCmp compareBy] (items : List Item) :
    (sortBy compareBy items).Pairwise fun a b => (compareBy a b).isLE = true := by
  have : Std.Total fun a b : Item => (compareBy a b).isLE = true := ⟨isLE_total⟩
  have : IsTrans Item fun a b => (compareBy a b).isLE = true :=
    ⟨fun _ _ _ => TransCmp.isLE_trans⟩
  exact pairwise_insertionSort _ items

theorem sortBy_eq_of_perm [TransCmp compareBy] {left right : List Item} (hperm : left.Perm right)
    (hties : ∀ a ∈ left, ∀ b ∈ left, compareBy a b = .eq -> a = b) :
    sortBy compareBy left = sortBy compareBy right := by
  have hsorted : (sortBy compareBy left).Perm (sortBy compareBy right) :=
    ((sortBy_perm compareBy left).trans hperm).trans (sortBy_perm compareBy right).symm
  refine hsorted.eq_of_pairwise ?_ (sortBy_pairwise left) (sortBy_pairwise right)
  intro a b ha hb hle hge
  have hleft := (sortBy_perm compareBy left).subset ha
  have hright := hperm.symm.subset ((sortBy_perm compareBy right).subset hb)
  exact hties a hleft b hright (OrientedCmp.isLE_antisymm hle hge)

theorem map_sortBy (key : Item -> Key) (compareKeys : Key -> Key -> Ordering) (items : List Item) :
    (sortBy (byKey key compareKeys) items).map key = sortBy compareKeys (items.map key) := by
  refine map_insertionSort _ _ _ _ ?_
  intro a _ b _
  rfl

end

end AnchorMind.Kernel.Comparators

/-!
# The first items of a sort, kept in a bounded buffer

A buffer of the first items under a comparison takes one item after another, each put in
from the end, and gives up its last item when it has grown too long.  It ends with the first
items of the sorted list.
-/

namespace AnchorMind.Kernel.BoundedTop

open Std Comparators List

variable {Item : Type*} {compareBy : Item -> Item -> Ordering} {limit : Nat}
  {before : Item -> Item -> Bool} {item : Item} {items : List Item}

def position (before : Item -> Item -> Bool) (item : Item) (items : List Item) : Nat -> Nat
  | 0 => 0
  | place + 1 =>
    match items[place]? with
    | some other => if before item other then position before item items place else place + 1
    | none => place + 1

def insertSorted (compareBy : Item -> Item -> Ordering) (item : Item) (items : List Item) :
    List Item :=
  items.orderedInsert (fun a b => compareBy a b = .lt) item

variable {front back : List Item}

theorem position_append (hfront : ∀ other ∈ front, before item other = false)
    (hback : ∀ other ∈ back, before item other = true) :
    position before item (front ++ back) (front ++ back).length = front.length := by
  have hstart : ∀ tail, position before item (front ++ tail) front.length =
      front.length := by
    intro tail
    cases hlength : front.length with
    | zero => rfl
    | succ place =>
      have hlt : place < front.length := by omega
      have hget : (front ++ tail)[place]? = some front[place] := by
        rw [getElem?_append_left hlt, getElem?_eq_getElem hlt]
      simp [position, hget, hfront _ (getElem_mem hlt)]
  suffices hmoved : ∀ count, count ≤ back.length ->
      position before item (front ++ back) (front.length + count) = front.length by
    rw [length_append]
    exact hmoved back.length le_rfl
  intro count
  induction count with
  | zero => exact fun _ => hstart back
  | succ count ih =>
    intro hcount
    have hlt : count < back.length := hcount
    have hget : (front ++ back)[front.length + count]? = some back[count] := by
      rw [getElem?_append_right (Nat.le_add_right _ _), Nat.add_sub_cancel_left,
        getElem?_eq_getElem hlt]
    rw [← Nat.add_assoc, position, hget]
    simp only [hback _ (getElem_mem hlt), if_true]
    exact ih (Nat.le_of_succ_le hcount)

theorem insertIdx_length_append :
    (front ++ back).insertIdx front.length item = front ++ item :: back := by
  induction front with
  | nil => rfl
  | cons first rest ih => exact congrArg (first :: ·) ih

theorem lt_of_mem_dropWhile [TransCmp compareBy]
    (hsorted : items.Pairwise fun a b => (compareBy a b).isLE = true) {other : Item}
    (hother : other ∈ items.dropWhile fun other => decide (¬ compareBy item other = .lt)) :
    compareBy item other = .lt := by
  induction items with
  | nil => cases hother
  | cons first rest ih =>
    obtain ⟨hfirst, hrest⟩ := pairwise_cons.mp hsorted
    by_cases hbefore : compareBy item first = .lt
    · rw [dropWhile_cons_of_neg (by simp [hbefore])] at hother
      rcases mem_cons.mp hother with rfl | hother
      · exact hbefore
      · exact TransCmp.lt_of_lt_of_isLE hbefore (hfirst other hother)
    · rw [dropWhile_cons_of_pos (by simp [hbefore])] at hother
      exact ih hrest hother

theorem insertIdx_position [TransCmp compareBy]
    (hbefore : ∀ a b, before a b = true <-> compareBy a b = .lt)
    (hsorted : items.Pairwise fun a b => (compareBy a b).isLE = true) :
    items.insertIdx (position before item items items.length) item =
      insertSorted compareBy item items := by
  have hsplit : items = (items.takeWhile fun other => decide (¬ compareBy item other = .lt)) ++
      items.dropWhile fun other => decide (¬ compareBy item other = .lt) :=
    takeWhile_append_dropWhile.symm
  have hposition : position before item items items.length =
      (items.takeWhile fun other => decide (¬ compareBy item other = .lt)).length := by
    conv_lhs => rw [hsplit]
    refine position_append (fun other hother => ?_) fun other hother =>
      (hbefore item other).mpr (lt_of_mem_dropWhile hsorted hother)
    rw [Bool.eq_false_iff, ne_eq, hbefore]
    simpa using all_eq_true.mp all_takeWhile other hother
  rw [hposition, insertSorted, orderedInsert_eq_take_drop, ← insertIdx_length_append,
    ← hsplit]

/-- What the cut leaves out does not come back. -/
theorem take_insertSorted_take :
    (insertSorted compareBy item (items.take limit)).take limit =
      (insertSorted compareBy item items).take limit := by
  induction items generalizing limit with
  | nil => rw [take_nil]
  | cons first rest ih =>
    cases limit with
    | zero => rw [take_zero, take_zero]
    | succ limit =>
      simp only [insertSorted, take_succ_cons, orderedInsert_cons] at ih ⊢
      split
      · cases limit with
        | zero => rfl
        | succ limit => simp [take_take]
      · rw [take_succ_cons, take_succ_cons, ih]

theorem take_insertSorted_of_not_lt (hlength : items.length = limit)
    (hall : ∀ other ∈ items, compareBy item other ≠ .lt) :
    (insertSorted compareBy item items).take limit = items := by
  subst hlength
  induction items with
  | nil => rfl
  | cons first rest ih =>
    have hfirst := hall first mem_cons_self
    rw [insertSorted, orderedInsert_cons, if_neg hfirst, length_cons,
      take_succ_cons]
    refine congrArg (first :: ·) (ih fun other hother => ?_)
    exact hall other (mem_cons_of_mem _ hother)

def keepFirst (compareBy : Item -> Item -> Ordering) (limit : Nat) (kept items : List Item) :
    List Item :=
  items.foldl (fun kept item => (insertSorted compareBy item kept).take limit) kept

theorem keepFirst_eq (kept : List Item) :
    keepFirst compareBy limit (kept.take limit) items =
      (items.foldl (fun kept item => insertSorted compareBy item kept) kept).take limit := by
  induction items generalizing kept with
  | nil => rfl
  | cons item rest ih =>
    rw [keepFirst, foldl_cons, take_insertSorted_take, foldl_cons]
    exact ih _

theorem insertSorted_pairwise [TransCmp compareBy]
    (hsorted : items.Pairwise fun a b => (compareBy a b).isLE = true) :
    (insertSorted compareBy item items).Pairwise fun a b => (compareBy a b).isLE = true := by
  induction items with
  | nil => exact pairwise_singleton _ item
  | cons first rest ih =>
    obtain ⟨hfirst, hrest⟩ := pairwise_cons.mp hsorted
    rw [insertSorted, orderedInsert_cons]
    split
    · rename_i hbefore
      refine pairwise_cons.mpr ⟨fun other hother => ?_, hsorted⟩
      rcases mem_cons.mp hother with rfl | hother
      · rw [hbefore]
        rfl
      · rw [TransCmp.lt_of_lt_of_isLE hbefore (hfirst other hother)]
        rfl
    · rename_i hbefore
      refine pairwise_cons.mpr ⟨fun other hother => ?_, ih hrest⟩
      rcases (mem_orderedInsert _).mp hother with rfl | hother
      · rw [@OrientedCmp.eq_swap _ compareBy _ first other]
        cases hcompare : compareBy other first with
        | lt => exact absurd hcompare hbefore
        | eq => rfl
        | gt => rfl
      · exact hfirst other hother

theorem foldl_insertSorted [TransCmp compareBy]
    (hties : ∀ a ∈ items, ∀ b ∈ items, compareBy a b = .eq -> a = b) :
    items.foldl (fun kept item => insertSorted compareBy item kept) [] =
      sortBy compareBy items := by
  have hboth : ∀ kept : List Item, kept.Pairwise (fun a b => (compareBy a b).isLE = true) ->
      (items.foldl (fun kept item => insertSorted compareBy item kept) kept).Perm (kept ++ items) /\
        (items.foldl (fun kept item => insertSorted compareBy item kept) kept).Pairwise
          fun a b => (compareBy a b).isLE = true := by
    clear hties
    induction items with
    | nil => exact fun kept hkept => ⟨by rw [append_nil]; exact .refl kept, hkept⟩
    | cons item rest ih =>
      intro kept hkept
      have hinserted : (insertSorted compareBy item kept).Pairwise
          fun a b => (compareBy a b).isLE = true := insertSorted_pairwise hkept
      obtain ⟨hperm, hsorted⟩ := ih _ hinserted
      refine ⟨hperm.trans ?_, hsorted⟩
      exact ((perm_orderedInsert _ item kept).append_right rest).trans
        perm_middle.symm
  obtain ⟨hperm, hsorted⟩ := hboth [] Pairwise.nil
  rw [nil_append] at hperm
  refine (hperm.trans (sortBy_perm compareBy items).symm).eq_of_pairwise ?_ hsorted
    (sortBy_pairwise items)
  intro a b ha hb hle hge
  exact hties a (hperm.subset ha) b ((sortBy_perm compareBy items).subset hb)
    (OrientedCmp.isLE_antisymm hle hge)

theorem keepFirst_nil [TransCmp compareBy]
    (hties : ∀ a ∈ items, ∀ b ∈ items, compareBy a b = .eq -> a = b) :
    keepFirst compareBy limit [] items = (sortBy compareBy items).take limit := by
  rw [← foldl_insertSorted hties, ← keepFirst_eq, take_nil]

end AnchorMind.Kernel.BoundedTop

/-!
# The element of least rank

A scan that keeps the least rank does not depend on the order of the list, as
long as different elements have different ranks.
-/

namespace AnchorMind.Kernel.LeastRank

open List

variable {Item Other Rank : Type*} [LinearOrder Rank] {rank : Item -> Rank}

theorem argmin_eq_some_iff {items : List Item}
    (hrank : ∀ a ∈ items, ∀ b ∈ items, rank a = rank b -> a = b) {item : Item} :
    items.argmin rank = some item <->
      item ∈ items /\ ∀ other ∈ items, rank item ≤ rank other := by
  constructor
  · intro hleast
    exact ⟨argmin_mem hleast, fun other hother => le_of_mem_argmin hother hleast⟩
  · rintro ⟨hitem, hle⟩
    cases hleast : items.argmin rank with
    | none =>
      rw [argmin_eq_none.mp hleast] at hitem
      exact nomatch hitem
    | some least =>
      have hmem := argmin_mem hleast
      have hge := le_of_mem_argmin hitem hleast
      rw [hrank least hmem item hitem (le_antisymm hge (hle least hmem))]

theorem argmin_eq_of_perm {left right : List Item} (hperm : left.Perm right)
    (hrank : ∀ a ∈ right, ∀ b ∈ right, rank a = rank b -> a = b) :
    left.argmin rank = right.argmin rank := by
  refine Option.ext fun item => ?_
  have hleft : ∀ a ∈ left, ∀ b ∈ left, rank a = rank b -> a = b :=
    fun a ha b hb => hrank a (hperm.subset ha) b (hperm.subset hb)
  rw [argmin_eq_some_iff hrank, argmin_eq_some_iff hleft]
  simp only [hperm.mem_iff]

theorem argmin_map {f : Other -> Item} {others : List Other} {rank' : Other -> Rank}
    (hrank : ∀ other ∈ others, rank' other = rank (f other)) :
    (others.map f).argmin rank = (others.argmin rank').map f := by
  induction others using reverseRecOn with
  | nil => rfl
  | append_singleton before last ih =>
    have hbefore : ∀ other ∈ before, rank' other = rank (f other) :=
      fun other hother => hrank other (mem_append_left _ hother)
    have hlast := hrank last (mem_append_right _ (mem_singleton_self last))
    rw [map_append, map_singleton, argmin_concat, argmin_concat, ih hbefore]
    cases hleast : before.argmin rank' with
    | none => rfl
    | some least =>
      have hmem := hbefore least (argmin_mem hleast)
      simp only [Option.map_some, hlast, hmem]
      split <;> rfl

end AnchorMind.Kernel.LeastRank
