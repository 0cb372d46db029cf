import Mathlib.Algebra.Order.Ring.Rat
import Mathlib.Data.List.Sort

/-!
# Sums in a rounded order

Floating-point addition is neither associative nor exact, but it is monotone,
and adding a non-negative number never decreases the result.  Sums taken in the
order of a key are compared under these two laws alone, so that the comparison
holds for exact and for rounded arithmetic.
-/

namespace AnchorMind.Kernel.RoundedSum

open List

/-- A linear order whose addition is monotone and grows by non-negative terms. -/
class RoundedOrder (Value : Type*) extends LinearOrder Value, Zero Value, Add Value where
  add_le_add : ∀ {a b c d : Value}, a ≤ b -> c ≤ d -> a + c ≤ b + d
  le_add_of_nonneg : ∀ {a b : Value}, 0 ≤ b -> a ≤ a + b

instance : RoundedOrder Rat where
  add_le_add := fun hleft hright => add_le_add hleft hright
  le_add_of_nonneg := fun hnonneg => le_add_of_nonneg_right hnonneg

variable {Value : Type*} [RoundedOrder Value]

def sumFrom (start : Value) (terms : List Value) : Value :=
  terms.foldl (fun total term => total + term) start

theorem sumFrom_le_of_sublist {small large : List Value} (hsub : small.Sublist large)
    (hnonneg : ∀ term ∈ large, 0 ≤ term) {low high : Value} (hstart : low ≤ high) :
    sumFrom low small ≤ sumFrom high large := by
  induction hsub generalizing low high with
  | slnil => exact hstart
  | cons term _ ih =>
    have hterm : 0 ≤ term := hnonneg term mem_cons_self
    exact ih (fun other hother => hnonneg other (mem_cons_of_mem _ hother))
      (hstart.trans (RoundedOrder.le_add_of_nonneg hterm))
  | cons_cons term _ ih =>
    exact ih (fun other hother => hnonneg other (mem_cons_of_mem _ hother))
      (RoundedOrder.add_le_add hstart (le_refl term))

section

variable {Item Key : Type*} [LinearOrder Key]

def sortByKey (key : Item -> Key) (items : List Item) : List Item :=
  items.insertionSort fun left right => key left ≤ key right

def sumByKey (key : Item -> Key) (value : Item -> Value) (items : List Item) : Value :=
  sumFrom 0 ((sortByKey key items).map value)

theorem sortByKey_perm (key : Item -> Key) (items : List Item) : (sortByKey key items).Perm items :=
  perm_insertionSort _ items

theorem sortByKey_pairwise (key : Item -> Key) (items : List Item) :
    (sortByKey key items).Pairwise fun left right => key left ≤ key right := by
  have : Std.Total fun left right : Item => key left ≤ key right :=
    ⟨fun left right => le_total (key left) (key right)⟩
  have : IsTrans Item fun left right => key left ≤ key right :=
    ⟨fun _ _ _ hfirst hsecond => hfirst.trans hsecond⟩
  exact pairwise_insertionSort _ items

variable {key : Item -> Key} {left right : List Item}

theorem sortByKey_eq_of_perm (hperm : left.Perm right) (hkeys : (right.map key).Nodup) :
    sortByKey key left = sortByKey key right := by
  have hsorted : (sortByKey key left).Perm (sortByKey key right) :=
    ((sortByKey_perm key left).trans hperm).trans (sortByKey_perm key right).symm
  refine hsorted.eq_of_pairwise ?_ (sortByKey_pairwise key left) (sortByKey_pairwise key right)
  intro a b ha hb hle hge
  refine inj_on_of_nodup_map hkeys ?_ ?_ (le_antisymm hle hge)
  · exact hperm.subset ((sortByKey_perm key left).subset ha)
  · exact (sortByKey_perm key right).subset hb

theorem filter_sortByKey {items : List Item} (p : Item -> Bool) (hkeys : (items.map key).Nodup) :
    (sortByKey key items).filter p = sortByKey key (items.filter p) := by
  have hperm : ((sortByKey key items).filter p).Perm (sortByKey key (items.filter p)) :=
    ((sortByKey_perm key items).filter p).trans (sortByKey_perm key _).symm
  refine hperm.eq_of_pairwise ?_ ((sortByKey_pairwise key items).sublist filter_sublist)
    (sortByKey_pairwise key _)
  intro a b ha hb hle hge
  refine inj_on_of_nodup_map hkeys ?_ ?_ (le_antisymm hle hge)
  · exact (sortByKey_perm key items).subset (mem_filter.mp ha).1
  · exact (mem_filter.mp ((sortByKey_perm key _).subset hb)).1

theorem sortByKey_map {f : Item -> Item} (hkey : ∀ item, key (f item) = key item)
    (items : List Item) : sortByKey key (items.map f) = (sortByKey key items).map f := by
  refine (map_insertionSort _ _ f items fun a _ b _ => ?_).symm
  rw [hkey, hkey]

variable {value : Item -> Value}

theorem sumByKey_eq_of_perm (hperm : left.Perm right) (hkeys : (right.map key).Nodup) :
    sumByKey key value left = sumByKey key value right := by
  rw [sumByKey, sumByKey, sortByKey_eq_of_perm hperm hkeys]

theorem sumByKey_congr {value other : Item -> Value} {items : List Item}
    (hsame : ∀ item ∈ items, value item = other item) :
    sumByKey key value items = sumByKey key other items := by
  rw [sumByKey, sumByKey, map_congr_left]
  exact fun item hitem => hsame item ((sortByKey_perm key items).subset hitem)

theorem sumByKey_map {Other : Type*} (key : Item -> Key) (value : Item -> Value) (f : Other -> Item)
    (others : List Other) :
    sumByKey key value (others.map f) =
      sumByKey (fun other => key (f other)) (fun other => value (f other)) others := by
  have hsort : sortByKey key (others.map f) =
      (sortByKey (fun other => key (f other)) others).map f :=
    (map_insertionSort _ _ f others fun _ _ _ _ => Iff.rfl).symm
  rw [sumByKey, sumByKey, hsort, map_map]
  rfl

variable {small large : List Item}

theorem sortByKey_sublist (hsub : small.Sublist large) (hkeys : (large.map key).Nodup) :
    (sortByKey key small).Sublist (sortByKey key large) := by
  have hsubperm : (sortByKey key small).Subperm (sortByKey key large) :=
    ((sortByKey_perm key small).subperm.trans hsub.subperm).trans
      (sortByKey_perm key large).symm.subperm
  obtain ⟨middle, hperm, hmiddle⟩ := hsubperm
  have hsame : middle = sortByKey key small := by
    refine hperm.eq_of_pairwise ?_ ((sortByKey_pairwise key large).sublist hmiddle)
      (sortByKey_pairwise key small)
    intro left right hleft hright hle hge
    refine inj_on_of_nodup_map hkeys ?_ ?_ (le_antisymm hle hge)
    · exact (sortByKey_perm key large).subset (hmiddle.subset hleft)
    · exact hsub.subset ((sortByKey_perm key small).subset hright)
  rw [← hsame]
  exact hmiddle

theorem sumByKey_le_of_sublist (hsub : small.Sublist large) (hkeys : (large.map key).Nodup)
    (hnonneg : ∀ item ∈ large, 0 ≤ value item) :
    sumByKey key value small ≤ sumByKey key value large := by
  refine sumFrom_le_of_sublist ((sortByKey_sublist hsub hkeys).map value) ?_ (le_refl 0)
  intro term hterm
  obtain ⟨item, hitem, rfl⟩ := mem_map.mp hterm
  exact hnonneg item ((sortByKey_perm key large).subset hitem)

theorem sumByKey_le_of_subperm (hsub : small.Subperm large) (hkeys : (large.map key).Nodup)
    (hnonneg : ∀ item ∈ large, 0 ≤ value item) :
    sumByKey key value small ≤ sumByKey key value large := by
  obtain ⟨middle, hperm, hmiddle⟩ := hsub
  rw [sumByKey_eq_of_perm hperm.symm ((hmiddle.map key).nodup hkeys)]
  exact sumByKey_le_of_sublist hmiddle hkeys hnonneg

end

end AnchorMind.Kernel.RoundedSum

/-!
# The first rows in an order with ties

A query that orders its rows by a key and cuts them leaves open which of the rows
with equal keys come first.  Its answers are the first rows of any arrangement
that is sorted by the key.  Two answers differ only among the rows at the cut,
and a threshold on the key may be applied before the cut or behind a wider one.
-/

namespace AnchorMind.Kernel.TopRows

open List

open RoundedSum (sortByKey sortByKey_perm sortByKey_pairwise sortByKey_eq_of_perm filter_sortByKey)

variable {Row Key : Type*} [LinearOrder Key]

def Top (key : Row -> Key) (limit : Nat) (rows chosen : List Row) : Prop :=
  ∃ ordered : List Row, ordered.Perm rows /\
    (ordered.Pairwise fun a b => key a ≤ key b) /\ chosen = ordered.take limit

variable {key : Row -> Key} {limit window : Nat} {rows chosen first second : List Row}

theorem top_sortByKey (key : Row -> Key) (limit : Nat) (rows : List Row) :
    Top key limit rows ((sortByKey key rows).take limit) :=
  ⟨_, sortByKey_perm key rows, sortByKey_pairwise key rows, rfl⟩

section

variable (htop : Top key limit rows chosen)
include htop

theorem Top.sorted : chosen.Pairwise fun a b => key a ≤ key b := by
  obtain ⟨ordered, -, hordered, rfl⟩ := htop
  exact hordered.sublist (take_sublist limit ordered)

theorem Top.subset : chosen ⊆ rows := by
  obtain ⟨ordered, hperm, -, rfl⟩ := htop
  exact fun row hrow => hperm.subset (mem_of_mem_take hrow)

theorem Top.nodup {Order : Type*} {order : Row -> Order} (hdistinct : (rows.map order).Nodup) :
    (chosen.map order).Nodup := by
  obtain ⟨ordered, hperm, -, rfl⟩ := htop
  exact ((hperm.map order).nodup_iff.mpr hdistinct).sublist
    ((take_sublist limit ordered).map order)

end

theorem top_iff_of_le_iff {Other : Type*} [LinearOrder Other] {other : Row -> Other}
    (hsame : ∀ a b, key a ≤ key b <-> other a ≤ other b) :
    Top key limit rows chosen <-> Top other limit rows chosen := by
  have hkeys : (fun a b => key a ≤ key b) = fun a b => other a ≤ other b :=
    funext fun a => funext fun b => propext (hsame a b)
  rw [Top, Top, hkeys]

variable {ordered : List Row} {p : Row -> Bool}

/-- In a sorted list a lower part comes first. -/
theorem filter_take (hordered : ordered.Pairwise fun a b => key a ≤ key b)
    (hlower : ∀ a b, key a ≤ key b -> p b = true -> p a = true) (count : Nat) :
    (ordered.take count).filter p = (ordered.filter p).take count := by
  induction ordered generalizing count with
  | nil => simp
  | cons row rest ih =>
    cases count with
    | zero => rfl
    | succ count =>
      obtain ⟨hhead, hrest⟩ := pairwise_cons.mp hordered
      cases hrow : p row with
      | true =>
        rw [take_succ_cons, filter_cons_of_pos hrow,
          filter_cons_of_pos hrow, take_succ_cons, ih hrest]
      | false =>
        have hnone : rest.filter p = [] := by
          refine filter_eq_nil_iff.mpr fun other hother hp => ?_
          rw [hlower row other (hhead other hother) hp] at hrow
          cases hrow
        have hnot : ¬ p row = true := by
          rw [hrow]
          exact Bool.false_ne_true
        rw [take_succ_cons, filter_cons_of_neg hnot,
          filter_cons_of_neg hnot, ih hrest, hnone, take_nil, take_nil]

/-- The threshold may be applied behind a wider cut. -/
theorem top_filter_iff (hlimit : limit ≤ window)
    (hlower : ∀ a b, key a ≤ key b -> p b = true -> p a = true) :
    (∃ near, Top key window rows near /\ Top key limit (near.filter p) chosen) <->
      Top key limit (rows.filter p) chosen := by
  constructor
  · rintro ⟨_, ⟨ordered, hperm, hordered, rfl⟩, again, hagain, hsorted, rfl⟩
    rw [filter_take hordered hlower] at hagain
    -- What the wider cut leaves out goes behind, where it is not chosen.
    refine ⟨again ++ (ordered.filter p).drop window, ?_, ?_, ?_⟩
    · refine (hagain.append_right _).trans ?_
      rw [take_append_drop]
      exact hperm.filter p
    · have hfiltered := hordered.sublist (filter_sublist (p := p))
      refine pairwise_append.mpr ⟨hsorted, hfiltered.sublist (drop_sublist _ _), ?_⟩
      intro a ha b hb
      rw [← take_append_drop window (ordered.filter p)] at hfiltered
      exact (pairwise_append.mp hfiltered).2.2 a (hagain.subset ha) b hb
    · rcases Nat.lt_or_ge again.length limit with hshort | hlong
      · have hlength := hagain.length_eq
        rw [length_take] at hlength
        rw [drop_eq_nil_of_le (by omega), append_nil]
      · rw [take_append_of_le_length hlong]
  · rintro ⟨ordered, hperm, hordered, rfl⟩
    have hall : ∀ row ∈ ordered, p row = true := fun row hrow =>
      (mem_filter.mp (hperm.subset hrow)).2
    have hothers : ∀ row ∈ sortByKey key (rows.filter fun row => !p row),
        ¬ p row = true := fun row hrow => by
      have hout := (mem_filter.mp ((sortByKey_perm key _).subset hrow)).2
      rw [Bool.not_eq_true'] at hout
      rw [hout]
      exact Bool.false_ne_true
    have hfull : (ordered ++ sortByKey key (rows.filter fun row => !p row)).Pairwise
        fun a b => key a ≤ key b := by
      refine pairwise_append.mpr ⟨hordered, sortByKey_pairwise key _, fun a ha b hb => ?_⟩
      refine le_of_not_ge fun hle => hothers b hb (hlower b a hle (hall a ha))
    refine ⟨_, ⟨_, ?_, hfull, rfl⟩, ordered.take window, ?_,
      hordered.sublist (take_sublist _ _), ?_⟩
    · exact (hperm.append (sortByKey_perm key _)).trans (filter_append_perm p rows)
    · rw [filter_take hfull hlower, filter_append, filter_eq_self.mpr hall,
        filter_eq_nil_iff.mpr hothers, append_nil]
    · rw [take_take, Nat.min_eq_left hlimit]

theorem take_filter_take (hone : ordered.countP (fun row => !p row) ≤ 1) (count : Nat) :
    ((ordered.take (count + 1)).filter p).take count = (ordered.filter p).take count := by
  induction ordered generalizing count with
  | nil => rfl
  | cons row rest ih =>
    cases hrow : p row with
    | true =>
      rw [countP_cons_of_neg (by simp [hrow])] at hone
      rw [take_succ_cons, filter_cons_of_pos hrow, filter_cons_of_pos hrow]
      cases count with
      | zero => rfl
      | succ count => rw [take_succ_cons, take_succ_cons, ih hone]
    | false =>
      have hnot : ¬ p row = true := by
        rw [hrow]
        exact Bool.false_ne_true
      rw [countP_cons_of_pos (by simp [hrow])] at hone
      have hall : ∀ other ∈ rest, p other = true := by
        intro other hother
        have hzero := countP_eq_zero.mp (Nat.le_zero.mp (Nat.le_of_succ_le_succ hone))
        simpa using hzero other hother
      rw [take_succ_cons, filter_cons_of_neg hnot, filter_cons_of_neg hnot,
        filter_eq_self.mpr hall,
        filter_eq_self.mpr fun other hother => hall other (mem_of_mem_take hother),
        take_take, Nat.min_self]

def SameButCut (key : Row -> Key) (first second : List Row) : Prop :=
  ∃ front left right, first = front ++ left /\ second = front ++ right /\
    left.length = right.length /\
    ∀ a b, a ∈ left ++ right -> b ∈ left ++ right -> key a = key b

theorem map_key_eq (hfirst : Top key limit rows first) (hsecond : Top key limit rows second) :
    first.map key = second.map key := by
  obtain ⟨left, hleft, hleftSorted, rfl⟩ := hfirst
  obtain ⟨right, hright, hrightSorted, rfl⟩ := hsecond
  have hkeys : left.map key = right.map key :=
    ((hleft.trans hright.symm).map key).eq_of_pairwise (fun _ _ _ _ => le_antisymm)
      (pairwise_map.mpr hleftSorted) (pairwise_map.mpr hrightSorted)
  rw [map_take, map_take, hkeys]

theorem filter_below (htop : Top key limit rows chosen) {row : Row} (hrow : row ∈ chosen) :
    (chosen.filter fun other => key other < key row).Perm
      (rows.filter fun other => key other < key row) := by
  obtain ⟨ordered, hperm, hordered, rfl⟩ := htop
  have hrest : (ordered.drop limit).filter (fun other => key other < key row) = [] := by
    refine filter_eq_nil_iff.mpr fun other hother hless => ?_
    rw [← take_append_drop limit ordered] at hordered
    have hle := (pairwise_append.mp hordered).2.2 row hrow other hother
    exact not_lt_of_ge hle (of_decide_eq_true hless)
  have hwhole : ordered.filter (fun other => key other < key row) =
      (ordered.take limit).filter fun other => key other < key row := by
    rw [← append_nil ((ordered.take limit).filter _), ← hrest, ← filter_append,
      take_append_drop]
  rw [← hwhole]
  exact hperm.filter _

theorem eq_below_append (hordered : ordered.Pairwise fun a b => key a ≤ key b) (bound : Key) :
    ordered = ordered.filter (fun row => key row < bound) ++
      ordered.filter fun row => !decide (key row < bound) := by
  induction ordered with
  | nil => rfl
  | cons row rest ih =>
    obtain ⟨hhead, hrest⟩ := pairwise_cons.mp hordered
    by_cases hrow : key row < bound
    · rw [filter_cons_of_pos (by simp [hrow]), filter_cons_of_neg (by simp [hrow]),
        cons_append, ← ih hrest]
    · have hnone : rest.filter (fun row => key row < bound) = [] := by
        refine filter_eq_nil_iff.mpr fun other hother hless => ?_
        exact hrow (lt_of_le_of_lt (hhead other hother) (of_decide_eq_true hless))
      have hbehind := ih hrest
      rw [hnone, nil_append] at hbehind
      rw [filter_cons_of_neg (by simp [hrow]), filter_cons_of_pos (by simp [hrow]),
        hnone, nil_append, ← hbehind]

theorem sortByKey_below {Order : Type*} [LinearOrder Order] {order : Row -> Order}
    (hrefine : ∀ a b, order a ≤ order b -> key a ≤ key b) (hdistinct : (chosen.map order).Nodup)
    (bound : Key) :
    sortByKey order chosen = sortByKey order (chosen.filter fun row => key row < bound) ++
      (sortByKey order chosen).filter fun row => !decide (key row < bound) := by
  rw [← filter_sortByKey _ hdistinct]
  refine eq_below_append ?_ _
  exact (sortByKey_pairwise order chosen).imp fun hle => hrefine _ _ hle

theorem Top.key_le_last {front : List Row} {last row : Row}
    (htop : Top key limit rows (front ++ [last])) (hrow : row ∈ front ++ [last]) :
    key row ≤ key last := by
  rcases mem_append.mp hrow with hrow | hrow
  · exact (pairwise_append.mp htop.sorted).2.2 row hrow last mem_cons_self
  · rw [mem_singleton.mp hrow]

/-- Where one answer ends with a key, no answer goes beyond it. -/
theorem key_eq_of_cut {front : List Row} {last row : Row}
    (hfirst : Top key limit rows (front ++ [last])) (hsecond : Top key limit rows second)
    (hrow : row ∈ front ++ [last] \/ row ∈ second) (hcut : ¬ key row < key last) :
    key row = key last := by
  refine le_antisymm ?_ (not_lt.mp hcut)
  rcases hrow with hrow | hrow
  · exact hfirst.key_le_last hrow
  · have hkey : key row ∈ (front ++ [last]).map key := by
      rw [map_key_eq hfirst hsecond]
      exact mem_map_of_mem hrow
    obtain ⟨same, hsame, heq⟩ := mem_map.mp hkey
    rw [← heq]
    exact hfirst.key_le_last hsame

theorem filter_below_perm {last : Row} (hfirst : Top key limit rows first)
    (hsecond : Top key limit rows second) (hlast : last ∈ first) :
    (first.filter fun row => key row < key last).Perm
      (second.filter fun row => key row < key last) := by
  have hmem : key last ∈ second.map key :=
    map_key_eq hfirst hsecond ▸ mem_map_of_mem hlast
  obtain ⟨peer, hpeer, hpeerKey⟩ := mem_map.mp hmem
  have hother := filter_below hsecond hpeer
  rw [hpeerKey] at hother
  exact (filter_below hfirst hlast).trans hother.symm

theorem sameButCut_of_top {Order : Type*} [LinearOrder Order] {order : Row -> Order}
    (hrefine : ∀ a b, order a ≤ order b -> key a ≤ key b) (hdistinct : (rows.map order).Nodup)
    (hfirst : Top key limit rows first) (hsecond : Top key limit rows second) :
    SameButCut key (sortByKey order first) (sortByKey order second) := by
  have hkeys := map_key_eq hfirst hsecond
  rcases eq_nil_or_concat first with rfl | ⟨front, last, hlast⟩
  · have hnil : second = [] := map_eq_nil_iff.mp hkeys.symm
    exact ⟨[], [], [], rfl, by rw [hnil]; rfl, rfl, fun _ _ ha => absurd ha not_mem_nil⟩
  rw [concat_eq_append] at hlast
  subst hlast
  have hfront : sortByKey order ((front ++ [last]).filter fun row => key row < key last) =
      sortByKey order (second.filter fun row => key row < key last) :=
    sortByKey_eq_of_perm
      (filter_below_perm hfirst hsecond (mem_append_right _ mem_cons_self))
      ((hsecond.nodup hdistinct).sublist (filter_sublist.map order))
  have hfirstSplit := sortByKey_below hrefine (hfirst.nodup hdistinct) (key last)
  have hsecondSplit := sortByKey_below hrefine (hsecond.nodup hdistinct) (key last)
  rw [hfront] at hfirstSplit
  refine ⟨_, _, _, hfirstSplit, hsecondSplit, ?_, ?_⟩
  · have hlengths : (front ++ [last]).length = second.length := by
      rw [← length_map key, hkeys, length_map]
    have hleft := congrArg length hfirstSplit
    have hright := congrArg length hsecondSplit
    rw [length_append, (sortByKey_perm order (front ++ [last])).length_eq] at hleft
    rw [length_append, (sortByKey_perm order second).length_eq] at hright
    omega
  · have hcut : ∀ row ∈ (sortByKey order (front ++ [last])).filter
          (fun row => !decide (key row < key last)) ++
        (sortByKey order second).filter (fun row => !decide (key row < key last)),
        key row = key last := by
      intro row hrow
      rw [← filter_append, mem_filter, mem_append] at hrow
      obtain ⟨hmem, hnot⟩ := hrow
      rw [Bool.not_eq_true', decide_eq_false_iff_not] at hnot
      exact key_eq_of_cut hfirst hsecond
        (hmem.imp (fun hin => (sortByKey_perm order _).subset hin)
          fun hin => (sortByKey_perm order second).subset hin) hnot
    exact fun a b ha hb => (hcut a ha).trans (hcut b hb).symm

end AnchorMind.Kernel.TopRows
