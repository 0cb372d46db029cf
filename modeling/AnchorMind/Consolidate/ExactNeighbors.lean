import AnchorMind.Kernel.Comparators
import Mathlib.Algebra.Group.Defs
import Mathlib.Data.List.Zip

/-!
# The nearest neighbours inside a group

`topNeighbors` goes once over the pairs of unit vectors and enters each pair into the lists
of both of its ends, each list a buffer of the first `k` neighbours.  Numbers are of any
ordered type with a commutative product; the cosine of unit vectors is their dot product.
-/

namespace AnchorMind.Consolidate.ExactNeighbors

open Kernel.BoundedTop Kernel.Comparators List

structure Neighbor (Number : Type*) where
  index : Nat
  cosine : Number

variable {Number : Type*}

section

variable [Zero Number] [Add Number] [Mul Number]

def dot (a b : List Number) : Number :=
  (a.zip b).foldl (fun sum pair => sum + pair.1 * pair.2) 0

def neighbor (vectors : List (List Number)) (i j : Nat) : Option (Neighbor Number) :=
  match vectors[i]?, vectors[j]? with
  | some a, some b => if i ≠ j /\ a.length = b.length then some ⟨j, dot a b⟩ else none
  | _, _ => none

def neighbors (vectors : List (List Number)) (i : Nat) : List (Neighbor Number) :=
  (range vectors.length).filterMap (neighbor vectors i)

def entered (vectors : List (List Number)) (m i j : Nat) : List (Neighbor Number) :=
  if m = i then (neighbor vectors i j).toList
  else if m = j then (neighbor vectors j i).toList
  else []

def enteredByRow (vectors : List (List Number)) (m i : Nat) : List (Neighbor Number) :=
  (range' (i + 1) (vectors.length - (i + 1))).flatMap (entered vectors m i)

end

section

variable [Zero Number] [Add Number] [CommMagma Number] {vectors : List (List Number)} {i m : Nat}

theorem dot_comm (a b : List Number) : dot a b = dot b a := by
  unfold dot
  rw [← zip_swap, foldl_map]
  simp only [Prod.fst_swap, Prod.snd_swap, mul_comm]

theorem range'_split {start count place : Nat} (hle : start ≤ place) (hlt : place < start + count) :
    range' start count = range' start (place - start) ++
      place :: range' (place + 1) (start + count - (place + 1)) := by
  obtain ⟨before, rfl⟩ := Nat.exists_eq_add_of_le hle
  obtain ⟨after, rfl⟩ := Nat.exists_eq_add_of_lt (Nat.lt_of_add_lt_add_left hlt)
  have hafter : start + (before + after + 1) - (start + before + 1) = after := by omega
  rw [Nat.add_sub_cancel_left, hafter, ← range'_succ, range'_append_1, Nat.add_assoc]

theorem enteredByRow_of_lt (hlt : i < m) (hm : m < vectors.length) :
    enteredByRow vectors m i = (neighbor vectors m i).toList := by
  have hentered : ∀ j, j ≠ m -> entered vectors m i j = [] := by
    intro j hj
    rw [entered, if_neg hlt.ne', if_neg hj.symm]
  have hend : i + 1 + (vectors.length - (i + 1)) = vectors.length := by omega
  rw [enteredByRow, range'_split hlt (by omega), hend, flatMap_append, flatMap_cons]
  rw [flatMap_eq_nil_iff.mpr, flatMap_eq_nil_iff.mpr, nil_append, append_nil,
    entered, if_neg hlt.ne', if_pos rfl]
  · intro j hj
    rw [mem_range'_1] at hj
    exact hentered j (by omega)
  · intro j hj
    rw [mem_range'_1] at hj
    exact hentered j (by omega)

theorem enteredByRow_self (vectors : List (List Number)) (m : Nat) :
    enteredByRow vectors m m =
      (range' (m + 1) (vectors.length - (m + 1))).filterMap (neighbor vectors m) := by
  have hentered : entered vectors m m = fun j => (neighbor vectors m j).toList :=
    funext fun j => if_pos rfl
  rw [enteredByRow, hentered, filterMap_eq_flatMap_toList]

theorem enteredByRow_of_gt (hlt : m < i) : enteredByRow vectors m i = [] := by
  refine flatMap_eq_nil_iff.mpr fun j hj => ?_
  rw [mem_range'_1] at hj
  rw [entered, if_neg (by omega), if_neg (by omega)]

/-- All pairs together enter the neighbours of a place, in the order of their places. -/
theorem flatMap_enteredByRow (hm : m < vectors.length) :
    (range vectors.length).flatMap (enteredByRow vectors m) = neighbors vectors m := by
  have hsplit : range vectors.length =
      range m ++ m :: range' (m + 1) (vectors.length - (m + 1)) := by
    rw [range_eq_range', range'_split (Nat.zero_le m) (by omega), Nat.sub_zero, Nat.zero_add,
      range_eq_range']
  have hself : neighbor vectors m m = none := by
    unfold neighbor
    split
    · rw [if_neg (by simp)]
    · rfl
  rw [neighbors, hsplit, flatMap_append, flatMap_cons, filterMap_append,
    filterMap_cons_none hself, enteredByRow_self]
  have hearlier : (range m).flatMap (enteredByRow vectors m) =
      (range m).filterMap (neighbor vectors m) := by
    rw [filterMap_eq_flatMap_toList]
    exact flatMap_congr fun i hi => enteredByRow_of_lt (mem_range.mp hi) hm
  have hlater : (range' (m + 1) (vectors.length - (m + 1))).flatMap
      (enteredByRow vectors m) = [] := by
    refine flatMap_eq_nil_iff.mpr fun i hi => enteredByRow_of_gt ?_
    rw [mem_range'_1] at hi
    omega
  rw [hearlier, hlater, append_nil]

end

variable [LinearOrder Number]

def before (x y : Neighbor Number) : Bool :=
  decide (x.cosine > y.cosine) || (decide (x.cosine = y.cosine) && decide (x.index < y.index))

/-- `list.length === k && !before(entry, list[k - 1])` -/
def skips (list : List (Neighbor Number)) (entry : Neighbor Number) (k : Int) : Bool :=
  decide ((list.length : Int) = k) && list[k.toNat - 1]?.all fun last => !before entry last

/-- Keeps the first `k` in falling order of the cosines, of equal ones the lower index first. -/
def pushTop (list : List (Neighbor Number)) (entry : Neighbor Number) (k : Int) :
    List (Neighbor Number) :=
  if k ≤ 0 then list
  else if skips list entry k then list
  else
    let list := list.insertIdx (position before entry list list.length) entry
    if (list.length : Int) > k then list.dropLast else list

section

variable [Zero Number] [Add Number] [Mul Number]

def visitPair (vectors : List (List Number)) (k : Int) (i : Nat)
    (best : List (List (Neighbor Number))) (j : Nat) : List (List (Neighbor Number)) :=
  match vectors[i]?, vectors[j]? with
  | some a, some b =>
    if a.length ≠ b.length then best
    else
      let cosine := dot a b
      (best.modify i fun list => pushTop list ⟨j, cosine⟩ k).modify j fun list =>
        pushTop list ⟨i, cosine⟩ k
  | _, _ => best

def visitRow (vectors : List (List Number)) (k : Int) (best : List (List (Neighbor Number)))
    (i : Nat) : List (List (Neighbor Number)) :=
  (range' (i + 1) (vectors.length - (i + 1))).foldl (visitPair vectors k i) best

def topNeighbors (vectors : List (List Number)) (k : Int) : List (List (Neighbor Number)) :=
  (range vectors.length).foldl (visitRow vectors k) (replicate vectors.length [])

end

/-- Falling cosines, and rising indices among equal ones. -/
def compareNeighbors : Neighbor Number -> Neighbor Number -> Ordering :=
  compareLex (byKey Neighbor.cosine fun a b => compare b a) (byKey Neighbor.index compare)

instance : Std.TransCmp (compareNeighbors : Neighbor Number -> Neighbor Number -> Ordering) := by
  unfold compareNeighbors
  infer_instance

theorem before_iff (x y : Neighbor Number) : before x y = true <-> compareNeighbors x y = .lt := by
  simp only [before, compareNeighbors, compareLex, byKey, Bool.or_eq_true, Bool.and_eq_true,
    decide_eq_true_eq, Ordering.then_eq_lt, compare_lt_iff_lt, compare_eq_iff_eq, gt_iff_lt]
  rw [eq_comm (a := x.cosine)]

theorem eq_of_compareNeighbors {x y : Neighbor Number} (htie : compareNeighbors x y = .eq) :
    x = y := by
  simp only [compareNeighbors, compareLex, byKey, Ordering.then_eq_eq, compare_eq_iff_eq] at htie
  obtain ⟨hcosine, hindex⟩ := htie
  cases x
  cases y
  exact congrArg₂ Neighbor.mk hindex hcosine.symm

variable {list : List (Neighbor Number)} {k : Int}

/-- The buffer is sorted and no longer than `k`. -/
structure Kept (list : List (Neighbor Number)) (k : Int) : Prop where
  sorted : list.Pairwise fun x y => (compareNeighbors x y).isLE = true
  length_le : list.length ≤ k.toNat

section

variable (hkept : Kept list k)
include hkept

theorem not_lt_of_not_last (hfull : list.length = k.toNat) {entry last : Neighbor Number}
    (hlast : list[k.toNat - 1]? = some last) (hbefore : before entry last = false)
    {other : Neighbor Number} (hother : other ∈ list) : compareNeighbors entry other ≠ .lt := by
  intro hlt
  have hle : (compareNeighbors other last).isLE = true := by
    obtain ⟨place, hplace, rfl⟩ := mem_iff_getElem.mp hother
    obtain ⟨hbound, rfl⟩ := List.getElem?_eq_some_iff.mp hlast
    rcases Nat.lt_or_ge place (k.toNat - 1) with hfront | hback
    · exact pairwise_iff_getElem.mp hkept.sorted place _ hplace hbound hfront
    · have hsame : place = k.toNat - 1 := by omega
      subst hsame
      exact Std.ReflCmp.isLE_rfl
  have hfirst := (before_iff entry last).mpr (Std.TransCmp.lt_of_lt_of_isLE hlt hle)
  rw [hfirst] at hbefore
  cases hbefore

theorem pushTop_eq (entry : Neighbor Number) :
    pushTop list entry k = (insertSorted compareNeighbors entry list).take k.toNat := by
  have hlength := hkept.length_le
  unfold pushTop
  split
  · have hzero : k.toNat = 0 := by omega
    rw [hzero, take_zero]
    exact eq_nil_of_length_eq_zero (by omega)
  · split
    · rename_i hpositive hskip
      rw [skips, Bool.and_eq_true, decide_eq_true_eq] at hskip
      have hfull : list.length = k.toNat := by omega
      obtain ⟨last, hlast⟩ : ∃ last, list[k.toNat - 1]? = some last :=
        ⟨_, getElem?_eq_getElem (by omega)⟩
      rw [hlast, Option.all_some, Bool.not_eq_true'] at hskip
      exact (take_insertSorted_of_not_lt hfull fun other hother =>
        not_lt_of_not_last hkept hfull hlast hskip.2 hother).symm
    · have hcount : (insertSorted compareNeighbors entry list).length = list.length + 1 :=
        orderedInsert_length _ list entry
      simp only [insertIdx_position before_iff hkept.sorted, hcount]
      split
      · rename_i hlong
        have hfull : list.length = k.toNat := by omega
        rw [dropLast_eq_take, hcount, Nat.add_sub_cancel, hfull]
      · rename_i hshort
        rw [take_of_length_le]
        omega

theorem Kept.pushTop (entry : Neighbor Number) : Kept (pushTop list entry k) k := by
  rw [pushTop_eq hkept entry]
  exact ⟨(insertSorted_pairwise hkept.sorted).sublist (take_sublist _ _),
    length_take_le _ _⟩

theorem foldl_pushTop (entries : List (Neighbor Number)) :
    entries.foldl (fun list entry => ExactNeighbors.pushTop list entry k) list =
      keepFirst compareNeighbors k.toNat list entries := by
  induction entries generalizing list with
  | nil => rfl
  | cons entry rest ih =>
    rw [foldl_cons, ih (hkept.pushTop entry), pushTop_eq hkept entry]
    rfl

end

section

variable [Zero Number] [Add Number] [CommMagma Number] {vectors : List (List Number)}
  {best : List (List (Neighbor Number))} {k : Int} {i m : Nat}

theorem getElem?_visitPair {j : Nat} (hdistinct : i ≠ j) :
    (visitPair vectors k i best j)[m]? = best[m]?.map fun list =>
      (entered vectors m i j).foldl (fun list entry => pushTop list entry k) list := by
  cases ha : vectors[i]? with
  | none => simp [visitPair, entered, neighbor, ha]
  | some a =>
    cases hb : vectors[j]? with
    | none => simp [visitPair, entered, neighbor, ha, hb]
    | some b =>
      by_cases hlength : a.length = b.length
      · have hback : neighbor vectors j i = some ⟨i, dot a b⟩ := by
          simp [neighbor, ha, hb, hlength, hdistinct.symm, dot_comm b a]
        have hforth : neighbor vectors i j = some ⟨j, dot a b⟩ := by
          simp [neighbor, ha, hb, hlength, hdistinct]
        simp only [visitPair, ha, hb, hlength, ne_eq, not_true_eq_false, if_false, entered,
          hback, hforth, getElem?_modify]
        by_cases hi : m = i
        · subst hi
          simp [hdistinct.symm]
        · by_cases hj : m = j
          · subst hj
            simp [hi, hdistinct]
          · simp [hi, hj, Ne.symm hi, Ne.symm hj]
      · simp [visitPair, entered, neighbor, ha, hb, hlength, Ne.symm hlength]

theorem getElem?_foldl_visitPair (js : List Nat) (hdistinct : ∀ j ∈ js, i ≠ j) :
    (js.foldl (visitPair vectors k i) best)[m]? = best[m]?.map fun list =>
      (js.flatMap (entered vectors m i)).foldl (fun list entry => pushTop list entry k) list := by
  induction js generalizing best with
  | nil => simp
  | cons j rest ih =>
    rw [foldl_cons, ih fun later hlater => hdistinct later (mem_cons_of_mem _ hlater),
      getElem?_visitPair (hdistinct j mem_cons_self), Option.map_map, flatMap_cons]
    simp only [foldl_append, Function.comp_def]

theorem getElem?_foldl_visitRow (rows : List Nat) :
    (rows.foldl (visitRow vectors k) best)[m]? = best[m]?.map fun list =>
      (rows.flatMap (enteredByRow vectors m)).foldl (fun list entry => pushTop list entry k)
        list := by
  induction rows generalizing best with
  | nil => simp
  | cons i rest ih =>
    have hlater : ∀ j ∈ range' (i + 1) (vectors.length - (i + 1)), i ≠ j := by
      intro j hj
      rw [mem_range'_1] at hj
      omega
    rw [foldl_cons, ih, visitRow, getElem?_foldl_visitPair _ hlater, Option.map_map,
      flatMap_cons]
    simp only [foldl_append, Function.comp_def, enteredByRow]

/-- `topNeighbors` gives each vector the first `k` of all its neighbours, sorted. -/
theorem topNeighbors_eq (vectors : List (List Number)) (k : Int) :
    topNeighbors vectors k = (range vectors.length).map fun i =>
      (sortBy compareNeighbors (neighbors vectors i)).take k.toNat := by
  refine ext_getElem? fun m => ?_
  rw [topNeighbors, getElem?_foldl_visitRow, getElem?_map]
  rcases Nat.lt_or_ge m vectors.length with hm | hm
  · have hkept : keepFirst compareNeighbors k.toNat [] (neighbors vectors m) =
        (sortBy compareNeighbors (neighbors vectors m)).take k.toNat :=
      keepFirst_nil fun x _ y _ htie => eq_of_compareNeighbors htie
    rw [getElem?_replicate_of_lt hm, getElem?_range hm, Option.map_some, Option.map_some,
      flatMap_enteredByRow hm, foldl_pushTop ⟨Pairwise.nil, Nat.zero_le _⟩, hkept]
  · rw [getElem?_eq_none (by simpa using hm), getElem?_eq_none (by simpa using hm)]
    rfl

end

end AnchorMind.Consolidate.ExactNeighbors
