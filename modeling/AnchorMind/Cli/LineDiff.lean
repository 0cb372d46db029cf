import AnchorMind.Kernel.CommonSubsequence

/-!
# The line diff of a preview

Two texts are cut into lines, a table holds the length of a longest common
subsequence of every pair of suffixes, and a walk from the front keeps, deletes
or adds one line at a time.  A table that would be too large is replaced by
deleting everything and adding everything.
-/

namespace AnchorMind.Cli.LineDiff

open Kernel.CommonSubsequence List

def maxCells : Nat := 4000000

def dropLastBreak : List Char -> List Char
  | [] => []
  | ['\n'] => []
  | ['\r', '\n'] => []
  | c :: rest => c :: dropLastBreak rest

def cutAtBreaks : List Char -> List Char -> List String
  | [], line => [String.ofList line.reverse]
  | '\r' :: '\n' :: rest, line => String.ofList line.reverse :: cutAtBreaks rest []
  | '\n' :: rest, line => String.ofList line.reverse :: cutAtBreaks rest []
  | c :: rest, line => cutAtBreaks rest (c :: line)

def splitLines (text : String) : List String :=
  if text = "" then [] else cutAtBreaks (dropLastBreak text.toList) []

inductive Op where
  | keep
  | delete
  | add
  deriving DecidableEq

structure DiffLine where
  op : Op
  line : String
  deriving DecidableEq

def tableRow (x : String) : List String -> List Nat -> List Nat
  | [], _ => [0]
  | y :: b, below =>
    let right := tableRow x b below.tail
    (if x = y then below.tail.headD 0 + 1 else max (below.headD 0) (right.headD 0)) :: right

def lcsTable : List String -> List String -> List (List Nat)
  | [], b => [replicate (b.length + 1) 0]
  | x :: a, b =>
    let below := lcsTable a b
    tableRow x b (below.headD []) :: below

def cell (table : List (List Nat)) (i j : Nat) : Nat := (table.getD i []).getD j 0

/-- The walk, at position `i` of the first and `j` of the second list. -/
def walk (table : List (List Nat)) : List String -> List String -> Nat -> Nat -> List DiffLine
  | [], b, _, _ => b.map fun line => ⟨.add, line⟩
  | x :: a, [], _, _ => (x :: a).map fun line => ⟨.delete, line⟩
  | x :: a, y :: b, i, j =>
    if x = y then ⟨.keep, x⟩ :: walk table a b (i + 1) (j + 1)
    else if cell table i (j + 1) ≤ cell table (i + 1) j then
      ⟨.delete, x⟩ :: walk table a (y :: b) (i + 1) j
    else ⟨.add, y⟩ :: walk table (x :: a) b i (j + 1)
  termination_by a b => a.length + b.length

def tooLarge (a b : List String) : Bool := decide (maxCells < (a.length + 1) * (b.length + 1))

def diffLines (before after : String) : List DiffLine :=
  let a := splitLines before
  let b := splitLines after
  if tooLarge a b then
    (a.map fun line => ⟨.delete, line⟩) ++ b.map fun line => ⟨.add, line⟩
  else walk (lcsTable a b) a b 0 0

def suffixLengths (a : List String) : List String -> List Nat
  | [] => [0]
  | y :: b => lcsLength a (y :: b) :: suffixLengths a b

theorem suffixLengths_headD (a b : List String) : (suffixLengths a b).headD 0 = lcsLength a b := by
  cases b <;> simp [suffixLengths]

theorem suffixLengths_nil (b : List String) : suffixLengths [] b = replicate (b.length + 1) 0 := by
  induction b with
  | nil => rfl
  | cons y b ih => simp [suffixLengths, ih, replicate_succ]

theorem tableRow_eq (x : String) (a b : List String) :
    tableRow x b (suffixLengths a b) = suffixLengths (x :: a) b := by
  induction b with
  | nil => rfl
  | cons y b ih =>
    rw [tableRow, suffixLengths, suffixLengths]
    simp only [tail_cons, headD_cons, ih, suffixLengths_headD]
    rw [lcsLength_cons_cons]

theorem suffixLengths_getD (a b : List String) (j : Nat) :
    (suffixLengths a b).getD j 0 = lcsLength a (b.drop j) := by
  induction b generalizing j with
  | nil => cases j <;> simp [suffixLengths]
  | cons y b ih =>
    cases j with
    | zero => simp [suffixLengths]
    | succ j => simpa [suffixLengths] using ih j

theorem lcsTable_headD (a b : List String) : (lcsTable a b).headD [] = suffixLengths a b := by
  induction a with
  | nil => rw [lcsTable, suffixLengths_nil, headD_cons]
  | cons x a ih => rw [lcsTable, headD_cons, ih, tableRow_eq]

theorem cell_lcsTable (a b : List String) (i j : Nat) :
    cell (lcsTable a b) i j = lcsLength (a.drop i) (b.drop j) := by
  induction a generalizing i with
  | nil =>
    rw [drop_nil, lcsLength_nil_left, cell, lcsTable]
    cases i <;> simp [getD_eq_getElem?_getD, getElem?_replicate]
    split <;> rfl
  | cons x a ih =>
    cases i with
    | zero =>
      have hhead := lcsTable_headD (x :: a) b
      rw [lcsTable, headD_cons] at hhead
      rw [cell, lcsTable, getD_cons_zero, hhead, suffixLengths_getD, drop_zero]
    | succ i =>
      rw [cell, lcsTable, getD_cons_succ, drop_succ_cons]
      exact ih i

def linesOf (ops : Op -> Bool) (out : List DiffLine) : List String :=
  (out.filter fun entry => ops entry.op).map DiffLine.line

def oldLines (out : List DiffLine) : List String := linesOf (· ≠ .add) out

def newLines (out : List DiffLine) : List String := linesOf (· ≠ .delete) out

def keptLines (out : List DiffLine) : List String := linesOf (· = .keep) out

theorem linesOf_map (ops : Op -> Bool) (op : Op) (lines : List String) :
    linesOf ops (lines.map fun line => ⟨op, line⟩) = if ops op then lines else [] := by
  induction lines with
  | nil => cases hop : ops op <;> rfl
  | cons line lines ih => cases hop : ops op <;> simp_all [linesOf]

theorem linesOf_append (ops : Op -> Bool) (first second : List DiffLine) :
    linesOf ops (first ++ second) = linesOf ops first ++ linesOf ops second := by
  rw [linesOf, filter_append, map_append]
  rfl

theorem linesOf_cons (ops : Op -> Bool) (entry : DiffLine) (out : List DiffLine) :
    linesOf ops (entry :: out) =
      if ops entry.op then entry.line :: linesOf ops out else linesOf ops out := by
  cases hop : ops entry.op <;> simp [linesOf, hop]

theorem walk_oldLines (table : List (List Nat)) (a b : List String) (i j : Nat) :
    oldLines (walk table a b i j) = a := by
  unfold oldLines
  fun_induction walk table a b i j with
  | case1 b => exact linesOf_map _ _ b
  | case2 x a => exact linesOf_map _ _ (x :: a)
  | case3 a x b i j ih => rw [linesOf_cons, ih]; rfl
  | case4 x a y b i j hne hle ih => rw [linesOf_cons, ih]; rfl
  | case5 x a y b i j hne hlt ih => rw [linesOf_cons, ih]; rfl

theorem walk_newLines (table : List (List Nat)) (a b : List String) (i j : Nat) :
    newLines (walk table a b i j) = b := by
  unfold newLines
  fun_induction walk table a b i j with
  | case1 b => exact linesOf_map _ _ b
  | case2 x a => exact linesOf_map _ _ (x :: a)
  | case3 a x b i j ih => rw [linesOf_cons, ih]; rfl
  | case4 x a y b i j hne hle ih => rw [linesOf_cons, ih]; rfl
  | case5 x a y b i j hne hlt ih => rw [linesOf_cons, ih]; rfl

theorem walk_keptLines (table : List (List Nat)) (a b : List String) (i j : Nat)
    (htable : ∀ p q, cell table (i + p) (j + q) = lcsLength (a.drop p) (b.drop q)) :
    Longest (keptLines (walk table a b i j)) a b := by
  unfold keptLines
  fun_induction walk table a b i j with
  | case1 b =>
    rw [linesOf_map]
    exact .nil_left b
  | case2 x a =>
    rw [linesOf_map]
    exact .nil_right (x :: a)
  | case3 a x b i j ih =>
    rw [linesOf_cons]
    refine Longest.cons (ih fun p q => ?_) x
    have hcell := htable (p + 1) (q + 1)
    rwa [drop_succ_cons, drop_succ_cons, ← Nat.add_assoc, ← Nat.add_assoc,
      Nat.add_right_comm i, Nat.add_right_comm j] at hcell
  | case4 x a y b i j hne hle ih =>
    rw [linesOf_cons]
    have hdrop : Longest (linesOf (· = .keep) (walk table a (y :: b) (i + 1) j)) a (y :: b) :=
      ih fun p q => by
        have hcell := htable (p + 1) q
        rwa [drop_succ_cons, ← Nat.add_assoc, Nat.add_right_comm i] at hcell
    obtain ⟨other, hother, hlength⟩ := exists_longest (x :: a) b
    refine hdrop.of_left hne hother ?_
    -- The cells of the two remaining pairs decide, and they are the two lengths.
    have hbelow := htable 1 0
    have hright := htable 0 1
    rw [hlength, hdrop.length_eq]
    exact hright ▸ hbelow ▸ hle
  | case5 x a y b i j hne hlt ih =>
    rw [linesOf_cons]
    have hadd : Longest (linesOf (· = .keep) (walk table (x :: a) b i (j + 1))) (x :: a) b :=
      ih fun p q => by
        have hcell := htable p (q + 1)
        rwa [drop_succ_cons, ← Nat.add_assoc, Nat.add_right_comm j] at hcell
    obtain ⟨other, hother, hlength⟩ := exists_longest a (y :: b)
    refine hadd.of_right hne hother ?_
    have hbelow := htable 1 0
    have hright := htable 0 1
    rw [hlength, hadd.length_eq]
    have hless := Nat.le_of_lt (Nat.lt_of_not_le hlt)
    exact hright ▸ hbelow ▸ hless

/-- A diff holds both texts, and within the table's limit it keeps as many lines
as any common subsequence has. -/
theorem diffLines_spec (before after : String) :
    oldLines (diffLines before after) = splitLines before /\
      newLines (diffLines before after) = splitLines after /\
      (tooLarge (splitLines before) (splitLines after) = false ->
        Longest (keptLines (diffLines before after)) (splitLines before) (splitLines after)) := by
  rw [diffLines]
  split
  · rename_i hlarge
    refine ⟨?_, ?_, fun hsmall => absurd hlarge (by simp [hsmall])⟩
    · rw [oldLines, linesOf_append, linesOf_map, linesOf_map]
      exact append_nil _
    · rw [newLines, linesOf_append, linesOf_map, linesOf_map]
      exact nil_append _
  · refine ⟨walk_oldLines _ _ _ 0 0, walk_newLines _ _ _ 0 0, fun _ => ?_⟩
    refine walk_keptLines _ _ _ 0 0 fun p q => ?_
    rw [cell_lcsTable, Nat.zero_add, Nat.zero_add]

end AnchorMind.Cli.LineDiff
