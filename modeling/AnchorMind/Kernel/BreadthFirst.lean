import Mathlib.Logic.Relation
import Mathlib.Data.List.Basic

/-!
# Breadth-first visits

The nodes reached from those of a queue, in the order in which they are taken from it.  The
edges form a list, so every search ends, also on a cycle.
-/

namespace AnchorMind.Kernel.BreadthFirst

variable {Node : Type*} [DecidableEq Node]

def unvisited (edges : List (Node × Node)) (visited : List Node) (current : Node) : List Node :=
  ((edges.filter fun edge => edge.1 = current).map Prod.snd).filter fun node => node ∉ visited

variable {visited : List Node}

theorem mem_unvisited {edges : List (Node × Node)} {current node : Node} :
    node ∈ unvisited edges visited current <-> (current, node) ∈ edges /\ node ∉ visited := by
  simp [unvisited, and_comm]

def left (edges : List (Node × Node)) (visited : List Node) : Nat :=
  edges.countP fun edge => edge.1 ∉ visited

theorem left_visit {current : Node} (edges : List (Node × Node)) (hnew : current ∉ visited) :
    left edges (visited ++ [current]) < left edges visited \/
      left edges (visited ++ [current]) = left edges visited /\
        unvisited edges (visited ++ [current]) current = [] := by
  unfold left unvisited
  induction edges with
  | nil => exact .inr ⟨rfl, rfl⟩
  | cons edge rest ih =>
    by_cases hedge : edge.1 = current
    · left
      have hle := rest.countP_mono_left (p := fun edge => edge.1 ∉ visited ++ [current])
        (q := fun edge => edge.1 ∉ visited) (by simp +contextual)
      simp [hedge, hnew]
      simpa using Nat.lt_succ_of_le hle
    · simpa [List.countP_cons, hedge] using ih

def visits (edges : List (Node × Node)) (visited queue : List Node) : List Node :=
  match queue with
  | [] => visited
  | current :: rest =>
    if current ∈ visited then visits edges visited rest
    else
      let visited' := visited ++ [current]
      visits edges visited' (rest ++ unvisited edges visited' current)
termination_by (left edges visited, queue.length)
decreasing_by
  · exact .right _ (Nat.lt_succ_self _)
  · rename_i hnew
    rcases left_visit edges hnew with hless | ⟨hsame, hnone⟩
    · exact .left _ _ hless
    · rw [hsame, hnone, List.append_nil]
      exact .right _ (Nat.lt_succ_self _)

variable {edges : List (Node × Node)} {visited queue : List Node}

/-- What has been visited or waits is reached, and so is every end of an edge of a node that is,
if those of the visited nodes wait already. -/
theorem visits_closed
    (hwait : ∀ node ∈ visited, ∀ next, (node, next) ∈ edges -> next ∈ visited \/ next ∈ queue) :
    (∀ node, node ∈ visited \/ node ∈ queue -> node ∈ visits edges visited queue) /\
      ∀ node ∈ visits edges visited queue, ∀ next, (node, next) ∈ edges ->
        next ∈ visits edges visited queue := by
  fun_induction visits edges visited queue with
  | case1 visited => simpa using hwait
  | case2 visited current rest hseen ih =>
    have hclosed := ih (by grind)
    exact ⟨by grind, hclosed.2⟩
  | case3 visited current rest hnew visited' ih =>
    have hclosed := ih (by grind [mem_unvisited])
    exact ⟨by grind, hclosed.2⟩

/-- Nothing else is reached. -/
theorem exists_of_mem_visits {node : Node} (hnode : node ∈ visits edges visited queue) :
    node ∈ visited \/
      ∃ start ∈ queue,
        Relation.ReflTransGen (fun node next => (node, next) ∈ edges) start node := by
  fun_induction visits edges visited queue with
  | case1 visited => exact .inl hnode
  | case2 visited current rest hseen ih =>
    exact (ih hnode).imp_right fun ⟨start, hstart, hpath⟩ => ⟨start, .tail _ hstart, hpath⟩
  | case3 visited current rest hnew visited' ih =>
    rcases ih hnode with hold | ⟨start, hstart, hpath⟩
    · rcases List.mem_append.mp hold with hold | hone
      · exact .inl hold
      · rw [List.mem_singleton.mp hone]
        exact .inr ⟨current, .head _, .refl⟩
    · right
      rcases List.mem_append.mp hstart with hrest | hnext
      · exact ⟨start, .tail _ hrest, hpath⟩
      · exact ⟨current, .head _, .head (mem_unvisited.mp hnext).1 hpath⟩

theorem mem_visits_iff {start node : Node} : node ∈ visits edges [] [start] <->
    Relation.ReflTransGen (fun node next => (node, next) ∈ edges) start node := by
  constructor
  · intro hnode
    simpa using exists_of_mem_visits hnode
  · intro hpath
    obtain ⟨hin, hclosed⟩ := @visits_closed _ _ edges [] [start] nofun
    induction hpath with
    | refl => exact hin _ (.inr (List.mem_singleton_self _))
    | tail _ hedge ih => exact hclosed _ ih _ hedge

theorem nodup_visits (hvisited : visited.Nodup) : (visits edges visited queue).Nodup := by
  fun_induction visits edges visited queue with
  | case1 => exact hvisited
  | case2 _ _ _ _ ih => exact ih hvisited
  | case3 _ _ _ _ _ ih => exact ih (List.nodup_append.mpr ⟨hvisited, by simp, by grind⟩)

end AnchorMind.Kernel.BreadthFirst
