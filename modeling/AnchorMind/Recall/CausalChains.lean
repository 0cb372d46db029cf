import AnchorMind.Kernel.BreadthFirst

/-!
# Causal chains

The causal links of a timeline are followed from every end that no link leads to.  What only
such ends reach is told in a chain, so a cycle that nothing leads into is told in none.
-/

namespace AnchorMind.Recall.CausalChains

open Kernel.BreadthFirst

structure Fragment where
  id : String
  resolutionStatus : Option String
  deriving DecidableEq

/-- A row of `fragment_links`. -/
structure Link where
  fromId : String
  toId : String
  relationType : String

/-- A row of `case_event_edges`. -/
structure EventEdge where
  fromEventId : String
  toEventId : String
  edgeType : String

structure Chain where
  rootId : String
  chain : List Fragment
  isResolved : Bool

def CAUSAL_TYPES : List String := ["caused_by", "resolved_by"]

def allCausalLinks (links : List Link) (eventDag : List EventEdge) : List (String × String) :=
  (links.filter fun link => link.relationType ∈ CAUSAL_TYPES).map (fun link =>
      (link.fromId, link.toId)) ++
    (eventDag.filter fun edge => edge.edgeType ∈ CAUSAL_TYPES).map fun edge =>
      (edge.fromEventId, edge.toEventId)

def fragOf (fragments : List Fragment) (id : String) : Option Fragment :=
  fragments.reverse.find? fun f => f.id = id

/-- The beginnings that are no ends. -/
def roots (causal : List (String × String)) : List String :=
  (causal.map Prod.fst).eraseDups.filter fun id => id ∉ causal.map Prod.snd

def chainFrom (fragments : List Fragment) (causal : List (String × String)) (rootId : String) :
    Option Chain :=
  let chain := (visits causal [] [rootId]).filterMap (fragOf fragments)
  if chain = [] then none
  else some ⟨rootId, chain, chain.any fun f => f.resolutionStatus = some "resolved"⟩

def buildCausalChains (fragments : List Fragment) (links : List Link)
    (eventDag : List EventEdge) : List Chain :=
  let causal := allCausalLinks links eventDag
  (roots causal).filterMap (chainFrom fragments causal)

variable {fragments : List Fragment} {links : List Link} {eventDag : List EventEdge}
  {causal : List (String × String)}

def Linked (fragments : List Fragment) (links : List Link) (f : Fragment) : Prop :=
  ∃ other ∈ fragments, other.id ≠ f.id /\ ∃ link ∈ links, link.relationType ∈ CAUSAL_TYPES /\
    (link.fromId = f.id /\ link.toId = other.id \/ link.fromId = other.id /\ link.toId = f.id)

def Covers (fragments : List Fragment) (links : List Link) (eventDag : List EventEdge) : Prop :=
  ∀ f ∈ fragments, Linked fragments links f ->
    ∃ told ∈ buildCausalChains fragments links eventDag, ∃ node ∈ told.chain, node.id = f.id

theorem mem_roots {id : String} : id ∈ roots causal <->
    id ∈ causal.map Prod.fst /\ id ∉ causal.map Prod.snd := by
  simp [roots]

variable {f : Fragment}

theorem fragOf_id {id : String} (hfound : fragOf fragments id = some f) : f.id = id := by
  simpa using List.find?_some hfound

theorem exists_fragOf (hf : f ∈ fragments) : ∃ other, fragOf fragments f.id = some other := by
  rw [<- Option.isSome_iff_exists, fragOf, List.find?_isSome]
  exact ⟨f, List.mem_reverse.mpr hf, decide_eq_true rfl⟩

theorem mem_chainFrom_iff (hf : f ∈ fragments) {rootId : String} :
    (∃ told, chainFrom fragments causal rootId = some told /\
      ∃ node ∈ told.chain, node.id = f.id) <-> f.id ∈ visits causal [] [rootId] := by
  have hchain : (∃ node ∈ (visits causal [] [rootId]).filterMap (fragOf fragments),
      node.id = f.id) <-> f.id ∈ visits causal [] [rootId] := by
    constructor
    · rintro ⟨node, hnode, hid⟩
      obtain ⟨id, hvisit, hfound⟩ := List.mem_filterMap.mp hnode
      exact hid ▸ fragOf_id hfound ▸ hvisit
    · intro hvisit
      obtain ⟨other, hother⟩ := exists_fragOf hf
      exact ⟨other, List.mem_filterMap.mpr ⟨_, hvisit, hother⟩, fragOf_id hother⟩
  rw [<- hchain, chainFrom]
  split
  · rename_i hempty
    simp [hempty]
  · simp

/-- The timeline is covered just when every linked fragment is reached from a beginning that is
no end. -/
theorem buildCausalChains_covers_iff (fragments : List Fragment) (links : List Link)
    (eventDag : List EventEdge) :
    Covers fragments links eventDag <-> ∀ f ∈ fragments, Linked fragments links f ->
      ∃ start, start ∈ (allCausalLinks links eventDag).map Prod.fst /\
        start ∉ (allCausalLinks links eventDag).map Prod.snd /\
          Relation.ReflTransGen (fun id next => (id, next) ∈ allCausalLinks links eventDag)
            start f.id := by
  refine forall₃_congr fun f hf _ => ?_
  simp only [buildCausalChains, List.mem_filterMap, <- mem_visits_iff]
  constructor
  · rintro ⟨told, ⟨start, hstart, htold⟩, hnode⟩
    obtain ⟨hbegins, hends⟩ := mem_roots.mp hstart
    exact ⟨start, hbegins, hends, (mem_chainFrom_iff hf).mp ⟨told, htold, hnode⟩⟩
  · rintro ⟨start, hbegins, hends, hvisit⟩
    obtain ⟨told, htold, hnode⟩ := (mem_chainFrom_iff hf).mpr hvisit
    exact ⟨told, ⟨start, mem_roots.mpr ⟨hbegins, hends⟩, htold⟩, hnode⟩

/-- Two fragments that caused each other are in no chain. -/
theorem not_covers_cycle :
    Not (Covers [⟨"a", none⟩, ⟨"b", none⟩]
      [⟨"a", "b", "caused_by"⟩, ⟨"b", "a", "caused_by"⟩] []) := by
  intro hcovers
  obtain ⟨told, htold, -⟩ := hcovers ⟨"a", none⟩ (by decide)
    ⟨⟨"b", none⟩, by decide, by decide, ⟨"a", "b", "caused_by"⟩, .head _, by decide, by decide⟩
  have hnone : roots (allCausalLinks
      [⟨"a", "b", "caused_by"⟩, ⟨"b", "a", "caused_by"⟩] []) = [] := by decide
  rw [buildCausalChains, hnone] at htold
  cases htold

theorem ids_sublist (ids : List String) :
    ((ids.filterMap (fragOf fragments)).map Fragment.id).Sublist ids := by
  induction ids with
  | nil => exact .slnil
  | cons id rest ih =>
    cases hfound : fragOf fragments id with
    | none => simpa [hfound] using ih.cons id
    | some f => simpa [hfound, fragOf_id hfound] using ih.cons_cons id

/-- A chain tells each fragment that its root leads to, and no other, once. -/
theorem buildCausalChains_exact (fragments : List Fragment) (links : List Link)
    (eventDag : List EventEdge) :
    (buildCausalChains fragments links eventDag).Forall fun told =>
      (told.chain.map Fragment.id).Nodup /\
        ∀ node, node ∈ told.chain <-> fragOf fragments node.id = some node /\
          Relation.ReflTransGen (fun id next => (id, next) ∈ allCausalLinks links eventDag)
            told.rootId node.id := by
  refine List.forall_iff_forall_mem.mpr fun told htold => ?_
  obtain ⟨root, -, htold⟩ := List.mem_filterMap.mp htold
  obtain ⟨-, hchain⟩ := Option.ite_none_left_eq_some.mp htold
  obtain rfl := Option.some.inj hchain
  refine ⟨(nodup_visits .nil).sublist (ids_sublist _), fun node => ?_⟩
  simp only [List.mem_filterMap, mem_visits_iff]
  constructor
  · rintro ⟨id, hvisit, hfound⟩
    obtain rfl := fragOf_id hfound
    exact ⟨hfound, hvisit⟩
  · rintro ⟨hfound, hvisit⟩
    exact ⟨node.id, hvisit, hfound⟩

end AnchorMind.Recall.CausalChains
