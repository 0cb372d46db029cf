import AnchorMind.Index.FragmentIndex
import AnchorMind.Kernel.BoundedPaths
import AnchorMind.Link.LinkStore
import AnchorMind.Recall.BudgetSelector

/-!
# Linking the fragments of a session

Errors are paired with decisions and procedures of the same session.  A pair that
passes the schema-fit gate is linked unless its target already leads back to its
source along the declared link targets of the stored fragments.
-/

namespace AnchorMind.Link

open Index.FragmentIndex Kernel.BoundedPaths Text.Utf16 Text.Whitespace List

structure SessionFragment where
  id : String
  type : FragmentType
  keywords : List String := []
  content : String := ""
  caseId : Option String := none
  sessionId : Option String := none
  phase : Option String := none

structure StoredFragment where
  keyId : Option String
  validTo : Option Nat
  linkedTo : List String

abbrev Fragments := String -> Option StoredFragment

section

variable (lower : String -> String)

def ratio (setA setB : Finset String) : Rat :=
  if setA.card = 0 ∨ setB.card = 0 then 0
  else (setB.filter (· ∈ setA)).card / min setA.card setB.card

/-- The characters content is split at. -/
def isSeparator (c : Char) : Bool := isTrimmed c || ",;:!?()[]\x7b\x7d\"'".toList.contains c

def tokenize (content : String) : Finset String :=
  (((lower content).splitToList isSeparator).filter fun token =>
    decide (1 < utf16Length token)).toFinset

def overlapScore (a b : SessionFragment) : Rat :=
  if !a.keywords.isEmpty && !b.keywords.isEmpty then
    ratio (a.keywords.map lower).toFinset (b.keywords.map lower).toFinset
  else ratio (tokenize lower a.content) (tokenize lower b.content)

def phaseOrder : String -> Option Nat
  | "planning" => some 0
  | "debugging" => some 1
  | "implementation" => some 1
  | "verification" => some 2
  | _ => none

def phaseOk (source target : SessionFragment) : Bool :=
  match source.phase.bind phaseOrder, target.phase.bind phaseOrder with
  | some before, some after => decide (before ≤ after)
  | _, _ => true

def sameText (left right : Option String) : Bool :=
  left == right && left.isSome && left != some ""

def schemaFit (source target : SessionFragment) : Bool :=
  (sameText source.caseId target.caseId || sameText source.sessionId target.sessionId) &&
    decide (3 / 5 ≤ overlapScore lower source target) && phaseOk source target

def sameGroup (groupOf : String -> Option Nat) (a b : SessionFragment) : Bool :=
  match groupOf a.id, groupOf b.id with
  | some left, some right => left == right
  | _, _ => true

variable {Number : Type*} (groupOf : String -> Option Nat)

def bestTarget (source : SessionFragment) (targets : List SessionFragment) :
    Option SessionFragment :=
  ((targets.filter (sameGroup groupOf source)).mergeSort fun x y =>
    decide (overlapScore lower source y < overlapScore lower source x) ||
      decide (overlapScore lower source x = overlapScore lower source y) &&
        decide (x.id ≤ y.id)).head?

def causeLink (error decision : SessionFragment) : LinkRequest String Number where
  fromId := error.id
  toId := decision.id
  relationType := some .causedBy

def resolutionLink (procedure error : SessionFragment) : LinkRequest String Number where
  fromId := error.id
  toId := procedure.id
  relationType := some .resolvedBy

/-- The link `consider` creates by itself: the best target must pass the gate. -/
def consider (candidate : SessionFragment -> SessionFragment -> LinkRequest String Number)
    (targets : List SessionFragment) (source : SessionFragment) :
    Option (LinkRequest String Number) :=
  match bestTarget lower groupOf source targets with
  | none => none
  | some best => if schemaFit lower source best then some (candidate source best) else none

/-- The automatic links of `matchLinkCandidates`. -/
def matchLinkCandidates (fragments : List SessionFragment) : List (LinkRequest String Number) :=
  let errors := fragments.filter fun f => decide (f.type = .error)
  let decisions := fragments.filter fun f => decide (f.type = .decision)
  let procedures := fragments.filter fun f => decide (f.type = .procedure)
  errors.filterMap (consider lower groupOf causeLink decisions) ++
    procedures.filterMap (consider lower groupOf resolutionLink errors)

end

variable {Number : Type*}

def sortedKey (pair : LinkRequest String Number) : String :=
  if pair.fromId < pair.toId then pair.fromId ++ "|" ++ pair.toId
  else pair.toId ++ "|" ++ pair.fromId

def sortByPairKey (pairs : List (LinkRequest String Number)) : List (LinkRequest String Number) :=
  pairs.mergeSort fun a b => decide (sortedKey a ≤ sortedKey b)

/-- The rows the recursive part of the query adds behind one row. -/
def expandDeclared (fragments : Fragments) (keyId : Option String) (targetId id : String) :
    List String :=
  if id = targetId then []
  else match fragments id with
    | none => []
    | some f => if f.validTo.isNone && (keyId.isNone || f.keyId == keyId) then f.linkedTo else []

def declaredTargets (fragments : Fragments) (startId : String) : List String :=
  match fragments startId with
  | none => []
  | some f => if f.validTo.isNone then f.linkedTo else []

def maxDepth : Nat := 20

def isReachable (fragments : Fragments) (keyId : Option String) (startId targetId : String) :
    Bool :=
  (range maxDepth).any fun depth =>
    decide (targetId ∈ level (expandDeclared fragments keyId targetId)
      (declaredTargets fragments startId) depth)

def wouldCreateCycle (fragments : Fragments) (keyId : Option String) (fromId toId : String) :
    Bool :=
  isReachable fragments keyId toId fromId

section

variable {Number Real : Type*} (fragments : Fragments) (keyId : Option String)

def cacheKey (pair : LinkRequest String Number) : String := pair.fromId ++ "->" ++ pair.toId

structure CycleScan (Number : Type*) where
  cycleCache : List (String × Bool) := []
  validPairs : List (LinkRequest String Number) := []

def checkPair (scan : CycleScan Number) (pair : LinkRequest String Number) : CycleScan Number :=
  let isCycle := (scan.cycleCache.lookup (cacheKey pair)).getD
    (wouldCreateCycle fragments keyId pair.fromId pair.toId)
  { cycleCache :=
      if (scan.cycleCache.lookup (cacheKey pair)).isSome then scan.cycleCache
      else (cacheKey pair, isCycle) :: scan.cycleCache
    validPairs := if isCycle then scan.validPairs else scan.validPairs ++ [pair] }

def acyclicPairs (pairs : List (LinkRequest String Number)) : List (LinkRequest String Number) :=
  (pairs.foldl (checkPair fragments keyId) {}).validPairs

variable [LinearOrder Number] [LinearOrder Real] [One Number] (column : Number →o Real)
  (accepts : String -> String -> Bool)

def persistLinks (table : LinkTable String Real) (validPairs : List (LinkRequest String Number)) :
    LinkTable String Real :=
  match createLinks column accepts table validPairs with
  | some written => written
  | none => createEach column accepts table validPairs

def autoLinkSessionFragments (lower : String -> String) (groupOf : String -> Option Nat)
    (table : LinkTable String Real) (session : List SessionFragment) : LinkTable String Real :=
  let autoLinks : List (LinkRequest String Number) := matchLinkCandidates lower groupOf session
  persistLinks column accepts table (acyclicPairs fragments keyId (sortByPairKey autoLinks))

end

end AnchorMind.Link

/-!
# Cycles through the links of a session

The cycle check follows the link targets fragments declare, not the stored links.
A session's links close no cycle of stored links exactly where the declared targets
lead back wherever the links do.
-/

namespace AnchorMind.Link

open Kernel.BoundedPaths Kernel.FirstOf Kernel.MergedUpserts List

section

variable (fragments : Fragments) (keyId : Option String)

def Declares (id target : String) : Prop :=
  ∃ f, fragments id = some f /\ f.validTo = none /\ (keyId = none \/ f.keyId = keyId) /\
    target ∈ f.linkedTo

def DeclaredPath (startId targetId : String) : Prop :=
  ∃ f, fragments startId = some f /\ f.validTo = none /\
    ∃ first ∈ f.linkedTo,
      ∃ count, count < maxDepth /\ Hops (Declares fragments keyId) count first targetId

variable {fragments keyId} {startId targetId id next : String}

theorem mem_expandDeclared :
    next ∈ expandDeclared fragments keyId targetId id <->
      id ≠ targetId /\ Declares fragments keyId id next := by
  unfold expandDeclared Declares
  split
  · rename_i htarget
    simp [htarget]
  · rename_i htarget
    cases hrow : fragments id with
    | none => simp
    | some f =>
      dsimp only
      split
      · rename_i hopen
        simp_all
      · rename_i hshut
        simp only [not_mem_nil, false_iff]
        rintro ⟨-, same, hsame, hlive, hkey, -⟩
        cases hsame
        simp_all

theorem mem_declaredTargets :
    next ∈ declaredTargets fragments startId <->
      ∃ f, fragments startId = some f /\ f.validTo = none /\ next ∈ f.linkedTo := by
  unfold declaredTargets
  cases hrow : fragments startId with
  | none => simp
  | some f => cases hlive : f.validTo <;> simp [hlive]

theorem isReachable_iff :
    isReachable fragments keyId startId targetId = true <->
      DeclaredPath fragments keyId startId targetId := by
  have hstep : (fun a b => b ∈ expandDeclared fragments keyId targetId a) =
      fun a b => a ≠ targetId /\ Declares fragments keyId a b := by
    funext a b
    exact propext mem_expandDeclared
  have hfound : isReachable fragments keyId startId targetId = true <->
      ∃ depth, depth < maxDepth /\ ∃ first ∈ declaredTargets fragments startId,
        Hops (fun a b => a ≠ targetId /\ Declares fragments keyId a b) depth first targetId := by
    simp only [isReachable, any_eq_true, mem_range, decide_eq_true_iff, mem_level, hstep]
  rw [hfound]
  constructor
  · rintro ⟨depth, hdepth, first, hfirst, hops⟩
    obtain ⟨f, hrow, hlive, hlinked⟩ := mem_declaredTargets.mp hfirst
    exact ⟨f, hrow, hlive, first, hlinked, depth, hdepth, hops.mono fun a b hab => hab.2⟩
  · rintro ⟨f, hrow, hlive, first, hlinked, count, hcount, hops⟩
    obtain ⟨less, hless, hcut⟩ := hops.avoid
    exact ⟨less, Nat.lt_of_le_of_lt hless hcount, first,
      mem_declaredTargets.mpr ⟨f, hrow, hlive, hlinked⟩, hcut⟩

end

section

variable {Number : Type*} (fragments : Fragments) (keyId : Option String)

def cycleOf (pair : LinkRequest String Number) : Bool :=
  wouldCreateCycle fragments keyId pair.fromId pair.toId

structure Scanned (done : List (LinkRequest String Number)) (scan : CycleScan Number) : Prop where
  seen : ∀ pair : LinkRequest String Number,
    (∃ earlier ∈ done, cacheKey earlier = cacheKey pair) ->
      scan.cycleCache.lookup (cacheKey pair) =
        some (cycleOf fragments keyId (leader cacheKey done pair))
  fresh : ∀ pair : LinkRequest String Number,
    (∀ earlier ∈ done, cacheKey earlier ≠ cacheKey pair) ->
      scan.cycleCache.lookup (cacheKey pair) = none
  valid : scan.validPairs =
    done.filter fun pair => !cycleOf fragments keyId (leader cacheKey done pair)

variable {fragments keyId} {done pairs : List (LinkRequest String Number)}
  {scan : CycleScan Number} {pair : LinkRequest String Number}

theorem filter_concat_leader (select : LinkRequest String Number -> Bool) :
    (done ++ [pair]).filter (fun other => select (leader cacheKey (done ++ [pair]) other)) =
      done.filter (fun other => select (leader cacheKey done other)) ++
        [pair].filter fun other => select (leader cacheKey (done ++ [pair]) other) := by
  rw [filter_append]
  congr 1
  apply filter_congr
  intro other hother
  rw [leader_append hother rfl]

section

variable (hscan : Scanned fragments keyId done scan)
include hscan

theorem checkPair_seen (hseen : ∃ earlier ∈ done, cacheKey earlier = cacheKey pair) :
    Scanned fragments keyId (done ++ [pair]) (checkPair fragments keyId scan pair) := by
  obtain ⟨known, hknown, hsame⟩ := hseen
  have hlookup := hscan.seen pair ⟨known, hknown, hsame⟩
  have hlead : leader cacheKey (done ++ [pair]) pair = leader cacheKey done pair :=
    leader_append hknown hsame [pair]
  constructor
  · rintro other ⟨earlier, hearlier, hkey⟩
    have hdone : ∃ before ∈ done, cacheKey before = cacheKey other := by
      rcases mem_append.mp hearlier with hbefore | hlast
      · exact ⟨earlier, hbefore, hkey⟩
      · rw [mem_singleton.mp hlast] at hkey
        exact ⟨known, hknown, hsame.trans hkey⟩
    obtain ⟨before, hbefore, hother⟩ := hdone
    rw [leader_append hbefore hother]
    simpa [checkPair, hlookup] using hscan.seen other ⟨before, hbefore, hother⟩
  · intro other hnew
    have hother : ∀ earlier ∈ done, cacheKey earlier ≠ cacheKey other :=
      fun earlier hearlier => hnew earlier (mem_append_left _ hearlier)
    simpa [checkPair, hlookup] using hscan.fresh other hother
  · rw [filter_concat_leader fun other => !cycleOf fragments keyId other]
    simp only [checkPair, hlookup, Option.getD_some, hscan.valid, filter_cons, hlead,
      filter_nil]
    cases cycleOf fragments keyId (leader cacheKey done pair) <;> simp

theorem checkPair_fresh (hnew : ∀ earlier ∈ done, cacheKey earlier ≠ cacheKey pair) :
    Scanned fragments keyId (done ++ [pair]) (checkPair fragments keyId scan pair) := by
  have hlookup := hscan.fresh pair hnew
  have hlead : leader cacheKey (done ++ [pair]) pair = pair := leader_concat_self hnew []
  have hfirst : pair ∈ firsts cacheKey (done ++ [pair]) := by
    rw [firsts_concat_of_new hnew]
    simp
  constructor
  · rintro other ⟨earlier, hearlier, hkey⟩
    by_cases hpair : cacheKey pair = cacheKey other
    · rw [<- eq_leader hfirst hpair, <- hpair]
      simp [checkPair, hlookup, cycleOf]
    · have hbefore : earlier ∈ done := by
        rcases mem_append.mp hearlier with hbefore | hlast
        · exact hbefore
        · rw [mem_singleton.mp hlast] at hkey
          exact absurd hkey hpair
      have hother : (cacheKey other == cacheKey pair) = false := by simpa using Ne.symm hpair
      rw [leader_append hbefore hkey]
      simpa [checkPair, hlookup, lookup_cons, hother] using
        hscan.seen other ⟨earlier, hbefore, hkey⟩
  · intro other hnone
    have hpair : (cacheKey other == cacheKey pair) = false := by
      simpa using Ne.symm (hnone pair (by simp))
    have hother : ∀ earlier ∈ done, cacheKey earlier ≠ cacheKey other :=
      fun earlier hearlier => hnone earlier (mem_append_left _ hearlier)
    simpa [checkPair, hlookup, lookup_cons, hpair] using hscan.fresh other hother
  · rw [filter_concat_leader fun other => !cycleOf fragments keyId other]
    simp only [checkPair, hlookup, Option.getD_none, hscan.valid, filter_cons, hlead,
      filter_nil]
    change (if cycleOf fragments keyId pair then _ else _) = _
    cases cycleOf fragments keyId pair <;> simp

theorem checkPair_scanned :
    Scanned fragments keyId (done ++ [pair]) (checkPair fragments keyId scan pair) := by
  rcases Classical.em (∃ earlier ∈ done, cacheKey earlier = cacheKey pair) with
    hseen | hnew
  · exact checkPair_seen hscan hseen
  · exact checkPair_fresh hscan fun earlier hearlier hkey => hnew ⟨earlier, hearlier, hkey⟩

end

theorem mem_acyclicPairs :
    pair ∈ acyclicPairs fragments keyId pairs <->
      pair ∈ pairs /\ cycleOf fragments keyId (leader cacheKey pairs pair) = false := by
  have hscan : Scanned fragments keyId pairs (pairs.foldl (checkPair fragments keyId) {}) := by
    induction pairs using reverseRecOn with
    | nil =>
      constructor
      · rintro pair ⟨earlier, hearlier, -⟩
        cases hearlier
      · exact fun pair _ => rfl
      · rfl
    | append_singleton done last ih =>
      rw [foldl_append]
      exact checkPair_scanned ih
  rw [acyclicPairs, hscan.valid, mem_filter, Bool.not_eq_true']

end

section

variable {Number Real : Type*} [LinearOrder Number] [LinearOrder Real] [One Number]

def Active (stored : Option (LinkRow Real)) : Prop :=
  ∃ row, stored = some row /\ row.deletedAt = none

variable (column : Number →o Real) {accepts : String -> String -> Bool}

omit [One Number] in
theorem active_settle {stored : Option (LinkRow Real)} {pairs : List (LinkPair String Number)} :
    Active (settle (upsertLink column) stored pairs) <-> pairs ≠ [] \/ Active stored := by
  cases pairs with
  | nil => simp [settle]
  | cons first rest =>
    rw [settle_requests]
    have hactive : Active (some (upsertLink column stored (rest.foldl pairAfter first))) :=
      ⟨_, rfl, upsertLink_deletedAt column stored _⟩
    simp [hactive]

theorem requestsFor_ne_nil {requests : List (LinkRequest String Number)} {key : String × String} :
    requestsFor requests key ≠ [] <->
      ∃ request ∈ requests, (request.fromId, request.toId) = key := by
  constructor
  · exact accepts_of_requestsFor
  · rintro ⟨request, hrequest, rfl⟩
    have hmem : linkPair request ∈ requestsFor requests (request.fromId, request.toId) :=
      mem_filter.mpr ⟨mem_map_of_mem hrequest, decide_eq_true rfl⟩
    exact ne_nil_of_mem hmem

variable {pairs : List (LinkRequest String Number)} {table : LinkTable String Real}

theorem active_persistLinks {key : String × String} :
    Active (persistLinks column accepts table pairs key) <->
      Active (table key) \/ accepts key.1 key.2 = true /\
        ∃ pair ∈ pairs, (pair.fromId, pair.toId) = key := by
  rw [<- requestsFor_ne_nil]
  by_cases hall : ∀ pair ∈ pairs, accepts pair.fromId pair.toId = true
  · obtain ⟨written, hwritten, happly⟩ := createLinks_accepted column accepts hall
    have haccepts : requestsFor pairs key ≠ [] -> accepts key.1 key.2 = true := by
      intro hne
      obtain ⟨pair, hpair, rfl⟩ := accepts_of_requestsFor hne
      exact hall pair hpair
    unfold persistLinks
    rw [hwritten]
    dsimp only
    rw [happly, active_settle, merged_ne_nil]
    tauto
  · have hrefused : ∃ pair ∈ pairs, accepts pair.fromId pair.toId = false := by
      simpa using hall
    unfold persistLinks
    rw [createLinks_refused column accepts hrefused]
    dsimp only
    rw [createEach_apply]
    split
    · rename_i haccepted
      rw [active_settle]
      tauto
    · rename_i hrejected
      simp [hrejected]

def InKey (fragments : Fragments) (keyId : Option String) (id : String) : Prop :=
  ∃ f, fragments id = some f /\ f.validTo = none /\ f.keyId = keyId

def LinkHop (fragments : Fragments) (keyId : Option String) (active : String × String -> Prop)
    (source target : String) : Prop :=
  active (source, target) /\ InKey fragments keyId source /\ InKey fragments keyId target

/-- No link that was added has a way back from its target to its source, over the links
that were there and those added with it. -/
def ClosesNoCycle (fragments : Fragments) (keyId : Option String)
    (before after : LinkTable String Real) : Prop :=
  ∀ source target, Active (after (source, target)) -> Not (Active (before (source, target))) ->
    Not (ReachesWithin (LinkHop fragments keyId fun key => Active (after key)) maxDepth
      target source)

variable (accepts) (fragments : Fragments) (keyId : Option String) (lower : String -> String)
  (groupOf : String -> Option Nat)

def sessionPairs (session : List SessionFragment) : List (LinkRequest String Number) :=
  sortByPairKey (matchLinkCandidates lower groupOf session)

/-- The declared targets lead from the pair's target back to its source, for the first
pair that is written the same way. -/
def DeclaredBack (pairs : List (LinkRequest String Number)) (pair : LinkRequest String Number) :
    Prop :=
  DeclaredPath fragments keyId (leader cacheKey pairs pair).toId
    (leader cacheKey pairs pair).fromId

def Undeclared (table : LinkTable String Real) (pairs : List (LinkRequest String Number))
    (key : String × String) : Prop :=
  Active (table key) \/ accepts key.1 key.2 = true /\
    ∃ pair ∈ pairs, Not (DeclaredBack fragments keyId pairs pair) /\
      (pair.fromId, pair.toId) = key

/-- Wherever links lead back from a new pair's target to its source, the declared
targets do too. -/
def BackPathsDeclared (table : LinkTable String Real) (pairs : List (LinkRequest String Number)) :
    Prop :=
  ∀ pair ∈ pairs, accepts pair.fromId pair.toId = true ->
    Not (Active (table (pair.fromId, pair.toId))) ->
    ReachesWithin (LinkHop fragments keyId (Undeclared accepts fragments keyId table pairs))
      maxDepth pair.toId pair.fromId ->
    DeclaredBack fragments keyId pairs pair

theorem active_acyclicPairs {key : String × String} :
    Active (persistLinks column accepts table (acyclicPairs fragments keyId pairs) key) <->
      Undeclared accepts fragments keyId table pairs key := by
  have hpassed : ∀ pair, cycleOf fragments keyId (leader cacheKey pairs pair) = false <->
      Not (DeclaredBack fragments keyId pairs pair) := by
    intro pair
    rw [DeclaredBack, <- isReachable_iff, Bool.not_eq_true]
    rfl
  rw [active_persistLinks, Undeclared]
  simp only [mem_acyclicPairs, hpassed, and_assoc]

/-- A session's links close no cycle exactly when the declared targets lead back
wherever the links do. -/
theorem closesNoCycle_iff (table : LinkTable String Real) (session : List SessionFragment) :
    ClosesNoCycle fragments keyId table
        (autoLinkSessionFragments fragments keyId column accepts lower groupOf table session) <->
      BackPathsDeclared accepts fragments keyId table
        (sessionPairs lower groupOf session : List (LinkRequest String Number)) := by
  have hafter : ∀ key, Active (autoLinkSessionFragments fragments keyId column accepts lower
      groupOf table session key) <->
        Undeclared accepts fragments keyId table (sessionPairs lower groupOf session) key :=
    fun key => active_acyclicPairs column accepts fragments keyId
  unfold ClosesNoCycle BackPathsDeclared
  simp only [hafter]
  constructor
  · intro hcloses pair hpair haccepted hnew hback
    by_contra hundeclared
    have hwritten : Undeclared accepts fragments keyId table (sessionPairs lower groupOf session)
        (pair.fromId, pair.toId) :=
      Or.inr ⟨haccepted, pair, hpair, hundeclared, rfl⟩
    exact hcloses pair.fromId pair.toId hwritten hnew hback
  · intro hdeclared source target hwritten hnew hback
    rcases hwritten with hstored | ⟨haccepted, pair, hpair, hundeclared, hkey⟩
    · exact hnew hstored
    · cases hkey
      exact hundeclared (hdeclared pair hpair haccepted hnew hback)

end

def settledError : List SessionFragment :=
  [{ id := "error", type := .error, keywords := ["login"], sessionId := some "s" },
    { id := "decision", type := .decision, keywords := ["login"], sessionId := some "s" }]

/-- Both are stored, and neither declares a target. -/
def undeclaredRows : Fragments := fun id =>
  if id = "error" ∨ id = "decision" then
    some { keyId := some "k", validTo := none, linkedTo := [] }
  else none

def linkedBack : LinkTable String Rat := fun key =>
  if key = ("decision", "error") then
    some { relationType := some .related, weight := 1, deletedAt := none, deleteReason := none }
  else none

/-- The session's link from the error to the decision closes a cycle with the link that
leads back. -/
theorem session_link_closes_cycle :
    Not (∀ (fragments : Fragments) (keyId : Option String) (table : LinkTable String Rat)
      (session : List SessionFragment),
      ClosesNoCycle fragments keyId table
        (autoLinkSessionFragments fragments keyId (OrderHom.id : Rat →o Rat)
          (fun source target => (fragments source).isSome && (fragments target).isSome)
          id (fun _ => none) table session)) := by
  intro hcloses
  have hnone := hcloses undeclaredRows (some "k") linkedBack settledError "error" "decision"
  have hadded : autoLinkSessionFragments undeclaredRows (some "k") (OrderHom.id : Rat →o Rat)
      (fun source target => (undeclaredRows source).isSome && (undeclaredRows target).isSome)
      id (fun _ => none) linkedBack settledError ("error", "decision") =
        some { relationType := some .causedBy, weight := 1, deletedAt := none,
               deleteReason := none } := by
    decide +kernel
  have hback : autoLinkSessionFragments undeclaredRows (some "k") (OrderHom.id : Rat →o Rat)
      (fun source target => (undeclaredRows source).isSome && (undeclaredRows target).isSome)
      id (fun _ => none) linkedBack settledError ("decision", "error") =
        some { relationType := some .related, weight := 1, deletedAt := none,
               deleteReason := none } := by
    decide +kernel
  have hkey : ∀ id, id = "error" \/ id = "decision" ->
      InKey undeclaredRows (some "k") id := by
    intro id hid
    exact ⟨_, if_pos hid, rfl, rfl⟩
  apply hnone
  · exact ⟨_, hadded, rfl⟩
  · rintro ⟨row, hrow, -⟩
    simp [linkedBack] at hrow
  · exact ⟨1, by decide, by decide,
      .hop ⟨⟨_, hback, rfl⟩, hkey _ (.inr rfl), hkey _ (.inl rfl)⟩ (.here "error")⟩

end AnchorMind.Link
