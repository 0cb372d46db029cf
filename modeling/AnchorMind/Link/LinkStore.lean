import AnchorMind.Kernel.MergedUpserts
import Mathlib.Algebra.Field.Rat
import Mathlib.Data.String.Basic

/-!
# Writing links

A link is a row of `fragment_links`, one for each pair of fragments.  One link and
a list of links are written by the same upsert; the list is merged by pair first.
-/

namespace AnchorMind.Link

open Kernel.MergedUpserts List

inductive RelationType where
  | related
  | causedBy
  | resolvedBy
  | partOf
  | contradicts
  | supersededBy
  | coRetrieved
  | temporal
  deriving DecidableEq, Repr

/-- `RELATION_PRECEDENCE` -/
def relationPrecedence : RelationType -> Nat
  | .coRetrieved => 1
  | .temporal => 1
  | .related => 1
  | .partOf => 2
  | .contradicts => 3
  | .supersededBy => 3
  | .causedBy => 3
  | .resolvedBy => 3

def isRelationDowngrade (existing incoming : RelationType) : Bool :=
  decide (relationPrecedence incoming < relationPrecedence existing)

def storedPrecedence (relationType : Option RelationType) : Nat :=
  (relationType.map relationPrecedence).getD 1

section

variable {Id Number Real : Type*}

structure LinkRequest (Id Number : Type*) where
  fromId : Id
  toId : Id
  relationType : Option RelationType := none
  weight : Option Number := none

/-- A request with its defaults filled in. -/
structure LinkPair (Id Number : Type*) where
  fromId : Id
  toId : Id
  relationType : RelationType
  weight : Number

structure LinkRow (Real : Type*) where
  relationType : Option RelationType
  weight : Real
  deletedAt : Option Nat
  deleteReason : Option String
  deriving DecidableEq

abbrev LinkTable (Id Real : Type*) := Table (Id × Id) (LinkRow Real)

def LinkPair.key (pair : LinkPair Id Number) : Id × Id := (pair.fromId, pair.toId)

def linkPair [One Number] (request : LinkRequest Id Number) : LinkPair Id Number where
  fromId := request.fromId
  toId := request.toId
  relationType := request.relationType.getD .related
  weight := request.weight.getD 1

variable [LinearOrder Number] [LinearOrder Real]

/-- Two requests for one pair, as `mergeLinkPairs` joins them. -/
def mergePair (was row : LinkPair Id Number) : LinkPair Id Number :=
  { was with
    relationType :=
      if isRelationDowngrade row.relationType was.relationType then row.relationType
      else was.relationType
    weight := max was.weight row.weight }

def pairMerging (Id Number : Type*) [LinearOrder Number] :
    Merging (Id × Id) (LinkPair Id Number) where
  key := LinkPair.key
  merge := mergePair
  key_merge _ _ := rfl

variable [LinearOrder Id]

/-- The order of the rows in the upsert. -/
def pairBefore (a b : LinkPair Id Number) : Bool :=
  decide (a.fromId < b.fromId) || decide (a.fromId = b.fromId) && decide (a.toId ≤ b.toId)

variable [One Number]

def mergeLinkPairs (requests : List (LinkRequest Id Number)) : List (LinkPair Id Number) :=
  (mergeByKey (pairMerging Id Number) (requests.map linkPair)).mergeSort pairBefore

/-- The row after `ON CONFLICT (from_id, to_id) DO UPDATE`.  `column` is the
rounding of a number to the weight column. -/
def upsertLink (column : Number →o Real) (stored : Option (LinkRow Real))
    (pair : LinkPair Id Number) : LinkRow Real :=
  match stored with
  | none =>
    { relationType := some pair.relationType
      weight := column pair.weight
      deletedAt := none
      deleteReason := none }
  | some row =>
    { relationType :=
        if row.deletedAt.isSome then some pair.relationType
        else if relationPrecedence pair.relationType < storedPrecedence row.relationType then
          row.relationType
        else some pair.relationType
      weight :=
        if row.deletedAt.isSome then column pair.weight
        else max row.weight (column pair.weight)
      deletedAt := none
      deleteReason := none }

omit [LinearOrder Id] [One Number] in
theorem upsertLink_deletedAt (column : Number →o Real) (stored : Option (LinkRow Real))
    (pair : LinkPair Id Number) : (upsertLink column stored pair).deletedAt = none := by
  cases stored <;> rfl

/-- `#writeLinks`.  `accepts` says which endpoints the foreign keys and the row-level
policy let through; one refused row undoes the whole statement. -/
def writeLinks (column : Number →o Real) (accepts : Id -> Id -> Bool)
    (table : LinkTable Id Real) (pairs : List (LinkRequest Id Number)) :
    Option (LinkTable Id Real) :=
  let rows := mergeLinkPairs pairs
  if rows.all fun row => accepts row.fromId row.toId then
    some (putAll (pairMerging Id Number) (upsertLink column) table rows)
  else none

def createLink (column : Number →o Real) (accepts : Id -> Id -> Bool)
    (table : LinkTable Id Real) (request : LinkRequest Id Number) : Option (LinkTable Id Real) :=
  writeLinks column accepts table [request]

def createLinks (column : Number →o Real) (accepts : Id -> Id -> Bool)
    (table : LinkTable Id Real) (pairs : List (LinkRequest Id Number)) :
    Option (LinkTable Id Real) :=
  if pairs.isEmpty then some table else writeLinks column accepts table pairs

def leaves (table : LinkTable Id Real) (answer : Option (LinkTable Id Real)) :
    LinkTable Id Real :=
  answer.getD table

/-- The rows `createLink` leaves, called for each request in order. -/
def createEach (column : Number →o Real) (accepts : Id -> Id -> Bool)
    (table : LinkTable Id Real) (requests : List (LinkRequest Id Number)) : LinkTable Id Real :=
  requests.foldl (fun table request => leaves table (createLink column accepts table request)) table

end

def supersede (oldId keepId : String) (links : LinkTable String Rat) : LinkTable String Rat :=
  fun key =>
    if key = (oldId, keepId) then
      match links key with
      | none =>
        some { relationType := some .supersededBy, weight := 1, deletedAt := none,
               deleteReason := none }
      | some row =>
        some { row with relationType := some .supersededBy, deletedAt := none,
                        deleteReason := none }
    else links key

end AnchorMind.Link

/-!
# A list of links and one link after another

Writing a list of links and writing them one by one agree on a pair of fragments
when its requests of highest precedence start and end with one type.  Of two types
of equal precedence the list keeps the first and the single writes keep the last.
-/

namespace AnchorMind.Link

open Kernel.MergedUpserts List

variable {Id Number Real : Type*} [LinearOrder Number] [LinearOrder Real]

section

variable (column : Number →o Real) {row : LinkRow Real} {stored : Option (LinkRow Real)}
  (pair : LinkPair Id Number)

def freshLink : LinkRow Real where
  relationType := some pair.relationType
  weight := column pair.weight
  deletedAt := none
  deleteReason := none

theorem upsertLink_deleted {instant : Nat} (hdeleted : row.deletedAt = some instant) :
    upsertLink column (some row) pair = freshLink column pair := by
  simp [upsertLink, freshLink, hdeleted]

theorem upsertLink_active (hactive : row.deletedAt = none) :
    upsertLink column (some row) pair =
      { relationType := keepLater storedPrecedence row.relationType (some pair.relationType)
        weight := max row.weight (column pair.weight)
        deletedAt := none
        deleteReason := none } := by
  simp only [upsertLink, hactive]
  rfl

/-- Two requests for one pair, as two single upserts join them. -/
def pairAfter (was next : LinkPair Id Number) : LinkPair Id Number :=
  { was with
    relationType := keepLater relationPrecedence was.relationType next.relationType
    weight := max was.weight next.weight }

theorem some_keepLater (was next : RelationType) :
    some (keepLater relationPrecedence was next) =
      keepLater storedPrecedence (some was) (some next) := by
  unfold keepLater
  split
  · rename_i hlower
    exact (if_pos hlower).symm
  · rename_i hlower
    exact (if_neg hlower).symm

theorem upsertLink_freshLink (was next : LinkPair Id Number) :
    upsertLink column (some (freshLink column was)) next = freshLink column (pairAfter was next) :=
      by
  rw [upsertLink_active column next rfl]
  simp only [freshLink, pairAfter, some_keepLater]
  rw [Monotone.map_max column.monotone]

theorem upsertLink_pairAfter (stored : Option (LinkRow Real)) (was next : LinkPair Id Number) :
    upsertLink column (some (upsertLink column stored was)) next =
      upsertLink column stored (pairAfter was next) := by
  cases stored with
  | none => exact upsertLink_freshLink column was next
  | some row =>
    cases hrow : row.deletedAt with
    | some instant =>
      rw [upsertLink_deleted column was hrow, upsertLink_deleted column _ hrow]
      exact upsertLink_freshLink column was next
    | none =>
      rw [upsertLink_active column was hrow, upsertLink_active column _ hrow,
        upsertLink_active column next rfl]
      simp only [pairAfter, some_keepLater, keepLater_assoc]
      rw [Monotone.map_max column.monotone, max_assoc]

def OneHighestType (pairs : List (LinkPair Id Number)) : Prop :=
  (highest relationPrecedence (pairs.map LinkPair.relationType)).head? =
    (highest relationPrecedence (pairs.map LinkPair.relationType)).getLast?

def Outranked (stored : Option (LinkRow Real)) (pairs : List (LinkPair Id Number)) : Prop :=
  ∃ row, stored = some row /\ row.deletedAt = none /\
    ∀ pair ∈ pairs,
      relationPrecedence pair.relationType < storedPrecedence row.relationType

def AlreadyThere (stored : Option (LinkRow Real)) (pairs : List (LinkPair Id Number)) : Prop :=
  ∃ row, stored = some row /\ row.deletedAt = none /\ row.deleteReason = none /\
    (∀ pair ∈ pairs, column pair.weight ≤ row.weight) /\
    (row.relationType = (highest relationPrecedence (pairs.map LinkPair.relationType)).getLast? \/
      Outranked stored pairs)

variable {pair} {first other : LinkPair Id Number} {rest : List (LinkPair Id Number)}

theorem relationType_foldl_mergePair :
    (rest.foldl mergePair first).relationType =
      (rest.map LinkPair.relationType).foldl (keepEarlier relationPrecedence)
        first.relationType := by
  induction rest generalizing first with
  | nil => rfl
  | cons next rest ih =>
    rw [foldl_cons, ih, map_cons, foldl_cons]
    simp [mergePair, isRelationDowngrade, keepEarlier]

theorem relationType_foldl_pairAfter :
    (rest.foldl pairAfter first).relationType =
      (rest.map LinkPair.relationType).foldl (keepLater relationPrecedence)
        first.relationType := by
  induction rest generalizing first with
  | nil => rfl
  | cons next rest ih =>
    rw [foldl_cons, ih, map_cons, foldl_cons]
    rfl

theorem weight_foldl_mergePair :
    (rest.foldl mergePair first).weight = (rest.foldl pairAfter first).weight := by
  have hweight : ∀ (rest : List (LinkPair Id Number)) (a b : LinkPair Id Number),
      a.weight = b.weight ->
        (rest.foldl mergePair a).weight = (rest.foldl pairAfter b).weight := by
    intro rest
    induction rest with
    | nil => exact fun a b hab => hab
    | cons next rest ih =>
      intro a b hab
      apply ih
      simp only [mergePair, pairAfter, hab]
  exact hweight rest first first rfl

theorem getLast?_types :
    (highest relationPrecedence ((first :: rest).map LinkPair.relationType)).getLast? =
      some (rest.foldl pairAfter first).relationType := by
  rw [map_cons, getLast?_highest, relationType_foldl_pairAfter]

theorem oneHighestType_iff :
    OneHighestType (first :: rest) <->
      (rest.foldl mergePair first).relationType = (rest.foldl pairAfter first).relationType := by
  unfold OneHighestType
  rw [getLast?_types, map_cons, head?_highest, relationType_foldl_mergePair]
  simp

theorem precedence_foldl_mergePair :
    relationPrecedence (rest.foldl mergePair first).relationType =
      relationPrecedence (rest.foldl pairAfter first).relationType := by
  rw [relationType_foldl_mergePair, relationType_foldl_pairAfter]
  exact rank_foldl_keepEarlier

omit [LinearOrder Real] in
theorem outranked_iff :
    Outranked stored (first :: rest) <->
      ∃ row, stored = some row /\ row.deletedAt = none /\
        relationPrecedence (rest.foldl pairAfter first).relationType <
          storedPrecedence row.relationType := by
  have htop : ∀ bound : Nat,
      (∀ pair ∈ first :: rest, relationPrecedence pair.relationType < bound) <->
        relationPrecedence (rest.foldl pairAfter first).relationType < bound := by
    intro bound
    rw [relationType_foldl_pairAfter]
    constructor
    · intro hall
      have hmem : (rest.map LinkPair.relationType).foldl (keepLater relationPrecedence)
          first.relationType ∈ (first :: rest).map LinkPair.relationType := by
        rw [map_cons]
        exact foldl_keepLater_mem
      obtain ⟨pair, hpair, htype⟩ := mem_map.mp hmem
      rw [<- htype]
      exact hall pair hpair
    · intro hbound pair hpair
      have htype : pair.relationType ∈ first.relationType :: rest.map LinkPair.relationType := by
        rw [<- map_cons]
        exact mem_map_of_mem hpair
      exact Nat.lt_of_le_of_lt (rank_le_foldl_keepLater htype) hbound
  simp only [Outranked, htop]

theorem upsertLink_eq_iff (hweight : pair.weight = other.weight)
    (hrank : relationPrecedence pair.relationType = relationPrecedence other.relationType) :
    upsertLink column stored pair = upsertLink column stored other <->
      pair.relationType = other.relationType \/
        ∃ row, stored = some row /\ row.deletedAt = none /\
          relationPrecedence other.relationType < storedPrecedence row.relationType := by
  cases stored with
  | none => simp [upsertLink, hweight]
  | some row =>
    cases hrow : row.deletedAt with
    | some instant =>
      rw [upsertLink_deleted column pair hrow, upsertLink_deleted column other hrow]
      simp [freshLink, hweight, hrow]
    | none =>
      rw [upsertLink_active column pair hrow, upsertLink_active column other hrow, hweight]
      have hkept : ∀ type : RelationType,
          storedPrecedence (some type) = relationPrecedence type := fun type => rfl
      simp only [keepLater, hkept, hrank]
      split
      · rename_i hlower
        simp [hrow, hlower]
      · rename_i hlower
        simp [hlower]

theorem column_weight_le_iff {bound : Real} :
    (∀ pair ∈ first :: rest, column pair.weight ≤ bound) <->
      column (rest.foldl pairAfter first).weight ≤ bound := by
  induction rest using reverseRecOn with
  | nil => simp
  | append_singleton rest last ih =>
    rw [foldl_append, foldl_cons, foldl_nil]
    have hmax : column (pairAfter (rest.foldl pairAfter first) last).weight =
        max (column (rest.foldl pairAfter first).weight) (column last.weight) :=
      Monotone.map_max column.monotone
    rw [hmax, max_le_iff, <- ih, <- cons_append]
    simp [or_imp, forall_and, and_assoc]

theorem upsertLink_eq_self_iff :
    some (upsertLink column stored (rest.foldl pairAfter first)) = stored <->
      AlreadyThere column stored (first :: rest) := by
  unfold AlreadyThere
  cases stored with
  | none => simp
  | some row =>
    cases hrow : row.deletedAt with
    | some instant =>
      rw [upsertLink_deleted column _ hrow]
      constructor
      · intro heq
        have hrow' : row.deletedAt = none := by
          rw [<- Option.some.inj heq]
          rfl
        simp [hrow'] at hrow
      · rintro ⟨same, hsame, hactive, -⟩
        cases hsame
        simp [hrow] at hactive
    | none =>
      rw [upsertLink_active column _ hrow, outranked_iff, getLast?_types]
      have hkept : ∀ type : RelationType,
          storedPrecedence (some type) = relationPrecedence type := fun type => rfl
      have htype : ∀ type : RelationType,
          keepLater storedPrecedence row.relationType (some type) = row.relationType <->
            row.relationType = some type \/
              relationPrecedence type < storedPrecedence row.relationType := by
        intro type
        unfold keepLater
        rw [hkept]
        split
        · rename_i hlower
          simp [hlower]
        · rename_i hlower
          simp [hlower, eq_comm]
      constructor
      · intro heq
        have heq := Option.some.inj heq
        refine ⟨row, rfl, hrow, by rw [<- heq], ?_, ?_⟩
        · rw [column_weight_le_iff]
          have hweight := congrArg LinkRow.weight heq
          exact max_eq_left_iff.mp hweight
        · have hkeep := congrArg LinkRow.relationType heq
          rcases (htype _).mp hkeep with hsame | hlower
          · exact .inl hsame
          · exact Or.inr ⟨row, rfl, hrow, hlower⟩
      · rintro ⟨same, hsame, -, hreason, hweight, hkeep⟩
        cases hsame
        rw [column_weight_le_iff] at hweight
        have hkeep : keepLater storedPrecedence row.relationType
            (some (rest.foldl pairAfter first).relationType) = row.relationType := by
          rw [htype]
          rcases hkeep with hsame | ⟨other, hother, -, hlower⟩
          · exact .inl hsame
          · cases hother
            exact .inr hlower
        rw [hkeep, max_eq_left hweight]
        cases row
        simp_all

end

section

variable [LinearOrder Id] [One Number] (column : Number →o Real) (accepts : Id -> Id -> Bool)
  {table : LinkTable Id Real} {requests : List (LinkRequest Id Number)} {key : Id × Id}

def requestsFor (requests : List (LinkRequest Id Number)) (key : Id × Id) :
    List (LinkPair Id Number) :=
  ofKey (pairMerging Id Number) key (requests.map linkPair)

theorem mergeLinkPairs_perm :
    (mergeLinkPairs requests).Perm
      (mergeByKey (pairMerging Id Number) (requests.map linkPair)) :=
  mergeSort_perm _ _

theorem accepts_mergeLinkPairs :
    ((mergeLinkPairs requests).all fun row => accepts row.fromId row.toId) = true <->
      ∀ request ∈ requests, accepts request.fromId request.toId = true := by
  rw [all_eq_true]
  constructor
  · intro hrows request hrequest
    have hkey : ∃ pair ∈ requests.map linkPair,
        (pairMerging Id Number).key pair = (request.fromId, request.toId) :=
      ⟨linkPair request, mem_map_of_mem hrequest, rfl⟩
    obtain ⟨row, hrow, hendpoints⟩ := (exists_key_iff mergeLinkPairs_perm).mpr hkey
    have hendpoints : (row.fromId, row.toId) = (request.fromId, request.toId) := hendpoints
    simp only [Prod.mk.injEq] at hendpoints
    rw [<- hendpoints.1, <- hendpoints.2]
    exact hrows row hrow
  · intro hrequests row hrow
    have hkey : ∃ pair ∈ mergeLinkPairs requests,
        (pairMerging Id Number).key pair = (row.fromId, row.toId) := ⟨row, hrow, rfl⟩
    obtain ⟨pair, hpair, hendpoints⟩ := (exists_key_iff mergeLinkPairs_perm).mp hkey
    obtain ⟨request, hrequest, rfl⟩ := mem_map.mp hpair
    have hendpoints : (request.fromId, request.toId) = (row.fromId, row.toId) := hendpoints
    simp only [Prod.mk.injEq] at hendpoints
    rw [<- hendpoints.1, <- hendpoints.2]
    exact hrequests request hrequest

theorem createLink_eq (request : LinkRequest Id Number) :
    createLink column accepts table request =
      if accepts request.fromId request.toId then
        some (put (pairMerging Id Number) (upsertLink column) table (linkPair request))
      else none := by
  have hrows : mergeLinkPairs [request] = [linkPair request] := by
    simp [mergeLinkPairs, mergeByKey, absorb]
  unfold createLink writeLinks
  rw [hrows]
  simp [linkPair, putAll]

theorem createEach_apply :
    createEach column accepts table requests key =
      if accepts key.1 key.2 then settle (upsertLink column) (table key) (requestsFor requests key)
      else table key := by
  induction requests generalizing table with
  | nil => simp [createEach, requestsFor, ofKey, settle]
  | cons request rest ih =>
    have hcons : createEach column accepts table (request :: rest) =
        createEach column accepts (leaves table (createLink column accepts table request)) rest :=
      rfl
    rw [hcons, ih, createLink_eq]
    by_cases hkey : (request.fromId, request.toId) = key
    · subst hkey
      split
      · simp [leaves, put, requestsFor, ofKey, pairMerging, LinkPair.key, linkPair, settle, *]
      · simp [leaves, *]
    · have hput : put (pairMerging Id Number) (upsertLink column) table (linkPair request) key =
          table key := Function.update_of_ne (Ne.symm hkey) _ _
      have hrequests : requestsFor (request :: rest) key = requestsFor rest key := by
        have hother : (pairMerging Id Number).key (linkPair request) ≠ key := hkey
        simp [requestsFor, ofKey, hother]
      rw [hrequests]
      by_cases hrequest : accepts request.fromId request.toId
      · simp [hrequest, leaves, hput]
      · simp [hrequest, leaves]

theorem createLinks_accepted
    (haccepts : ∀ request ∈ requests, accepts request.fromId request.toId = true) :
    ∃ written, createLinks column accepts table requests = some written /\
      ∀ key, written key = settle (upsertLink column) (table key)
        (merged (pairMerging Id Number) (requestsFor requests key)) := by
  cases requests with
  | nil => exact ⟨table, rfl, fun key => rfl⟩
  | cons request rest =>
    have hrows := (accepts_mergeLinkPairs accepts).mpr haccepts
    unfold createLinks writeLinks
    rw [if_pos hrows]
    exact ⟨_, rfl, fun key => putAll_merged mergeLinkPairs_perm⟩

theorem requestsFor_ne_nil_iff :
    requestsFor requests key ≠ [] <->
      ∃ request ∈ requests, (request.fromId, request.toId) = key := by
  constructor
  · intro hne
    obtain ⟨pair, hpair⟩ := exists_mem_of_ne_nil _ hne
    obtain ⟨hmem, hkey⟩ := mem_filter.mp hpair
    obtain ⟨request, hrequest, rfl⟩ := mem_map.mp hmem
    exact ⟨request, hrequest, of_decide_eq_true hkey⟩
  · rintro ⟨request, hrequest, hkey⟩
    exact ne_nil_of_mem
      (mem_filter.mpr ⟨mem_map_of_mem hrequest, decide_eq_true hkey⟩)

/-- A pair that is asked for is active afterwards, and any other pair is as it was. -/
theorem createLinks_rows (table : LinkTable Id Real)
    (haccepts : ∀ request ∈ requests, accepts request.fromId request.toId = true) :
    ∃ written, createLinks column accepts table requests = some written /\
      ∀ key, (requestsFor requests key = [] -> written key = table key) /\
        (requestsFor requests key ≠ [] ->
          ∃ row, written key = some row /\ row.deletedAt = none) := by
  obtain ⟨written, hwritten, hrows⟩ := createLinks_accepted column accepts haccepts
  refine ⟨written, hwritten, fun key => ?_⟩
  rw [hrows]
  cases requestsFor requests key with
  | nil => exact ⟨fun _ => rfl, fun hne => absurd rfl hne⟩
  | cons first rest =>
    exact ⟨fun hnil => (cons_ne_nil _ _ hnil).elim,
      fun _ => ⟨_, rfl, upsertLink_deletedAt _ _ _⟩⟩

theorem createLinks_refused
    (hrefused : ∃ request ∈ requests, accepts request.fromId request.toId = false) :
    createLinks column accepts table requests = none := by
  obtain ⟨request, hrequest, hrefused⟩ := hrefused
  have hrows : Not (((mergeLinkPairs requests).all
      fun row => accepts row.fromId row.toId) = true) := by
    rw [accepts_mergeLinkPairs]
    intro hall
    simp [hall request hrequest] at hrefused
  have hne : requests.isEmpty = false := by
    cases requests with
    | nil => cases hrequest
    | cons first rest => rfl
  unfold createLinks writeLinks
  rw [hne, if_neg hrows]
  rfl

def SameEitherWay (table : LinkTable Id Real) (requests : List (LinkRequest Id Number)) : Prop :=
  ((∀ request ∈ requests, accepts request.fromId request.toId = true) ->
    ∀ key, requestsFor requests key ≠ [] ->
      OneHighestType (requestsFor requests key) \/
        Outranked (table key) (requestsFor requests key)) /\
  ((∃ request ∈ requests, accepts request.fromId request.toId = false) ->
    ∀ key, requestsFor requests key ≠ [] -> accepts key.1 key.2 = true ->
      AlreadyThere column (table key) (requestsFor requests key))

omit [LinearOrder Id] [One Number] in
theorem settle_requests {first : LinkPair Id Number} {rest : List (LinkPair Id Number)}
    (stored : Option (LinkRow Real)) :
    settle (upsertLink column) stored (first :: rest) =
      some (upsertLink column stored (rest.foldl pairAfter first)) :=
  settle_cons (upsertLink_pairAfter column) stored first rest

omit [LinearOrder Id] [One Number] in
theorem settle_merged_eq_iff (stored : Option (LinkRow Real)) (pairs : List (LinkPair Id Number)) :
    settle (upsertLink column) stored (merged (pairMerging Id Number) pairs) =
        settle (upsertLink column) stored pairs <->
      (pairs ≠ [] -> OneHighestType pairs \/ Outranked stored pairs) := by
  cases pairs with
  | nil => simp [merged]
  | cons first rest =>
    have hmerged : settle (upsertLink column)
      stored (merged (pairMerging Id Number) (first :: rest)) =
        some (upsertLink column stored (rest.foldl mergePair first)) := rfl
    rw [hmerged, settle_requests, oneHighestType_iff, outranked_iff, Option.some_inj,
      upsertLink_eq_iff column weight_foldl_mergePair precedence_foldl_mergePair]
    simp

omit [LinearOrder Id] [One Number] in
theorem settle_eq_self_iff (stored : Option (LinkRow Real)) (pairs : List (LinkPair Id Number)) :
    stored = settle (upsertLink column) stored pairs <->
      (pairs ≠ [] -> AlreadyThere column stored pairs) := by
  cases pairs with
  | nil => simp [settle]
  | cons first rest =>
    rw [settle_requests, eq_comm, upsertLink_eq_self_iff]
    simp

theorem accepts_of_requestsFor (hne : requestsFor requests key ≠ []) :
    ∃ request ∈ requests, (request.fromId, request.toId) = key := by
  obtain ⟨pair, hpair⟩ := exists_mem_of_ne_nil _ hne
  obtain ⟨hmem, hkey⟩ := mem_filter.mp hpair
  obtain ⟨request, hrequest, rfl⟩ := mem_map.mp hmem
  exact ⟨request, hrequest, of_decide_eq_true hkey⟩

/-- A list of links is written as its links one after another would be exactly where
no pair's highest precedence is shared by a first and a last type that differ, and a
list with a refused request where its accepted ones ask for nothing new. -/
theorem createLinks_eq_createEach_iff (table : LinkTable Id Real)
    (requests : List (LinkRequest Id Number)) :
    leaves table (createLinks column accepts table requests) =
        createEach column accepts table requests <->
      SameEitherWay column accepts table requests := by
  unfold SameEitherWay
  rw [funext_iff]
  by_cases hall : ∀ request ∈ requests, accepts request.fromId request.toId = true
  · have hnone : Not (∃ request ∈ requests,
        accepts request.fromId request.toId = false) := by
      rintro ⟨request, hrequest, hrefused⟩
      simp [hall request hrequest] at hrefused
    have hkey : ∀ key, createEach column accepts table requests key =
        settle (upsertLink column) (table key) (requestsFor requests key) := by
      intro key
      rw [createEach_apply]
      split
      · rfl
      · rename_i hrefused
        have hempty : requestsFor requests key = [] := by
          by_contra hne
          obtain ⟨request, hrequest, rfl⟩ := accepts_of_requestsFor hne
          exact hrefused (hall request hrequest)
        rw [hempty]
        rfl
    obtain ⟨written, hwritten, happly⟩ := createLinks_accepted column accepts hall
    rw [hwritten, leaves, Option.getD_some]
    simp only [happly, hkey, settle_merged_eq_iff]
    exact ⟨fun hagree => ⟨fun _ => hagree, fun hrefused => absurd hrefused hnone⟩,
      fun hagree => hagree.1 hall⟩
  · have hrefused : ∃ request ∈ requests,
        accepts request.fromId request.toId = false := by
      simpa using hall
    have hkey : ∀ key, (table key = createEach column accepts table requests key <->
        (requestsFor requests key ≠ [] -> accepts key.1 key.2 = true ->
          AlreadyThere column (table key) (requestsFor requests key))) := by
      intro key
      rw [createEach_apply]
      split
      · rename_i haccepted
        rw [settle_eq_self_iff]
        simp [haccepted]
      · rename_i hrejected
        simp [hrejected]
    have hleft : leaves table (createLinks column accepts table requests) = table := by
      rw [createLinks_refused column accepts hrefused]
      rfl
    rw [hleft]
    simp only [hkey]
    exact ⟨fun hagree => ⟨fun haccepted => absurd haccepted hall, fun _ => hagree⟩,
      fun hagree => hagree.2 hrefused⟩

/-- Two requests of equal precedence for one pair: the list keeps `related`, the
single writes end with `temporal`. -/
theorem createLinks_keeps_first_type :
    Not (∀ (table : LinkTable String Rat) (requests : List (LinkRequest String Rat)),
      leaves table (createLinks OrderHom.id (fun _ _ => true) table requests) =
        createEach OrderHom.id (fun _ _ => true) table requests) := by
  intro hagree
  have hpair := congrFun (hagree (fun _ => none)
    [{ fromId := "a", toId := "b", relationType := some .related },
      { fromId := "a", toId := "b", relationType := some .temporal }]) ("a", "b")
  revert hpair
  decide +kernel

end

end AnchorMind.Link
