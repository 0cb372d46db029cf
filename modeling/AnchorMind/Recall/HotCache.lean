import AnchorMind.Kernel.Copies
import AnchorMind.Recall.Scopes

/-!
# The hot cache

A recall copies the rows it returned into Redis and does not wait for it.  A later search
takes the copies whose content hash, review state and end of validity are still those of the
row, and evaluates the remaining filters on the copy.  Writers change rows, and some of them
delete the copy afterwards.
-/

namespace AnchorMind.Recall.HotCache

open Kernel.Transition Kernel.VersionedCopies Recall.Scopes List

def isCandidate (copy : Fragment) : Bool :=
  copy.content ≠ "" && copy.contentHash.any fun hash => hash ≠ ""

def validationCondition (query : Query) (row : Fragment) : Bool :=
  agentScopeCondition query row && liveOrClosedCondition query.includeSuperseded row &&
    reviewVisibility query row && keyScopeClause query row && workspaceCondition query row

def getCacheValidation (fragments : Table String Fragment) (query : Query) (id : String) :
    Option Fragment :=
  (fragments.current id).filter (validationCondition query)

def sameVersion (row copy : Fragment) : Bool :=
  row.contentHash = copy.contentHash && row.reviewState = copy.reviewState &&
    row.validTo = copy.validTo

def passesValidation (metadata : String -> Option Fragment) (copy : Copy String Fragment) : Bool :=
  (metadata copy.id).any fun row => sameVersion row copy.value

def validateHotCacheFragments (metadata : String -> Option Fragment) (scope : Option SearchScope)
    (fetched : List (Copy String Fragment)) : List (Copy String Fragment) :=
  let valid := (fetched.filter fun copy => isCandidate copy.value).filter
    (passesValidation metadata)
  match scope with
  | none => valid
  | some scope => if scope.isNoop then valid else valid.filter fun copy => scope.applyTo copy.value

structure CacheKey where
  owner : Option String
  id : String
  deriving DecidableEq

/-- Rows read by their time range come without their key. -/
def hotCacheOwner (hasKeyColumn : Bool) (fragment : Fragment) (keyId : Option (List String)) :
    Option (Option String) :=
  if hasKeyColumn then some fragment.keyId
  else
    match keyId with
    | none => some none
    | some [key] => some (some key)
    | some _ => none

def cacheNamespaces (query : Query) : List (Option String) :=
  match query.keyId with
  | none => [none]
  | some keys => keys.map some

def validAffects : List String :=
  ["neutral", "frustration", "confidence", "surprise", "doubt", "satisfaction"]

def sanitizeAffect (affect : Option String) : String :=
  match affect with
  | none => "neutral"
  | some value => if value ∈ validAffects then value else "neutral"

/-- The columns an amend sets. -/
structure Updates where
  content : Option String
  topic : Option String
  type : Option String
  isAnchor : Option Bool
  resolutionStatus : Option (Option String)
  phase : Option (Option String)
  affect : Option (Option String)
  reviewState : Option (Option AnchorMind.Admin.ReviewDecisions.ReviewState)
  mentionTime : Option (Option Int)
  eventTime : Option (Option Int)

def applyUpdates (computeContentHash : String -> String) (updates : Updates) (row : Fragment) :
    Fragment :=
  { row with
    content := updates.content.getD row.content
    contentHash := (updates.content.map computeContentHash).or row.contentHash
    topic := updates.topic.getD row.topic
    type := updates.type.getD row.type
    isAnchor := updates.isAnchor.getD row.isAnchor
    resolutionStatus := updates.resolutionStatus.getD row.resolutionStatus
    phase := updates.phase.getD row.phase
    affect := (updates.affect.map sanitizeAffect).or row.affect
    reviewState := updates.reviewState.getD row.reviewState
    mentionTime := updates.mentionTime.getD row.mentionTime
    eventTime := updates.eventTime.getD row.eventTime }

inductive Write where
  | amend (updates : Updates)
  | normalizeAgent
  | promoteAnchors
  | approve (anchorApplied : Bool)
  | reject (now : Int)
  | close (now : Int) (deindexed : Bool)
  | updateCaseId (caseId : String)
  | mergeWorkspace (target : String)

def isPendingReview (row : Fragment) : Bool :=
  row.reviewState = some .pending && row.validTo = none

def Write.apply (computeContentHash : String -> String) (row : Fragment) :
    Write -> Option Fragment
  | .amend updates => some (applyUpdates computeContentHash updates row)
  | .normalizeAgent => some { row with agentId := some "default" }
  | .promoteAnchors =>
    if row.isAnchor = false /\ isReviewHeld row = false then some { row with isAnchor := true }
    else none
  | .approve anchorApplied =>
    if isPendingReview row then
      some { row with
        reviewState := some .approved
        isAnchor := row.isAnchor || anchorApplied }
    else none
  | .reject now =>
    if isPendingReview row then some { row with reviewState := some .rejected, validTo := some now }
    else none
  | .close now _ => if row.validTo = none then some { row with validTo := some now } else none
  | .updateCaseId caseId =>
    if row.validTo = none then some { row with caseId := some caseId } else none
  | .mergeWorkspace target => some { row with workspace := some target }

/-- The writers that delete the copy once the row is written. -/
def Write.evicts : Write -> Bool
  | .amend _ => true
  | .normalizeAgent => false
  | .promoteAnchors => false
  | .approve _ => true
  | .reject _ => true
  | .close _ deindexed => deindexed
  | .updateCaseId _ => false
  | .mergeWorkspace _ => true

structure Search where
  query : Query
  scope : SearchScope
  scope_of_query : SearchScope.fromQuery query = .ok scope
  fetched : List (Copy String Fragment)
  taken : Option (List (Copy String Fragment))

/-- `fills` are the copies on their way into the cache, and `evictions` the deletions that a
finished write still has to make. -/
structure State where
  fragments : Table String Fragment
  cache : CacheKey -> Option (Copy String Fragment)
  fills : List (CacheKey × Copy String Fragment)
  evictions : List CacheKey
  searches : Nat -> Option Search

def State.empty : State where
  fragments := .empty
  cache := fun _ => none
  fills := []
  evictions := []
  searches := fun _ => none

inductive Label where
  | insert (id : String) (row : Fragment)
  | remove (id : String)
  | write (id : String) (write : Write)
  | evict (place : Nat)
  | expire (key : CacheKey)
  | read (id : String) (keyId : Option (List String)) (hasKeyColumn : Bool)
  | fill (place : Nat)
  | search (call : Nat) (query : Query)
  | get (call : Nat) (owner : Option String) (id : String)
  | validate (call : Nat)
  | validationFails (call : Nat)
  | refill (call place : Nat) (hasKeyColumn : Bool)

def State.setSearch (state : State) (call : Nat) (search : Search) : State :=
  { state with searches := Function.update state.searches call (some search) }

def State.setCache (state : State) (key : CacheKey) (copy : Option (Copy String Fragment)) :
    State :=
  { state with cache := Function.update state.cache key copy }

def State.startFill (state : State) (keyId : Option (List String)) (hasKeyColumn : Bool)
    (copy : Copy String Fragment) : Option State :=
  (hotCacheOwner hasKeyColumn copy.value keyId).map fun owner =>
    { state with fills := state.fills ++ [({ owner := owner, id := copy.id }, copy)] }

def State.writeRow (computeContentHash : String -> String) (state : State) (id : String)
    (write : Write) : Option State :=
  (state.fragments.current id).bind fun row =>
    (write.apply computeContentHash row).map fun written =>
      { state with
        fragments := state.fragments.put id written
        evictions :=
          if write.evicts then state.evictions ++ [{ owner := row.keyId, id := id }]
          else state.evictions }

def State.startSearch (state : State) (call : Nat) (query : Query) : Option State :=
  match state.searches call, hscope : SearchScope.fromQuery query with
  | none, .ok scope => some (state.setSearch call
      { query := query, scope := scope, scope_of_query := hscope, fetched := [], taken := none })
  | _, _ => none

def State.openSearch (state : State) (call : Nat) : Option Search :=
  (state.searches call).filter fun search => search.taken.isNone

def State.get (state : State) (call : Nat) (owner : Option String) (id : String) : Option State :=
  (state.openSearch call).bind fun search =>
    if owner ∈ cacheNamespaces search.query then
      (state.cache { owner := owner, id := id }).map fun copy =>
        state.setSearch call { search with fetched := search.fetched ++ [copy] }
    else none

def State.validated (state : State) (search : Search) : List (Copy String Fragment) :=
  validateHotCacheFragments (getCacheValidation state.fragments search.query) (some search.scope)
    search.fetched

def step (computeContentHash : String -> String) (state : State) : Label -> Option State
  | .insert id row =>
    if state.fragments.current id = none then
      some { state with fragments := state.fragments.put id row }
    else none
  | .remove id => some { state with fragments := state.fragments.remove id }
  | .write id write => state.writeRow computeContentHash id write
  | .evict place =>
    state.evictions[place]?.map fun key =>
      { state.setCache key none with evictions := state.evictions.eraseIdx place }
  | .expire key => some (state.setCache key none)
  | .read id keyId hasKeyColumn =>
    (state.fragments.read id).bind fun copy => state.startFill keyId hasKeyColumn copy
  | .fill place =>
    state.fills[place]?.map fun fill =>
      { state.setCache fill.1 (some fill.2) with fills := state.fills.eraseIdx place }
  | .search call query => state.startSearch call query
  | .get call owner id => state.get call owner id
  | .validate call =>
    (state.openSearch call).map fun search =>
      state.setSearch call { search with taken := some (state.validated search) }
  | .validationFails call =>
    (state.openSearch call).map fun search => state.setSearch call { search with taken := some [] }
  | .refill call place hasKeyColumn =>
    (state.searches call).bind fun search =>
      ((search.taken.getD [])[place]?).bind fun copy =>
        state.startFill search.query.keyId hasKeyColumn copy

def hotCache (computeContentHash : String -> String) : System State Label where
  start := fun state => state = .empty
  step := fun before label after => step computeContentHash before label = some after

end AnchorMind.Recall.HotCache

/-!
# What a search takes from the hot cache

Every copy is a version its row has had.  A copy passes the filters of a query, so the row
passes them too unless a write since the copy was read took it out of them; the comparison of
versions does not see a write that leaves the content, the review state and the end of
validity as they are.
-/

namespace AnchorMind.Recall.HotCache

open Kernel.Transition Kernel.VersionedCopies Recall.Scopes List

variable {copy : Copy String Fragment}

theorem mem_validateHotCacheFragments {metadata : String -> Option Fragment} {scope : SearchScope}
    {fetched : List (Copy String Fragment)}
    (hmem : copy ∈ validateHotCacheFragments metadata (some scope) fetched) :
    copy ∈ fetched /\ passesValidation metadata copy = true /\
      scope.applyTo copy.value = true := by
  simp only [validateHotCacheFragments] at hmem
  split at hmem
  · rename_i hnoop
    obtain ⟨hcandidate, hpasses⟩ := mem_filter.mp hmem
    exact ⟨mem_of_mem_filter hcandidate, hpasses, SearchScope.applyTo_of_isNoop hnoop _⟩
  · obtain ⟨hvalid, happly⟩ := mem_filter.mp hmem
    obtain ⟨hcandidate, hpasses⟩ := mem_filter.mp hvalid
    exact ⟨mem_of_mem_filter hcandidate, hpasses, happly⟩

variable {query : Query} {fragments : Table String Fragment}

theorem passesValidation_iff :
    passesValidation (getCacheValidation fragments query) copy = true <->
      ∃ row, fragments.current copy.id = some row /\ validationCondition query row = true /\
        sameVersion row copy.value = true := by
  simp [passesValidation, getCacheValidation, Option.any_eq_true]

theorem reviewVisibility_of_validation {row : Fragment}
    (hrow : validationCondition query row = true) : reviewVisibility query row = true := by
  simp only [validationCondition, Bool.and_eq_true] at hrow
  exact hrow.1.1.2

theorem live_of_validation {row : Fragment} (hrow : validationCondition query row = true) :
    liveOrClosedCondition query.includeSuperseded row = true := by
  simp only [validationCondition, Bool.and_eq_true] at hrow
  exact hrow.1.1.1.2

inductive State.Carries (state : State) (copy : Copy String Fragment) : Prop where
  | cached (key : CacheKey) (hcached : state.cache key = some copy)
  | filling (key : CacheKey) (hfill : (key, copy) ∈ state.fills)
  | fetched (call : Nat) (search : Search) (hsearch : state.searches call = some search)
      (hfetched : copy ∈ search.fetched)
  | taken (call : Nat) (search : Search) (hsearch : state.searches call = some search)
      (htaken : copy ∈ search.taken.getD [])

variable {state : State} {copy : Copy String Fragment}

theorem carries_of_setCache {key : CacheKey} {held : Option (Copy String Fragment)}
    (hcarries : (state.setCache key held).Carries copy) :
    state.Carries copy \/ held = some copy := by
  cases hcarries with
  | cached other hcached =>
    rcases Decidable.em (other = key) with rfl | hother
    · right
      simpa [State.setCache] using hcached
    · left
      exact .cached other (by simpa [State.setCache, Function.update_of_ne hother] using hcached)
  | filling other hfill => exact .inl (.filling other hfill)
  | fetched call search hsearch hfetched => exact .inl (.fetched call search hsearch hfetched)
  | taken call search hsearch htaken => exact .inl (.taken call search hsearch htaken)

variable {search : Search}

theorem carries_of_setSearch {call : Nat} (hcarries : (state.setSearch call search).Carries copy) :
    state.Carries copy \/ copy ∈ search.fetched \/ copy ∈ search.taken.getD [] := by
  have hsplit : ∀ other held, (state.setSearch call search).searches other = some held ->
      held = search \/ state.searches other = some held := by
    intro other held hheld
    rcases Decidable.em (other = call) with rfl | hother
    · left
      simpa [State.setSearch, eq_comm] using hheld
    · right
      simpa [State.setSearch, Function.update_of_ne hother] using hheld
  cases hcarries with
  | cached key hcached => exact .inl (.cached key hcached)
  | filling key hfill => exact .inl (.filling key hfill)
  | fetched other held hheld hfetched =>
    rcases hsplit other held hheld with rfl | hold
    · exact .inr (.inl hfetched)
    · exact .inl (.fetched other held hold hfetched)
  | taken other held hheld htaken =>
    rcases hsplit other held hheld with rfl | hold
    · exact .inr (.inr htaken)
    · exact .inl (.taken other held hold htaken)

variable {after : State} {filled : Copy String Fragment} {keyId : Option (List String)}
  {hasKeyColumn : Bool}

theorem carries_of_startFill (hfill : state.startFill keyId hasKeyColumn filled = some after)
    (hcarries : after.Carries copy) : state.Carries copy \/ copy = filled := by
  obtain ⟨owner, -, rfl⟩ := Option.map_eq_some_iff.mp hfill
  cases hcarries with
  | cached key hcached => exact .inl (.cached key hcached)
  | filling key hmem =>
    rcases mem_append.mp hmem with hold | hnew
    · exact .inl (.filling key hold)
    · cases mem_singleton.mp hnew
      exact .inr rfl
  | fetched call search hsearch hfetched => exact .inl (.fetched call search hsearch hfetched)
  | taken call search hsearch htaken => exact .inl (.taken call search hsearch htaken)

theorem carries_of_rows {evictions : List CacheKey}
    (hcarries : { state with fragments := fragments, evictions := evictions }.Carries copy) :
    state.Carries copy := by
  cases hcarries with
  | cached key hcached => exact .cached key hcached
  | filling key hfill => exact .filling key hfill
  | fetched call search hsearch hfetched => exact .fetched call search hsearch hfetched
  | taken call search hsearch htaken => exact .taken call search hsearch htaken

theorem carries_of_fewer_fills {fills : List (CacheKey × Copy String Fragment)}
    (hfewer : ∀ fill ∈ fills, fill ∈ state.fills)
    (hcarries : { state with fills := fills }.Carries copy) : state.Carries copy := by
  cases hcarries with
  | cached key hcached => exact .cached key hcached
  | filling key hfill => exact .filling key (hfewer _ hfill)
  | fetched call search hsearch hfetched => exact .fetched call search hsearch hfetched
  | taken call search hsearch htaken => exact .taken call search hsearch htaken

theorem searches_setSearch (call : Nat) (search : Search) :
    (state.setSearch call search).searches call = some search := by
  simp [State.setSearch]

theorem openSearch_eq_some {call : Nat} (hopen : state.openSearch call = some search) :
    state.searches call = some search :=
  (Option.filter_eq_some_iff.mp hopen).1

theorem mem_of_mem_validated (hmem : copy ∈ state.validated search) : copy ∈ search.fetched :=
  (mem_validateHotCacheFragments hmem).1

variable {computeContentHash : String -> String}

theorem carries_of_step {label : Label} (hstep : step computeContentHash state label = some after)
    (hcarries : after.Carries copy) :
    state.Carries copy \/ ∃ id, state.fragments.read id = some copy := by
  cases label with
  | insert id row =>
    simp only [step] at hstep
    split at hstep
    · cases hstep
      exact .inl (carries_of_rows hcarries)
    · cases hstep
  | remove id =>
    cases hstep
    exact .inl (carries_of_rows hcarries)
  | write id write =>
    obtain ⟨row, -, hwrite⟩ := Option.bind_eq_some_iff.mp hstep
    obtain ⟨written, -, rfl⟩ := Option.map_eq_some_iff.mp hwrite
    exact .inl (carries_of_rows hcarries)
  | evict place =>
    obtain ⟨key, -, rfl⟩ := Option.map_eq_some_iff.mp hstep
    rcases carries_of_setCache (carries_of_rows hcarries) with hold | hnone
    · exact .inl hold
    · cases hnone
  | expire key =>
    cases hstep
    rcases carries_of_setCache hcarries with hold | hnone
    · exact .inl hold
    · cases hnone
  | read id keyId hasKeyColumn =>
    obtain ⟨filled, hread, hfill⟩ := Option.bind_eq_some_iff.mp hstep
    rcases carries_of_startFill hfill hcarries with hold | rfl
    · exact .inl hold
    · exact .inr ⟨id, hread⟩
  | fill place =>
    obtain ⟨fill, hfill, rfl⟩ := Option.map_eq_some_iff.mp hstep
    have hfewer : ∀ other ∈ state.fills.eraseIdx place, other ∈ state.fills :=
      fun _ hmem => mem_of_mem_eraseIdx hmem
    left
    rcases carries_of_setCache (carries_of_fewer_fills hfewer hcarries) with hold | hnew
    · exact hold
    · cases hnew
      exact .filling fill.1 (mem_of_getElem? hfill)
  | search call query =>
    simp only [step, State.startSearch] at hstep
    split at hstep
    · cases hstep
      rcases carries_of_setSearch hcarries with hold | hnone | hnone
      · exact .inl hold
      · cases hnone
      · cases hnone
    · cases hstep
  | get call owner id =>
    obtain ⟨search, hopen, hget⟩ := Option.bind_eq_some_iff.mp hstep
    have hsearch := openSearch_eq_some hopen
    split at hget
    · obtain ⟨found, hfound, rfl⟩ := Option.map_eq_some_iff.mp hget
      left
      rcases carries_of_setSearch hcarries with hold | hfetched | htaken
      · exact hold
      · rcases mem_append.mp hfetched with hold | hnew
        · exact .fetched call search hsearch hold
        · cases mem_singleton.mp hnew
          exact .cached _ hfound
      · exact .taken call search hsearch htaken
    · cases hget
  | validate call =>
    obtain ⟨search, hopen, rfl⟩ := Option.map_eq_some_iff.mp hstep
    have hsearch := openSearch_eq_some hopen
    left
    rcases carries_of_setSearch hcarries with hold | hfetched | htaken
    · exact hold
    · exact .fetched call search hsearch hfetched
    · exact .fetched call search hsearch (mem_of_mem_validated htaken)
  | validationFails call =>
    obtain ⟨search, hopen, rfl⟩ := Option.map_eq_some_iff.mp hstep
    have hsearch := openSearch_eq_some hopen
    left
    rcases carries_of_setSearch hcarries with hold | hfetched | hnone
    · exact hold
    · exact .fetched call search hsearch hfetched
    · cases hnone
  | refill call place hasKeyColumn =>
    obtain ⟨search, hsearch, hplace⟩ := Option.bind_eq_some_iff.mp hstep
    obtain ⟨filled, hfilled, hfill⟩ := Option.bind_eq_some_iff.mp hplace
    left
    rcases carries_of_startFill hfill hcarries with hold | rfl
    · exact hold
    · exact .taken call search hsearch (mem_of_getElem? hfilled)

theorem carries_empty : ¬ State.empty.Carries copy := by
  rintro (⟨key, hcached⟩ | ⟨key, hfill⟩ | ⟨call, search, hsearch, -⟩ | ⟨call, search, hsearch, -⟩)
  · cases hcached
  · cases hfill
  · cases hsearch
  · cases hsearch

theorem fragments_of_startFill (hfill : state.startFill keyId hasKeyColumn filled = some after) :
    after.fragments = state.fragments := by
  obtain ⟨owner, -, rfl⟩ := Option.map_eq_some_iff.mp hfill
  rfl

theorem holds_of_step {label : Label} (hstep : step computeContentHash state label = some after)
    (hholds : state.fragments.Holds copy) : after.fragments.Holds copy := by
  cases label with
  | insert id row =>
    simp only [step] at hstep
    split at hstep
    · cases hstep
      exact hholds.put id row
    · cases hstep
  | remove id =>
    cases hstep
    exact hholds.remove id
  | write id write =>
    obtain ⟨row, -, hwrite⟩ := Option.bind_eq_some_iff.mp hstep
    obtain ⟨written, -, rfl⟩ := Option.map_eq_some_iff.mp hwrite
    exact hholds.put id written
  | evict place =>
    obtain ⟨key, -, rfl⟩ := Option.map_eq_some_iff.mp hstep
    exact hholds
  | expire key =>
    cases hstep
    exact hholds
  | read id keyId hasKeyColumn =>
    obtain ⟨filled, -, hfill⟩ := Option.bind_eq_some_iff.mp hstep
    rw [fragments_of_startFill hfill]
    exact hholds
  | fill place =>
    obtain ⟨fill, -, rfl⟩ := Option.map_eq_some_iff.mp hstep
    exact hholds
  | search call query =>
    simp only [step, State.startSearch] at hstep
    split at hstep
    · cases hstep
      exact hholds
    · cases hstep
  | get call owner id =>
    obtain ⟨search, -, hget⟩ := Option.bind_eq_some_iff.mp hstep
    split at hget
    · obtain ⟨found, -, rfl⟩ := Option.map_eq_some_iff.mp hget
      exact hholds
    · cases hget
  | validate call =>
    obtain ⟨search, -, rfl⟩ := Option.map_eq_some_iff.mp hstep
    exact hholds
  | validationFails call =>
    obtain ⟨search, -, rfl⟩ := Option.map_eq_some_iff.mp hstep
    exact hholds
  | refill call place hasKeyColumn =>
    obtain ⟨search, -, hplace⟩ := Option.bind_eq_some_iff.mp hstep
    obtain ⟨filled, -, hfill⟩ := Option.bind_eq_some_iff.mp hplace
    rw [fragments_of_startFill hfill]
    exact hholds

/-- Whatever was written, evicted and filled in whichever order, each copy is a version that its
row has had. -/
theorem carried_copies_are_versions (hreach : (hotCache computeContentHash).Reachable state) :
    ∀ copy, state.Carries copy -> state.fragments.Holds copy := by
  have hstart : ∀ origin, (hotCache computeContentHash).start origin ->
      ∀ copy, origin.Carries copy -> origin.fragments.Holds copy := by
    rintro origin rfl copy hcarries
    exact absurd hcarries carries_empty
  have hkeep : ∀ before label after, (hotCache computeContentHash).Reachable before ->
      (∀ copy, before.Carries copy -> before.fragments.Holds copy) ->
      (hotCache computeContentHash).step before label after ->
      ∀ copy, after.Carries copy -> after.fragments.Holds copy := by
    intro before label after _ hinv hstep copy hcarries
    rcases carries_of_step hstep hcarries with hold | ⟨id, hread⟩
    · exact holds_of_step hstep (hinv copy hold)
    · exact holds_of_step hstep (Table.holds_of_read hread)
  exact hreach.invariant hstart hkeep

/-- The database shows the row to the search, and the comparison does not see that the copy is
an older version. -/
def State.Unnoticed (state : State) (search : Search) (copy : Copy String Fragment) : Prop :=
  passesValidation (getCacheValidation state.fragments search.query) copy = true

instance (state : State) (search : Search) (copy : Copy String Fragment) :
    Decidable (state.Unnoticed search copy) :=
  inferInstanceAs (Decidable (_ = true))

/-- When a search validates its copies, no write since one of them was read took the row out of
the filters of the search without the comparison seeing it. -/
def StaysInside (before : State) : Label -> Prop
  | .validate call => ∀ search ∈ before.searches call,
      ∀ copy ∈ search.fetched, before.Unnoticed search copy ->
        before.fragments.Kept (Filters search.query) copy
  | _ => True

instance (before : State) (label : Label) : Decidable (StaysInside before label) := by
  cases label <;> simp only [StaysInside] <;> infer_instance

def TakesWhatMeets (before after : State) (call : Nat) : Prop :=
  ∀ search taken, after.searches call = some search -> search.taken = some taken ->
    ∀ copy ∈ taken, ∃ row, before.fragments.current copy.id = some row /\
      Meets search.query row

theorem taken_fragments_meet_query {computeContentHash : String -> String} {before after : State}
    {call : Nat} (hreach : ((hotCache computeContentHash).restrict StaysInside).Reachable before)
    (hstep : ((hotCache computeContentHash).restrict StaysInside).step before (.validate call)
      after) : TakesWhatMeets before after call := by
  intro search taken hsearch htaken copy hcopy
  obtain ⟨hvalidate, hinside⟩ := hstep
  obtain ⟨opened, hopen, rfl⟩ := Option.map_eq_some_iff.mp hvalidate
  have hopened := openSearch_eq_some hopen
  rw [searches_setSearch] at hsearch
  cases hsearch
  cases htaken
  obtain ⟨hfetched, hpasses, happly⟩ := mem_validateHotCacheFragments hcopy
  obtain ⟨row, hcurrent, hrow, -⟩ := passesValidation_iff.mp hpasses
  have hholds : before.fragments.Holds copy :=
    carried_copies_are_versions hreach.ofRestrict copy (.fetched call opened hopened hfetched)
  have hkept : before.fragments.Kept (Filters opened.query) copy :=
    hinside opened hopened copy hfetched hpasses
  have hcopyFilters : Filters opened.query copy.value :=
    (SearchScope.applyTo_iff_filters opened.scope_of_query).mp happly
  have hrowFilters : Filters opened.query row :=
    hholds.current_of_kept hkept hcopyFilters hcurrent
  exact ⟨row, hcurrent, meets_of hrowFilters (reviewVisibility_of_validation hrow)
    (live_of_validation hrow)⟩

def plainRow : Fragment where
  content := "the port is 5432"
  contentHash := some "h1"
  keyId := some "k1"
  agentId := some "default"
  workspace := none
  source := none
  type := "fact"
  topic := "database"
  caseId := none
  resolutionStatus := none
  phase := none
  affect := some "neutral"
  isAnchor := false
  reviewState := none
  validTo := none
  createdAt := some 0
  mentionTime := none
  eventTime := none

def plainQuery : Query where
  agentId := "default"
  isMaster := false
  includePeerAgents := false
  keyId := some ["k1"]
  viewerKeyId := some (.key (some "k1"))
  workspace := none
  allWorkspaces := false
  readRange := none
  includeSuperseded := false
  type := some "fact"
  topic := none
  caseId := none
  resolutionStatus := none
  phase := none
  affect := none
  isAnchor := some false
  timeRange := none

/-- A recall reads the row, `written` happens to it, and only then the copy reaches the cache,
where a search finds it. -/
def lateFill (written : List Write) : List Label :=
  [.insert "f1" plainRow, .read "f1" (some ["k1"]) true] ++ written.map (.write "f1") ++
    [.fill 0, .search 0 plainQuery, .get 0 (some "k1") "f1"]

def keepHash (content : String) : String := content

def takenIds (state : State) (call : Nat) : Option (List String) :=
  (state.searches call).bind fun search => search.taken.map fun taken => taken.map Copy.id

theorem assigned_case_is_harmless : ∃ before after,
    ((hotCache keepHash).restrict StaysInside).Reachable before /\
      takenIds after 0 = some ["f1"] /\ TakesWhatMeets before after 0 := by
  let guarded := fun (before : State) (label : Label) =>
    if StaysInside before label then step keepHash before label else none
  have hrun : (System.follow guarded .empty (lateFill [.updateCaseId "c1"])).bind
      (fun before => (guarded before (.validate 0)).map fun after => takenIds after 0) =
        some (some ["f1"]) := by decide +kernel
  obtain ⟨before, hfollow, hvalidate⟩ := Option.bind_eq_some_iff.mp hrun
  obtain ⟨after, hguarded, htaken⟩ := Option.map_eq_some_iff.mp hvalidate
  have hreach : ((hotCache keepHash).restrict StaysInside).Reachable before :=
    ⟨.empty, _, rfl, .of_follow_restrict (fun _ _ _ hstep => hstep) hfollow⟩
  obtain ⟨hinside, hstep⟩ := Option.ite_none_right_eq_some.mp hguarded
  exact ⟨before, after, hreach, htaken, taken_fragments_meet_query hreach ⟨hstep, hinside⟩⟩

/-- The row becomes an anchor before its copy reaches the cache, and the copy is still taken. -/
theorem promoted_anchor_is_taken : ∃ before after,
    (hotCache keepHash).Reachable before /\
      (hotCache keepHash).step before (.validate 0) after /\ ¬ TakesWhatMeets before after 0 := by
  have hrun : (System.follow (step keepHash) .empty (lateFill [.promoteAnchors])).bind
      (fun before => (step keepHash before (.validate 0)).map fun after =>
        (takenIds after 0, (after.searches 0).map fun search => search.query.isAnchor,
          (before.fragments.current "f1").map Fragment.isAnchor)) =
        some (some ["f1"], some (some false), some true) := by decide +kernel
  obtain ⟨before, hfollow, hvalidate⟩ := Option.bind_eq_some_iff.mp hrun
  obtain ⟨after, hstep, hresult⟩ := Option.map_eq_some_iff.mp hvalidate
  simp only [Prod.mk.injEq] at hresult
  obtain ⟨hids, hquery, hanchor⟩ := hresult
  refine ⟨before, after, ⟨.empty, _, rfl, .of_follow (fun _ _ _ hstep => hstep) hfollow⟩, hstep,
    fun hmeets => ?_⟩
  obtain ⟨search, hsearch, htakenIds⟩ := Option.bind_eq_some_iff.mp hids
  obtain ⟨taken, htaken, hmap⟩ := Option.map_eq_some_iff.mp htakenIds
  have hmem : "f1" ∈ taken.map Copy.id := hmap ▸ mem_singleton_self "f1"
  obtain ⟨copy, hcopy, hid⟩ := mem_map.mp hmem
  obtain ⟨row, hcurrent, hrow⟩ := hmeets search taken hsearch htaken copy hcopy
  rw [hsearch, Option.map_some, Option.some_inj] at hquery
  have hplain : row.isAnchor = false := hrow.filters.isAnchor false hquery
  rw [← hid, hcurrent, Option.map_some, hplain] at hanchor
  cases hanchor

end AnchorMind.Recall.HotCache
