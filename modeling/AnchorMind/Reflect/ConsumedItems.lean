import AnchorMind.Reflect.ReflectGroups

/-!
# Which working-memory items a reflection may evict

A reflection evicts the items of a group when no write of the group failed in a way it
recognises.  Whether their text was written depends on more: the caller's fields replace
those of the session, texts that are not self-contained are dropped, and some failures
that a retry can change are not recognised.
-/

namespace AnchorMind.Reflect.ReflectGroups

open Link.SessionGroups List

namespace Call

variable (call : Call)

def keyed : List (String × SessionGroup) :=
  match truthy call.params.sessionId with
  | none => []
  | some sessionId => keyedGroups sessionId call.rows call.scopedItems

def primary : Option Nat := primaryIdx call.params (call.keyed.map Prod.snd)

def resolvedAt (i : Nat) (group : SessionGroup) : ReflectGroup :=
  resolveGroup call.params (call.primary == some i) group

/-- What is handed to the write step when every fragment can be made. -/
def items : List WriteItem :=
  (allRequests call.mask call.params call.groups).map (Request.item call.mask)

structure Completes : Prop where
  scope : call.scopeResolves = true
  pieces : (call.groups.all fun group => splitAccepted group.givenSummary) = true
  fragments : (allRequests call.mask call.params call.groups).all Request.accepted = true
  persists : call.persists call.items = true
  later : call.laterReturns = true

def Handed (i : Nat) (group : SessionGroup) (text : String) : Place -> Prop
  | .list field =>
    (categoryRequest call.params (call.resolvedAt i group) i field text).item call.mask ∈
      call.items
  | .summary =>
    ∀ summary, group.summary = some summary ->
      ∀ content ∈ summaryContents call.mask (.text summary),
        (summaryRequest call.params (call.resolvedAt i group) i content).item call.mask ∈
          call.items

def Survives (i : Nat) (group : SessionGroup) (text : String) : Place -> Prop
  | .list field =>
    ∃ used ∈ (call.resolvedAt i group).lists field,
      isSelfContainedReflectItem used = true /\
      madeContent call.mask (categoryContent field used) (spec field).type =
        madeContent call.mask (categoryContent field text) (spec field).type
  | .summary =>
    ∀ summary, group.summary = some summary ->
      ∀ content ∈ summaryContents call.mask (.text summary),
        ∃ given used, (call.resolvedAt i group).givenSummary = some given /\
          used ∈ summaryContents call.mask given /\
          madeContent call.mask used "fact" = madeContent call.mask content "fact"

def NoneOf (i : Nat) (bad : Outcome -> Bool) : Prop :=
  ∀ n item, call.items[n]? = some item -> item.groupIndex = i -> bad (call.outcomes n) = false

def keyOf (item : WmItem) : String := (itemEntry call.rows item).key

structure Accounted (item : WmItem) : Prop where
  inOwnScope : inScope call.params.effectiveAgentId call.params.keyId item = true
  written : ∃ i group, call.keyed[i]? = some (call.keyOf item, group) /\
    (∀ place text, derived call.rows item = some (place, text) ->
      call.Handed i group text place) /\
    call.NoneOf i Outcome.retryable

/-- Only items whose text was handed to the writes of their group are evicted, and only when
each of these writes succeeded or was refused for good. -/
def EvictsOnlyWritten : Prop :=
  ∀ item ∈ call.workingMemory, ∀ id, truthy item.id = some id ->
    id ∈ call.evictedIds -> call.Accounted item

/-- The condition on the arguments and the outcomes of the writes. -/
def LosesNothing : Prop :=
  call.Completes -> ∀ item ∈ call.workingMemory, ∀ id, truthy item.id = some id ->
    (∃ i entry, call.keyed[i]? = some entry /\ id ∈ entry.2.wmItemIds /\
      call.NoneOf i (marks call.batch)) ->
    inScope call.params.effectiveAgentId call.params.keyId item = true /\
      ∀ i group, call.keyed[i]? = some (call.keyOf item, group) ->
        (∀ place text, derived call.rows item = some (place, text) ->
          call.Survives i group text place) /\
        call.NoneOf i Outcome.retryable

theorem sessionGroups_eq :
    call.sessionGroups = if call.keyed = [] then none else some (call.keyed.map Prod.snd) := by
  unfold sessionGroups keyed
  cases truthy call.params.sessionId with
  | none => rfl
  | some sessionId =>
    simp only [Option.bind_some, consolidateSessionFragments]
    split
    · rename_i hempty
      rw [Bool.and_eq_true, List.isEmpty_iff, List.isEmpty_iff] at hempty
      have hnone : keyedGroups sessionId call.rows call.scopedItems = [] := by
        rw [hempty.1, hempty.2]
        rfl
      rw [if_pos hnone]
    · rw [isEmpty_map]
      by_cases hnone : keyedGroups sessionId call.rows call.scopedItems = []
      · rw [if_pos hnone, hnone]
        rfl
      · rw [if_neg hnone, if_neg (by rw [List.isEmpty_iff]; exact hnone)]

theorem groups_getElem? {i : Nat} {entry : String × SessionGroup}
    (hentry : call.keyed[i]? = some entry) :
    call.groups[i]? = some (call.resolvedAt i entry.2) := by
  have hne : call.keyed ≠ [] := by
    intro hnil
    rw [hnil] at hentry
    cases hentry
  have hget : (call.keyed.map Prod.snd)[i]? = some entry.2 := by
    rw [getElem?_map, hentry]
    rfl
  have hresolved : ((call.keyed.map Prod.snd).mapIdx fun i group =>
      resolveGroup call.params (primaryIdx call.params (call.keyed.map Prod.snd) == some i)
        group)[i]? = some (call.resolvedAt i entry.2) := by
    rw [getElem?_mapIdx, hget]
    rfl
  unfold groups
  rw [sessionGroups_eq, if_neg hne]
  cases hgroups : call.keyed.map Prod.snd with
  | nil => exact absurd (map_eq_nil_iff.mp hgroups) hne
  | cons first rest =>
    simp only [resolveGroups]
    rw [← hgroups]
    split
    · rw [List.getElem?_append_left (List.getElem?_eq_some_iff.mp hresolved).1]
      exact hresolved
    · exact hresolved

end Call

variable {mask : String -> String} {params : Params} {group : ReflectGroup} {i : Nat}
  {field : ListField} {used : String}

theorem categoryRequest_mem (hused : used ∈ group.lists field)
    (hself : isSelfContainedReflectItem used = true) :
    categoryRequest params group i field used ∈ groupRequests mask params i group := by
  unfold groupRequests
  refine mem_append_left _ (mem_append_right _ (mem_flatMap.mpr ⟨field, ?_, ?_⟩))
  · cases field <;> simp [reflectCategories]
  · exact mem_map_of_mem (mem_filter.mpr ⟨hused, hself⟩)

variable {text : String}

theorem categoryRequest_item_eq
    (hcontent : madeContent mask (categoryContent field used) (spec field).type =
      madeContent mask (categoryContent field text) (spec field).type) :
    (categoryRequest params group i field used).item mask =
      (categoryRequest params group i field text).item mask := by
  unfold categoryRequest baseRequest Request.item
  simp only [hcontent]

theorem summaryRequest_mem {given : Summary} (hgiven : group.givenSummary = some given)
    (hused : used ∈ summaryContents mask given) :
    summaryRequest params group i used ∈ groupRequests mask params i group := by
  unfold groupRequests buildSummaryItems
  rw [hgiven]
  exact mem_append_left _ (mem_append_left _ (mem_map_of_mem hused))

theorem summaryRequest_item_eq {content : String}
    (hcontent : madeContent mask used "fact" = madeContent mask content "fact") :
    (summaryRequest params group i used).item mask =
      (summaryRequest params group i content).item mask := by
  unfold summaryRequest baseRequest Request.item
  simp only [hcontent]

theorem field_eq_of_spec {other : ListField} (hbucket : (spec other).bucket = (spec field).bucket)
    (hstatus : (spec other).resolutionStatus = (spec field).resolutionStatus) : other = field := by
  cases other <;> cases field <;>
    first
    | rfl
    | exact absurd hbucket (by decide)
    | exact absurd hstatus (by decide)

theorem bucket_ne_summary (field : ListField) : (spec field).bucket ≠ "summary" := by
  cases field <;> decide

theorem bucket_ne_lessons (field : ListField) : (spec field).bucket ≠ "lessons" := by
  cases field <;> decide

variable {request : Request}

theorem mem_groupRequests (hrequest : request ∈ groupRequests mask params i group) :
    (∃ given used, group.givenSummary = some given /\ used ∈ summaryContents mask given /\
      summaryRequest params group i used = request) \/
    (∃ field used, used ∈ group.lists field /\ isSelfContainedReflectItem used = true /\
      categoryRequest params group i field used = request) \/
    (∃ lesson, lessonRequest params group i lesson = request) := by
  unfold groupRequests at hrequest
  rcases mem_append.mp hrequest with hrequest | hlesson
  · rcases mem_append.mp hrequest with hsummary | hcategory
    · left
      unfold buildSummaryItems at hsummary
      cases hgiven : group.givenSummary with
      | none =>
        rw [hgiven] at hsummary
        cases hsummary
      | some given =>
        rw [hgiven] at hsummary
        obtain ⟨used, hused, rfl⟩ := mem_map.mp hsummary
        exact ⟨given, used, rfl, hused, rfl⟩
    · right
      left
      obtain ⟨field, -, hmem⟩ := mem_flatMap.mp hcategory
      obtain ⟨used, hused, rfl⟩ := mem_map.mp hmem
      obtain ⟨hlist, hself⟩ := mem_filter.mp hused
      exact ⟨field, used, hlist, hself, rfl⟩
  · right
    right
    obtain ⟨lesson, -, rfl⟩ := mem_map.mp hlesson
    exact ⟨lesson, rfl⟩

variable {session : ReflectGroup}

theorem groupRequests_category {j : Nat} (hrequest : request ∈ groupRequests mask params j group)
    (hitem : request.item mask = (categoryRequest params session i field text).item mask) :
    j = i /\ ∃ used ∈ group.lists field, isSelfContainedReflectItem used = true /\
      madeContent mask (categoryContent field used) (spec field).type =
        madeContent mask (categoryContent field text) (spec field).type := by
  have hcategory : request.category = (spec field).bucket := congrArg WriteItem.category hitem
  have hindex : request.groupIndex = i := congrArg WriteItem.groupIndex hitem
  have hstatus : request.resolutionStatus = (spec field).resolutionStatus :=
    congrArg (fun item : WriteItem => item.fragment.resolutionStatus) hitem
  have hcontent : madeContent mask request.content request.type =
      madeContent mask (categoryContent field text) (spec field).type :=
    congrArg (fun item : WriteItem => item.fragment.content) hitem
  rcases mem_groupRequests hrequest with ⟨_, _, -, -, rfl⟩ | ⟨other, used, hused, hself, rfl⟩ |
      ⟨_, rfl⟩
  · exact absurd hcategory.symm (bucket_ne_summary field)
  · obtain rfl := field_eq_of_spec hcategory hstatus
    exact ⟨hindex, used, hused, hself, hcontent⟩
  · exact absurd hcategory.symm (bucket_ne_lessons field)

theorem groupRequests_summary {j : Nat} {content : String}
    (hrequest : request ∈ groupRequests mask params j group)
    (hitem : request.item mask = (summaryRequest params session i content).item mask) :
    j = i /\ ∃ given used, group.givenSummary = some given /\
      used ∈ summaryContents mask given /\
      madeContent mask used "fact" = madeContent mask content "fact" := by
  have hcategory : request.category = "summary" := congrArg WriteItem.category hitem
  have hindex : request.groupIndex = i := congrArg WriteItem.groupIndex hitem
  have hcontent : madeContent mask request.content request.type =
      madeContent mask content "fact" :=
    congrArg (fun item : WriteItem => item.fragment.content) hitem
  rcases mem_groupRequests hrequest with ⟨given, used, hgiven, hused, rfl⟩ | ⟨field, _, -, -, rfl⟩ |
      ⟨_, rfl⟩
  · exact ⟨hindex, given, used, hgiven, hused, hcontent⟩
  · exact absurd hcategory (bucket_ne_summary field)
  · exact absurd hcategory (by decide : "lessons" ≠ "summary")

namespace Call

variable (call : Call)

theorem mem_items {item : WriteItem} :
    item ∈ call.items <->
      ∃ i group request, call.groups[i]? = some group /\
        request ∈ groupRequests call.mask call.params i group /\
        request.item call.mask = item := by
  unfold items allRequests
  rw [mem_map]
  constructor
  · rintro ⟨request, hrequest, rfl⟩
    obtain ⟨requests, hrequests, hmem⟩ := mem_flatten.mp hrequest
    obtain ⟨i, hi, rfl⟩ := mem_mapIdx.mp hrequests
    exact ⟨i, _, request, getElem?_eq_getElem hi, hmem, rfl⟩
  · rintro ⟨i, group, request, hgroup, hmem, rfl⟩
    obtain ⟨hi, rfl⟩ := List.getElem?_eq_some_iff.mp hgroup
    exact ⟨request, mem_flatten.mpr ⟨_, mem_mapIdx.mpr ⟨i, hi, rfl⟩, hmem⟩, rfl⟩

variable {entry : String × SessionGroup}

section

variable (hentry : call.keyed[i]? = some entry)
include hentry

theorem category_handed_iff (field : ListField) (text : String) :
    call.Handed i entry.2 text (.list field) <-> call.Survives i entry.2 text (.list field) := by
  have hgroup := call.groups_getElem? hentry
  simp only [Handed, Survives, mem_items]
  constructor
  · rintro ⟨j, group, request, hj, hrequest, hitem⟩
    obtain ⟨hindex, hmade⟩ := groupRequests_category hrequest hitem
    subst hindex
    rw [hgroup] at hj
    cases hj
    exact hmade
  · rintro ⟨used, hused, hself, hcontent⟩
    refine ⟨i, _, categoryRequest call.params (call.resolvedAt i entry.2) i field used, hgroup,
      ?_, ?_⟩
    · exact categoryRequest_mem hused hself
    · exact categoryRequest_item_eq hcontent

theorem summary_handed_iff (text : String) :
    call.Handed i entry.2 text .summary <-> call.Survives i entry.2 text .summary := by
  have hgroup := call.groups_getElem? hentry
  simp only [Handed, Survives, mem_items]
  refine forall_congr' fun summary => forall_congr' fun _ => forall_congr' fun content =>
    forall_congr' fun _ => ?_
  constructor
  · rintro ⟨j, group, request, hj, hrequest, hitem⟩
    obtain ⟨hindex, hmade⟩ := groupRequests_summary hrequest hitem
    subst hindex
    rw [hgroup] at hj
    cases hj
    exact hmade
  · rintro ⟨given, used, hgiven, hused, hcontent⟩
    refine ⟨i, _, summaryRequest call.params (call.resolvedAt i entry.2) i used, hgroup, ?_, ?_⟩
    · exact summaryRequest_mem hgiven hused
    · exact summaryRequest_item_eq hcontent

theorem handed_iff (text : String) (place : Place) :
    call.Handed i entry.2 text place <-> call.Survives i entry.2 text place := by
  cases place with
  | summary => exact call.summary_handed_iff hentry text
  | list field => exact call.category_handed_iff hentry field text

end

theorem content_of_handed {group : SessionGroup} {field : ListField}
    (hhanded : call.Handed i group text (.list field)) :
    ∃ item ∈ call.items,
      item.fragment.content =
        madeContent call.mask (categoryContent field text) (spec field).type :=
  ⟨_, hhanded, rfl⟩

theorem process_eq_some_iff {ids : List String} :
    call.process = some ids <->
      call.Completes /\ ids = call.consumed (call.retryGroups call.items) := by
  unfold process
  constructor
  · intro hprocess
    split at hprocess
    · rename_i hscope
      obtain ⟨made, hmade, hrest⟩ := Option.bind_eq_some_iff.mp hprocess
      unfold collectFragmentItems at hmade
      split at hmade
      · rename_i haccepted
        obtain ⟨hpieces, hfragments⟩ := Bool.and_eq_true_iff.mp haccepted
        cases hmade
        split at hrest
        · rename_i hreturns
          obtain ⟨hpersists, hlater⟩ := Bool.and_eq_true_iff.mp hreturns
          exact ⟨⟨hscope, hpieces, hfragments, hpersists, hlater⟩, (Option.some.inj hrest).symm⟩
        · cases hrest
      · cases hmade
    · cases hprocess
  · rintro ⟨hcompletes, rfl⟩
    rw [if_pos hcompletes.scope, collectFragmentItems,
      if_pos (Bool.and_eq_true_iff.mpr ⟨hcompletes.pieces, hcompletes.fragments⟩)]
    exact if_pos (Bool.and_eq_true_iff.mpr ⟨hcompletes.persists, hcompletes.later⟩)

theorem notMem_retryGroups :
    i ∉ call.retryGroups call.items <-> call.NoneOf i (marks call.batch) := by
  unfold retryGroups NoneOf
  simp only [mem_map, mem_filter, Prod.exists, not_exists, not_and]
  constructor
  · intro hnot n item hget hindex
    cases hmarks : marks call.batch (call.outcomes n) with
    | false => rfl
    | true => exact absurd hindex (hnot item n ⟨mk_mem_zipIdx_iff_getElem?.mpr hget, hmarks⟩)
  · rintro hnone item n ⟨hplace, hmarks⟩ hindex
    have hget := mk_mem_zipIdx_iff_getElem?.mp hplace
    rw [hnone n item hget hindex] at hmarks
    cases hmarks

variable {id : String}

theorem mem_consumed :
    id ∈ call.consumed (call.retryGroups call.items) <->
      ∃ i entry, call.keyed[i]? = some entry /\ id ∈ entry.2.wmItemIds /\
        call.NoneOf i (marks call.batch) := by
  unfold consumed
  rw [sessionGroups_eq]
  by_cases hnil : call.keyed = []
  · rw [if_pos hnil, hnil]
    simp
  · rw [if_neg hnil]
    simp only [mem_eraseDups, mem_flatMap, mem_filter, Prod.exists,
      mk_mem_zipIdx_iff_getElem?, getElem?_map, Option.map_eq_some_iff,
      Bool.not_eq_true', contains_eq_mem, decide_eq_false_iff_not, notMem_retryGroups]
    constructor
    · rintro ⟨_, i, ⟨⟨key, group, hentry, rfl⟩, hnone⟩, hid⟩
      exact ⟨i, key, group, hentry, hid, hnone⟩
    · rintro ⟨i, key, group, hentry, hid, hnone⟩
      exact ⟨group, i, ⟨⟨key, group, hentry, rfl⟩, hnone⟩, hid⟩

theorem mem_evictedIds :
    id ∈ call.evictedIds <->
      call.Completes /\ ∃ i entry, call.keyed[i]? = some entry /\ id ∈ entry.2.wmItemIds /\
        call.NoneOf i (marks call.batch) := by
  unfold evictedIds
  cases hprocess : call.process with
  | none =>
    constructor
    · intro hmem
      cases hmem
    · rintro ⟨hcompletes, -⟩
      rw [call.process_eq_some_iff.mpr ⟨hcompletes, rfl⟩] at hprocess
      cases hprocess
  | some ids =>
    obtain ⟨hcompletes, rfl⟩ := call.process_eq_some_iff.mp hprocess
    rw [Option.getD_some, mem_consumed]
    exact ⟨fun hmem => ⟨hcompletes, hmem⟩, And.right⟩

theorem exists_group {item : WmItem} (hitem : item ∈ call.workingMemory)
    (hid : truthy item.id = some id)
    (hscope : inScope call.params.effectiveAgentId call.params.keyId item = true)
    (hsession : call.keyed ≠ []) :
    ∃ (i : Nat) (group : SessionGroup),
      call.keyed[i]? = some (call.keyOf item, group) := by
  unfold keyed at hsession ⊢
  cases hname : truthy call.params.sessionId with
  | none =>
    rw [hname] at hsession
    exact absurd rfl hsession
  | some sessionId =>
    have hscoped : item ∈ call.scopedItems := mem_filter.mpr ⟨hitem, hscope⟩
    obtain ⟨group, hgroup, -⟩ :=
      exists_group_of_item sessionId call.rows hscoped hid
    obtain ⟨i, hi⟩ := mem_iff_getElem?.mp hgroup
    exact ⟨i, group, hi⟩

theorem keyed_keysNodup : (call.keyed.map Prod.fst).Nodup := by
  unfold keyed
  cases truthy call.params.sessionId with
  | none => exact nodup_nil
  | some sessionId => exact keyedGroups_keysNodup sessionId call.rows call.scopedItems

theorem keyed_place_unique {j : Nat} {key : String} {group group' : SessionGroup}
    (hi : call.keyed[i]? = some (key, group)) (hj : call.keyed[j]? = some (key, group')) :
    i = j /\ group = group' := by
  have hki : (call.keyed.map Prod.fst)[i]? = some key := by
    rw [getElem?_map, hi]
    rfl
  have hkj : (call.keyed.map Prod.fst)[j]? = some key := by
    rw [getElem?_map, hj]
    rfl
  obtain ⟨hilt, -⟩ := List.getElem?_eq_some_iff.mp hki
  have hsame : i = j := (getElem?_inj hilt call.keyed_keysNodup).mp (hki.trans hkj.symm)
  subst hsame
  rw [hi] at hj
  exact ⟨rfl, (Prod.mk.inj (Option.some.inj hj)).2⟩

/-- The eviction loses nothing exactly when, for every item it takes, the lists its group is
written from still yield its text and no write of the group can be retried. -/
theorem evicts_only_written_iff : call.EvictsOnlyWritten <-> call.LosesNothing := by
  constructor
  · intro honly hcompletes item hitem id hid hunmarked
    obtain ⟨hscope, i, group, hi, hhanded, hnone⟩ :=
      honly item hitem id hid (call.mem_evictedIds.mpr ⟨hcompletes, hunmarked⟩)
    refine ⟨hscope, fun j group' hj => ?_⟩
    obtain ⟨rfl, rfl⟩ := call.keyed_place_unique hi hj
    exact ⟨fun place text htext => (call.handed_iff hi text place).mp (hhanded place text htext),
      hnone⟩
  · intro hlosesNothing item hitem id hid hevicted
    obtain ⟨hcompletes, hunmarked⟩ := call.mem_evictedIds.mp hevicted
    obtain ⟨hscope, hall⟩ := hlosesNothing hcompletes item hitem id hid hunmarked
    have hsession : call.keyed ≠ [] := by
      obtain ⟨i, entry, hentry, -⟩ := hunmarked
      intro hnil
      rw [hnil] at hentry
      cases hentry
    obtain ⟨i, group, hi⟩ := call.exists_group hitem hid hscope hsession
    obtain ⟨hsurvives, hnone⟩ := hall i group hi
    exact ⟨hscope, i, group, hi,
      fun place text htext => (call.handed_iff hi text place).mpr (hsurvives place text htext),
      hnone⟩

end Call

/-- The working memory holds one decision, and the caller supplies another. -/
def replacedDecision : WmItem where
  id := some "frag-1"
  keyId := none
  agentId := some "default"
  workspace := none
  topic := some "storage"
  type := some "decision"
  content := some "The store is PostgreSQL with pgvector"

def replacingCall : Call where
  mask := id
  params :=
    { sessionId := some "session-1", agentId := none, keyId := none, workspace := none
      defaultWorkspace := none, caseId := none, summary := none
      decisions := ["The cache is Redis with a short expiry"]
      errorsResolved := [], newProcedures := [], openQuestions := [], lessons := []
      narrativeSummary := none }
  rows := []
  workingMemory := [replacedDecision]
  batch := true
  maxTotalChars := 200000
  outcomes := fun _ => .stored "frag-2"
  persistReturns := true
  laterReturns := true

theorem replacing_call_loses : ¬ replacingCall.EvictsOnlyWritten := by
  intro honly
  have hevicted : "frag-1" ∈ replacingCall.evictedIds := by decide +kernel
  obtain ⟨-, i, group, -, hhanded, -⟩ :=
    honly replacedDecision mem_cons_self "frag-1" rfl hevicted
  have hderived : derived replacingCall.rows replacedDecision =
      some (.list .decisions, "The store is PostgreSQL with pgvector") := by decide +kernel
  have hcontents : ∀ item ∈ replacingCall.items,
      item.fragment.content = "The cache is Redis with a short expiry" := by decide +kernel
  have hmade : madeContent replacingCall.mask
      (categoryContent .decisions "The store is PostgreSQL with pgvector")
      (spec .decisions).type ≠ "The cache is Redis with a short expiry" := by decide +kernel
  obtain ⟨item, hitem, hcontent⟩ := replacingCall.content_of_handed (hhanded _ _ hderived)
  exact hmade (hcontent.symm.trans (hcontents item hitem))

end AnchorMind.Reflect.ReflectGroups
