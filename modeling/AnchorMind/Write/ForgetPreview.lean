import AnchorMind.Write.ForgetTargets

/-!
# The dry run of a forget

A forget deletes its fragment, if it has one, and then those of its topic.  The dry run picks
the same fragments with the same checks and deletes nothing.  For a topic it also counts what
the cascade would purge.
-/

namespace AnchorMind.Write.ForgetPreview

open List

open Consolidate.TierTransitions (Tier)
open Kernel.KeyedTable
open Recall.Scopes ForgetCascade ForgetTargets

def notOwnerReason : String :=
  "다른 키가 쓴 파편은 그 키나 그룹에서 forget 권한을 받은 키만 지울 수 있다"

def permanentReason : String := "permanent 파편은 force 옵션 필요"

/-- The receipt is kept only with the cascade on. -/
structure Tally where
  deleted : Nat
  protectedCount : Nat
  purged : Option Purge

structure Receipt where
  deleted : Nat
  protectedCount : Nat
  purged : Option Purge
  error : Option String
  reason : Option String

def forgetReceipt (tally : Tally) : Receipt where
  deleted := tally.deleted
  protectedCount := tally.protectedCount
  purged := tally.purged
  error := none
  reason := none

inductive ById where
  | early (receipt : Receipt)
  | deleted (tally : Tally) (store : Store)

def ownerKeyId (frag : FragmentRow) (ctx : RequestCtx) : Option String :=
  if ownsFragment frag ctx.keyId then ctx.keyId else frag.keyId

def deleteById (store : Store) (frag : FragmentRow) (owner : Option String) (tally : Tally) :
    Tally × Store :=
  match tally.purged with
  | some purged =>
    let out := deleteWithCascade store [frag.id] owner
    ({ tally with
      deleted := out.1.deleted
      purged := some (addPurge purged out.1.purged) }, out.2)
  | none =>
    let out := delete store frag.id owner
    ({ tally with deleted := if out.1 then 1 else 0 }, out.2)

def forgetById (store : Store) (params : Params) (id : String) (ctx : RequestCtx)
    (tally : Tally) : Except ScopeError ById :=
  (lookupForget store.fragments params id ctx).map fun
    | none => .early ⟨0, 0, none, none, none⟩
    | some frag =>
      if !canForgetById frag params ctx then
        .early ⟨0, 0, none, some "No permission to delete this fragment", some notOwnerReason⟩
      else if isPermanent frag && !params.force then
        .early ⟨0, 1, none, none, some permanentReason⟩
      else
        let out := deleteById store frag (ownerKeyId frag ctx) tally
        .deleted out.1 out.2

section

variable {Weight : Type} [LinearOrder Weight] (collation : String ↪ Weight) (cascade : Bool)

def forgetByTopic (store : Store) (params : Params) (topic : String) (ctx : RequestCtx)
    (tally : Tally) : Except ScopeError (Tally × Store) :=
  (selectTopicTargets collation store.fragments params topic ctx topicBatch).map fun selection =>
    let counted := { tally with
      protectedCount := tally.protectedCount + selection.protectedCount }
    let ids := selection.toDelete.map FragmentRow.id
    if ids = [] then (counted, store)
    else match tally.purged with
      | some purged =>
        let out := deleteWithCascade store ids ctx.keyId
        ({ counted with
          deleted := tally.deleted + out.1.deleted
          purged := some (addPurge purged out.1.purged) }, out.2)
      | none =>
        let out := deleteMany store ids ctx.keyId
        ({ counted with deleted := tally.deleted + out.1 }, out.2)

def thenByTopic (store : Store) (params : Params) (ctx : RequestCtx) (tally : Tally) :
    Except ScopeError (Receipt × Store) :=
  match given params.topic with
  | none => .ok (forgetReceipt tally, store)
  | some topic => (forgetByTopic collation store params topic ctx tally).map fun out =>
    (forgetReceipt out.1, out.2)

structure TopicPreview where
  topic : String
  wouldDelete : Nat
  protectedCount : Nat
  linkedCount : Nat
  fragmentIds : List String
  purged : Option Purge

structure FragmentPreview where
  id : String
  type : String
  content : String
  ttlTier : Option Tier
  linkedCount : Nat
  wouldDelete : Bool
  reason : Option String
  topicTargets : Option TopicPreview

inductive Simulated where
  | fragment (preview : FragmentPreview)
  | topic (preview : TopicPreview)

structure Preview where
  simulated : Option Simulated
  error : Option String

def forgetTopicDryRun (store : Store) (params : Params) (topic : String) (ctx : RequestCtx)
    (excludeId : Option String) : Except ScopeError TopicPreview :=
  let limit := if excludeId.isSome then topicBatch + 1 else topicBatch
  (selectTopicTargets collation store.fragments params topic ctx limit).map fun selected =>
    let others := selected.toDelete.filter fun frag => some frag.id ≠ excludeId
    let toDelete := others.take topicBatch
    let ids := toDelete.map FragmentRow.id
    { topic := topic
      wouldDelete := ids.length
      protectedCount := selected.protectedCount
      linkedCount := (toDelete.map fun frag => frag.linkedTo.length).sum
      fragmentIds := ids
      purged :=
        if cascade then some (if 0 < ids.length then previewCascade store ids else emptyPurge)
        else none }

def keepReason (frag : FragmentRow) (params : Params) (ctx : RequestCtx) : Option String :=
  if !canForgetById frag params ctx then some notOwnerReason
  else if isPermanent frag && !params.force then some permanentReason
  else none

def fragmentPreview (frag : FragmentRow) (params : Params) (ctx : RequestCtx) :
    FragmentPreview where
  id := frag.id
  type := frag.type
  content := frag.content
  ttlTier := frag.ttlTier
  linkedCount := frag.linkedTo.length
  wouldDelete := (keepReason frag params ctx).isNone
  reason := keepReason frag params ctx
  topicTargets := none

def forgetDryRun (store : Store) (params : Params) (id : String) (ctx : RequestCtx) :
    Except ScopeError (Option FragmentPreview) :=
  (lookupForget store.fragments params id ctx).map fun frag => frag.map fun frag =>
    fragmentPreview frag params ctx

def forgetPreview (store : Store) (params : Params) (ctx : RequestCtx) :
    Except ScopeError Preview :=
  match given params.id, given params.topic with
  | none, none => .ok ⟨none, some "id or topic is required"⟩
  | none, some topic => (forgetTopicDryRun collation cascade store params topic ctx none).map
      fun preview => ⟨some (.topic preview), none⟩
  | some id, topic? => (forgetDryRun store params id ctx).bind fun
      | none => .ok ⟨none, some "Fragment not found or no permission"⟩
      | some preview =>
        match topic? with
        | some topic =>
          if preview.wouldDelete then
            (forgetTopicDryRun collation cascade store params topic ctx (some id)).map
              fun targets =>
                ⟨some (.fragment { preview with topicTargets := some targets }), none⟩
          else .ok ⟨some (.fragment preview), none⟩
        | none => .ok ⟨some (.fragment preview), none⟩

inductive Answer where
  | preview (preview : Preview)
  | receipt (receipt : Receipt)

/-- `forgetFragments`, with the cascade switched on or off. -/
def forgetFragments (store : Store) (params : Params) (dryRun : Bool) :
    Except ScopeError (Answer × Store) :=
  let ctx := extractRequestCtx params
  if dryRun then
    (forgetPreview collation cascade store params ctx).map fun preview =>
      (.preview preview, store)
  else
    let tally : Tally := ⟨0, 0, if cascade then some emptyPurge else none⟩
    match given params.id with
    | none => (thenByTopic collation store params ctx tally).map fun out => (.receipt out.1, out.2)
    | some id => (forgetById store params id ctx tally).bind fun
        | .early receipt => .ok (.receipt receipt, store)
        | .deleted tally store =>
          (thenByTopic collation store params ctx tally).map fun out => (.receipt out.1, out.2)

end

end AnchorMind.Write.ForgetPreview

/-!
# What the dry run of a forget says comes true

Run on the same store, the dry run of a forget and the forget itself pass the same checks and
pick the same fragments.  The fragment that a forget deletes first is not among the targets of
its topic any more, and the dry run looks one target further to make up for it.
-/

namespace AnchorMind.Write.DryRunForetells

open List

open Consolidate.TierTransitions (Tier)
open Kernel.KeyedTable Recall.Scopes ForgetCascade ForgetTargets ForgetPreview

structure TopicForetold (cascade : Bool) (store : Store) (targets : TopicPreview)
    (receipt : Receipt) (after : Store) : Prop where
  deleted : receipt.deleted = targets.wouldDelete
  protectedCount : receipt.protectedCount = targets.protectedCount
  purged : receipt.purged = targets.purged
  removes : Removes cascade store.fragments after.fragments targets.fragmentIds

def Apart (cascade : Bool) (fragments : Fragments) (params : Params) (id topic : String) : Prop :=
  cascade = true -> ∀ row ∈ fragments,
    ofTopic params topic (extractRequestCtx params) row = true ->
      takenAlong fragments [id] row = false

structure FragmentKept (store : Store) (frag : FragmentPreview) (receipt : Receipt)
    (after : Store) : Prop where
  deleted : receipt.deleted = 0
  protectedCount : receipt.protectedCount = if frag.reason = some permanentReason then 1 else 0
  reason : receipt.reason = frag.reason
  unchanged : after = store

structure FragmentDeleted (cascade : Bool) (store : Store) (params : Params)
    (frag : FragmentPreview) (receipt : Receipt) (after : Store) : Prop where
  alone : frag.topicTargets = none -> given params.topic = none /\ receipt.deleted = 1 /\
    receipt.protectedCount = 0 /\ Removes cascade store.fragments after.fragments [frag.id]
  counted : ∀ targets ∈ frag.topicTargets, targets.purged =
    if cascade then
      some (deleteWithCascade store targets.fragmentIds params.keyId).1.purged
    else none
  together : ∀ targets ∈ frag.topicTargets,
    given params.topic = some targets.topic /\
      (Apart cascade store.fragments params frag.id targets.topic ->
        receipt.deleted = 1 + targets.wouldDelete /\
        receipt.protectedCount = targets.protectedCount /\
        Removes cascade store.fragments after.fragments (frag.id :: targets.fragmentIds))

/-- What the dry run says, said of the forget. -/
def Foretells (cascade : Bool) (store : Store) (params : Params) (preview : Preview)
    (receipt : Receipt) (after : Store) : Prop :=
  match preview.simulated with
  | none => receipt.deleted = 0 /\ receipt.protectedCount = 0 /\ after = store
  | some (.topic targets) => TopicForetold cascade store targets receipt after
  | some (.fragment frag) =>
    if frag.wouldDelete then FragmentDeleted cascade store params frag receipt after
    else FragmentKept store frag receipt after

/-- A dry run changes nothing, and the forget does what it says. -/
def AsForetold {Weight : Type} [LinearOrder Weight] (collation : String ↪ Weight)
    (cascade : Bool) (store : Store) (params : Params) : Prop :=
  ∃ preview receipt after,
    forgetFragments collation cascade store params true = .ok (.preview preview, store) /\
    forgetFragments collation cascade store params false = .ok (.receipt receipt, after) /\
    Foretells cascade store params preview receipt after

section

variable {Weight : Type} [LinearOrder Weight] {collation : String ↪ Weight} {cascade : Bool}
  {fragments : Fragments} {store : Store} {params : Params} {topic id : String}
  {ctx : RequestCtx} {scope : AgentScope} {frag : FragmentRow}

theorem lookupForget_cases (hscope : resolveAgentScope ctx.agentId false false = .ok scope) :
    lookupForget fragments params id ctx = .ok none \/
      ∃ frag ∈ fragments, frag.id = id /\
        lookupForget fragments params id ctx = .ok (some frag) := by
  simp only [lookupForget, getById, inAgentScope, hscope, Except.map]
  cases hfound : Option.filter (isShareReadable params ctx) _ with
  | none => exact .inl rfl
  | some frag =>
    have hfind := (Option.filter_eq_some_iff.mp hfound).1
    have hchecks := find?_some hfind
    simp only [Bool.and_eq_true, decide_eq_true_eq] at hchecks
    exact Or.inr ⟨frag, mem_of_find?_eq_some hfind, hchecks.1.1.1.1, rfl⟩

theorem ownerKeyId_inScope (frag : FragmentRow) (ctx : RequestCtx) :
    ((ownerKeyId frag ctx).isNone || decide (frag.keyId = ownerKeyId frag ctx)) = true := by
  unfold ownerKeyId
  split
  · assumption
  · rw [decide_eq_true rfl, Bool.or_true]

theorem within_owner (hfrag : frag ∈ fragments) :
    Within fragments [frag.id] (ownerKeyId frag ctx) where
  nodup := nodup_singleton _
  inScope := by
    intro id hid
    rw [mem_singleton.mp hid]
    exact ⟨frag, hfrag, rfl, ownerKeyId_inScope frag ctx⟩

def noTally (cascade : Bool) : Tally := ⟨0, 0, if cascade then some emptyPurge else none⟩

theorem noTally_isSome : (noTally cascade).purged.isSome = cascade := by cases cascade <;> rfl

theorem deleteById_eq (cascade : Bool) (ctx : RequestCtx) (hfrag : frag ∈ store.fragments) :
    (deleteById store frag (ownerKeyId frag ctx) (noTally cascade)).1 =
        ⟨1, 0, if cascade then some (previewCascade store [frag.id]) else none⟩ /\
      ∃ gone : FragmentRow -> Bool,
        (deleteById store frag (ownerKeyId frag ctx) (noTally cascade)).2.fragments =
          deleteRows store.fragments gone /\
        ∀ row ∈ store.fragments, (gone row = true <-> row.id ∈ [frag.id] \/
          cascade = true /\ takenAlong store.fragments [frag.id] row = true) := by
  have hwithin : Within store.fragments [frag.id] (ownerKeyId frag ctx) := within_owner hfrag
  cases cascade with
  | true =>
    refine ⟨?_, cascadeDeleteLock store.fragments [frag.id] (ownerKeyId frag ctx), rfl, ?_⟩
    · simp [deleteById, noTally, deleteWithCascade_outcome hwithin]
    · intro row hrow
      rw [cascadeDeleteLock_iff hwithin hrow, and_iff_right rfl]
  | false =>
    have hthere : store.fragments.rows.any (targeted [frag.id] (ownerKeyId frag ctx)) = true := by
      refine any_eq_true.mpr ⟨frag, hfrag, ?_⟩
      rw [targeted_eq hwithin hfrag]
      exact decide_eq_true mem_cons_self
    refine ⟨?_, fun row => decide (row.id = frag.id), ?_, ?_⟩
    · simp [deleteById, noTally, delete, hthere]
    · simp [deleteById, noTally, delete, hthere]
    · intro row _
      simp

theorem previewCascade_given (ids : List String) :
    (if 0 < ids.length then previewCascade store ids else emptyPurge) =
      previewCascade store ids := by
  cases ids with
  | nil => rfl
  | cons _ _ => exact if_pos (Nat.succ_pos _)

def foretold (collation : String ↪ Weight) (cascade : Bool) (store : Store) (params : Params)
    (topic : String) (ctx : RequestCtx) (excludeId : Option String) : TopicPreview :=
  let frags := chosen collation store.fragments params topic ctx excludeId
  { topic := topic
    wouldDelete := frags.length
    protectedCount := protectedTotal store.fragments params topic ctx
    linkedCount := (frags.map fun frag => frag.linkedTo.length).sum
    fragmentIds := frags.map FragmentRow.id
    purged := if cascade then some (previewCascade store (frags.map FragmentRow.id)) else none }

theorem foretold_purged (excludeId : Option String) :
    (foretold collation cascade store params topic ctx excludeId).purged =
      if cascade then
        some (deleteWithCascade store
          (foretold collation cascade store params topic ctx excludeId).fragmentIds
          ctx.keyId).1.purged
      else none := by
  have hwithin : Within store.fragments
      (foretold collation cascade store params topic ctx excludeId).fragmentIds ctx.keyId :=
    within_chosen excludeId
  rw [deleteWithCascade_outcome hwithin]
  rfl

theorem forgetTopicDryRun_eq (excludeId : Option String)
    (hscope : resolveAgentScope ctx.agentId false false = .ok scope) :
    forgetTopicDryRun collation cascade store params topic ctx excludeId =
      .ok (foretold collation cascade store params topic ctx excludeId) := by
  have hlimit : 0 < if excludeId.isSome then topicBatch + 1 else topicBatch := by
    split <;> exact Nat.succ_pos _
  rw [forgetTopicDryRun, selectTopicTargets_eq collation hlimit hscope, foretold]
  simp only [Except.map, take_targets_eq_chosen, previewCascade_given]
  simp

def topicTally (collation : String ↪ Weight) (store : Store) (params : Params) (topic : String)
    (ctx : RequestCtx) (tally : Tally) : Tally :=
  let frags := chosen collation store.fragments params topic ctx none
  { deleted := tally.deleted + frags.length
    protectedCount := tally.protectedCount + protectedTotal store.fragments params topic ctx
    purged := tally.purged.map fun purged =>
      addPurge purged (previewCascade store (frags.map FragmentRow.id)) }

theorem forgetByTopic_eq (collation : String ↪ Weight) (store : Store) (params : Params)
    (topic : String) (tally : Tally)
    (hscope : resolveAgentScope ctx.agentId false false = .ok scope) :
    ∃ after, forgetByTopic collation store params topic ctx tally =
        .ok (topicTally collation store params topic ctx tally, after) /\
      Removes tally.purged.isSome store.fragments after.fragments
        ((chosen collation store.fragments params topic ctx none).map FragmentRow.id) := by
  have hlimit : 0 < topicBatch := Nat.succ_pos _
  rw [forgetByTopic, selectTopicTargets_eq collation hlimit hscope, ← chosen_none]
  have hwithin : Within store.fragments
      ((chosen collation store.fragments params topic ctx none).map FragmentRow.id) ctx.keyId :=
    within_chosen none
  simp only [Except.map]
  split
  · rename_i hnil
    have hempty : chosen collation store.fragments params topic ctx none = [] :=
      map_eq_nil_iff.mp hnil
    refine ⟨store, ?_, ?_⟩
    · rw [topicTally, hempty]
      cases hpurged : tally.purged <;> simp [previewCascade, addPurge, emptyPurge]
    · rw [hempty]
      exact removes_nil
  · cases hpurged : tally.purged with
    | none =>
      refine ⟨_, ?_, deleteMany_removes hwithin⟩
      rw [deleteMany_count hwithin, length_map, topicTally, hpurged]
      rfl
    | some purged =>
      refine ⟨_, ?_, deleteWithCascade_removes hwithin⟩
      rw [deleteWithCascade_outcome hwithin, length_map, topicTally, hpurged]
      rfl

theorem topic_foretold (hid : given params.id = none) (htopic : given params.topic = some topic)
    (hscope : resolveAgentScope (extractRequestCtx params).agentId false false = .ok scope) :
    AsForetold collation cascade store params := by
  obtain ⟨after, hforget, hremoves⟩ :=
    forgetByTopic_eq collation store params topic (noTally cascade) hscope
  rw [noTally_isSome] at hremoves
  refine ⟨⟨some (.topic (foretold collation cascade store params topic
    (extractRequestCtx params) none)), none⟩, forgetReceipt (topicTally collation store params topic
    (extractRequestCtx params) (noTally cascade)), after, ?_, ?_, ?_⟩
  · simp only [forgetFragments, forgetPreview, hid, htopic, if_true,
      forgetTopicDryRun_eq none hscope, Except.map]
  · simp only [forgetFragments, thenByTopic, hid, htopic, Bool.false_eq_true, if_false]
    rw [← noTally, hforget]
    rfl
  · refine ⟨Nat.zero_add _, Nat.zero_add _, ?_, hremoves⟩
    cases cascade <;> simp [forgetReceipt, topicTally, noTally, foretold]

theorem forgetById_kept {reason : String} (tally : Tally)
    (hfound : lookupForget store.fragments params id ctx = .ok (some frag))
    (hreason : keepReason frag params ctx = some reason) :
    ∃ receipt, forgetById store params id ctx tally = .ok (.early receipt) /\
      receipt.deleted = 0 /\
      receipt.protectedCount = (if some reason = some permanentReason then 1 else 0) /\
      receipt.reason = some reason := by
  rw [forgetById, hfound]
  unfold keepReason at hreason
  simp only [Except.map]
  by_cases howner : (!canForgetById frag params ctx) = true
  · rw [if_pos howner] at hreason ⊢
    cases hreason
    have hother : ¬ some notOwnerReason = some permanentReason := by decide +kernel
    exact ⟨_, rfl, rfl, (if_neg hother).symm, rfl⟩
  · rw [if_neg howner] at hreason ⊢
    by_cases hpermanent : (isPermanent frag && !params.force) = true
    · rw [if_pos hpermanent] at hreason ⊢
      cases hreason
      exact ⟨_, rfl, rfl, (if_pos rfl).symm, rfl⟩
    · rw [if_neg hpermanent] at hreason
      cases hreason

section

variable (hid : given params.id = some id)
include hid

theorem kept_foretold {reason : String}
    (hfound : lookupForget store.fragments params id (extractRequestCtx params) = .ok (some frag))
    (hreason : keepReason frag params (extractRequestCtx params) = some reason) :
    AsForetold collation cascade store params := by
  obtain ⟨receipt, hforget, hdeleted, hprotected, hkept⟩ :=
    forgetById_kept (noTally cascade) hfound hreason
  have hwould : (fragmentPreview frag params (extractRequestCtx params)).wouldDelete = false := by
    rw [fragmentPreview, hreason, Option.isNone_some]
  refine ⟨⟨some (.fragment (fragmentPreview frag params (extractRequestCtx params))), none⟩,
    receipt, store, ?_, ?_, ?_⟩
  · simp only [forgetFragments, forgetPreview, hid, forgetDryRun, hfound, if_true, Except.map,
      Except.bind, Option.map_some, hwould, Bool.false_eq_true, if_false]
    cases given params.topic <;> rfl
  · simp only [forgetFragments, hid, Bool.false_eq_true, if_false]
    rw [← noTally, hforget]
    rfl
  · simp only [Foretells, hwould, Bool.false_eq_true, if_false]
    refine ⟨hdeleted, ?_, ?_, rfl⟩
    · rw [hprotected, fragmentPreview, hreason]
    · rw [hkept, fragmentPreview, hreason]

theorem missing_foretold
    (hmissing : lookupForget store.fragments params id (extractRequestCtx params) = .ok none) :
    AsForetold collation cascade store params := by
  refine ⟨⟨none, some "Fragment not found or no permission"⟩, ⟨0, 0, none, none, none⟩, store,
    ?_, ?_, rfl, rfl, rfl⟩
  · simp only [forgetFragments, forgetPreview, hid, forgetDryRun, hmissing, if_true, Except.map,
      Except.bind, Option.map_none]
  · simp only [forgetFragments, forgetById, hid, hmissing, Except.map, Except.bind,
      Bool.false_eq_true, if_false]

omit hid in
theorem forgetById_deleted (tally : Tally)
    (hfound : lookupForget store.fragments params id ctx = .ok (some frag))
    (hreason : keepReason frag params ctx = none) :
    forgetById store params id ctx tally =
      .ok (.deleted (deleteById store frag (ownerKeyId frag ctx) tally).1
        (deleteById store frag (ownerKeyId frag ctx) tally).2) /\
      deletable params frag = true := by
  rw [forgetById, hfound]
  unfold keepReason at hreason
  simp only [Except.map]
  by_cases howner : (!canForgetById frag params ctx) = true
  · rw [if_pos howner] at hreason
    cases hreason
  rw [if_neg howner] at hreason ⊢
  by_cases hpermanent : (isPermanent frag && !params.force) = true
  · rw [if_pos hpermanent] at hreason
    cases hreason
  rw [if_neg hpermanent]
  refine ⟨rfl, ?_⟩
  unfold deletable
  revert hpermanent
  cases params.force <;> cases isPermanent frag <;> decide

omit hid in
theorem wouldDelete_eq (hreason : keepReason frag params ctx = none) :
    (fragmentPreview frag params ctx).wouldDelete = true := by
  rw [fragmentPreview, hreason, Option.isNone_none]

omit hid in
theorem deleted_answers (collation : String ↪ Weight) (cascade : Bool)
    (hid : given params.id = some id) (htopic : given params.topic = none)
    (hfrag : frag ∈ store.fragments)
    (hfound : lookupForget store.fragments params id (extractRequestCtx params) = .ok (some frag))
    (hreason : keepReason frag params (extractRequestCtx params) = none) :
    forgetFragments collation cascade store params true =
        .ok (.preview ⟨some (.fragment (fragmentPreview frag params (extractRequestCtx params))),
          none⟩, store) /\
      ∃ after,
        forgetFragments collation cascade store params false = .ok (.receipt ⟨1, 0,
          if cascade then some (previewCascade store [frag.id]) else none, none, none⟩, after) /\
        Removes cascade store.fragments after.fragments [frag.id] := by
  obtain ⟨hforget, _⟩ := forgetById_deleted (noTally cascade) hfound hreason
  obtain ⟨htally, gone, hleft, hgone⟩ := deleteById_eq cascade (extractRequestCtx params) hfrag
  generalize deleteById store frag (ownerKeyId frag (extractRequestCtx params))
    (noTally cascade) = outcome at hforget htally hleft
  refine ⟨?_, outcome.2, ?_, ?_⟩
  · simp only [forgetFragments, forgetPreview, hid, htopic, forgetDryRun, hfound, if_true,
      Except.map, Except.bind, Option.map_some]
  · simp only [forgetFragments, hid, Bool.false_eq_true, if_false]
    rw [← noTally, hforget]
    simp only [Except.bind, thenByTopic, htopic, Except.map, htally, forgetReceipt]
  · rw [hleft]
    exact removes_deleteRows hgone

theorem deleted_foretold (htopic : given params.topic = none) (hfrag : frag ∈ store.fragments)
    (hfound : lookupForget store.fragments params id (extractRequestCtx params) = .ok (some frag))
    (hreason : keepReason frag params (extractRequestCtx params) = none) :
    AsForetold collation cascade store params := by
  obtain ⟨hdry, after, hforget, hremoves⟩ :=
    deleted_answers collation cascade hid htopic hfrag hfound hreason
  refine ⟨_, _, after, hdry, hforget, ?_⟩
  simp only [Foretells, wouldDelete_eq hreason, if_true]
  refine ⟨fun _ => ⟨htopic, rfl, rfl, hremoves⟩, ?_, ?_⟩
  · rintro _ ⟨⟩
  · rintro _ ⟨⟩

theorem both_foretold (htopic : given params.topic = some topic) (hfrag : frag ∈ store.fragments)
    (hname : frag.id = id)
    (hscope : resolveAgentScope (extractRequestCtx params).agentId false false = .ok scope)
    (hfound : lookupForget store.fragments params id (extractRequestCtx params) = .ok (some frag))
    (hreason : keepReason frag params (extractRequestCtx params) = none) :
    AsForetold collation cascade store params := by
  subst hname
  obtain ⟨hforget, hdeletable⟩ := forgetById_deleted (noTally cascade) hfound hreason
  obtain ⟨htally, gone, hleft, hgone⟩ := deleteById_eq cascade (extractRequestCtx params) hfrag
  have hwould := wouldDelete_eq hreason
  generalize deleteById store frag (ownerKeyId frag (extractRequestCtx params))
    (noTally cascade) = outcome at hforget htally hleft
  obtain ⟨after, hbyTopic, hrest⟩ :=
    forgetByTopic_eq collation outcome.2 params topic outcome.1 hscope
  have hsome : outcome.1.purged.isSome = cascade := by
    rw [htally]
    cases cascade <;> rfl
  rw [hsome, hleft] at hrest
  refine ⟨⟨some (.fragment { fragmentPreview frag params (extractRequestCtx params) with
      topicTargets := some (foretold collation cascade store params topic
        (extractRequestCtx params) (some frag.id)) }), none⟩, forgetReceipt (topicTally collation
      outcome.2 params topic (extractRequestCtx params) outcome.1), after, ?_, ?_, ?_⟩
  · simp only [forgetFragments, forgetPreview, hid, htopic, forgetDryRun, hfound, if_true,
      Except.map, Except.bind, Option.map_some, hwould, forgetTopicDryRun_eq (some frag.id) hscope]
  · simp only [forgetFragments, hid, Bool.false_eq_true, if_false]
    rw [← noTally, hforget]
    simp only [Except.bind, thenByTopic, htopic, hbyTopic, Except.map]
  · simp only [Foretells, hwould, if_true]
    refine ⟨?_, ?_, ?_⟩
    · rintro ⟨⟩
    · rintro targets ⟨⟩
      exact foretold_purged (some frag.id)
    · rintro targets ⟨⟩
      refine ⟨htopic, fun hapart => ?_⟩
      -- of the topic only the fragment itself is gone
      have honly : ∀ row ∈ store.fragments,
          ofTopic params topic (extractRequestCtx params) row = true ->
            (gone row = true <-> row.id = frag.id) := by
        intro row hrow hofTopic
        rw [hgone row hrow, mem_singleton]
        refine or_iff_left fun htaken => ?_
        have hnot : takenAlong store.fragments [frag.id] row = false :=
          hapart htaken.1 row hrow hofTopic
        rw [htaken.2] at hnot
        cases hnot
      have hids : (chosen collation (deleteRows store.fragments gone) params topic
          (extractRequestCtx params) none).map FragmentRow.id =
            (chosen collation store.fragments params topic (extractRequestCtx params)
              (some frag.id)).map FragmentRow.id := chosen_ids_deleteRows honly
      have hlengths := congrArg length hids
      rw [length_map, length_map] at hlengths
      refine ⟨?_, ?_, ?_⟩
      · simp only [forgetReceipt, topicTally, foretold, htally, hleft, hlengths]
      · simp only [forgetReceipt, topicTally, foretold, htally, hleft, Nat.zero_add]
        refine protectedTotal_deleteRows honly fun row hrow hsame => ?_
        rw [Table.eq_of_key_eq hrow hfrag hsame]
        exact hdeletable
      · rw [hids] at hrest
        refine (removes_deleteRows hgone).trans hrest fun other hother => ?_
        rw [foretold, ← hids] at hother
        obtain ⟨row, hrow, hsame, _⟩ := (within_chosen none).inScope other hother
        exact ⟨row, hrow, hsame⟩

end

end

/-- Either the agent of a request has no scope, and the request fails with or without `dryRun`,
or the forget does what the dry run says. -/
theorem forget_as_foretold {Weight : Type} [LinearOrder Weight] (collation : String ↪ Weight)
    (cascade : Bool) (store : Store) (params : Params) :
    (∃ failure,
      forgetFragments collation cascade store params true = .error failure /\
      forgetFragments collation cascade store params false = .error failure) \/
    AsForetold collation cascade store params := by
  cases hid : given params.id with
  | none =>
    cases htopic : given params.topic with
    | none =>
      refine Or.inr ⟨⟨none, some "id or topic is required"⟩, forgetReceipt (noTally cascade),
        store, ?_, ?_, rfl, rfl, rfl⟩
      · simp only [forgetFragments, forgetPreview, hid, htopic, if_true, Except.map]
      · simp only [forgetFragments, thenByTopic, hid, htopic, Bool.false_eq_true, if_false,
          Except.map, noTally]
    | some topic =>
      cases hscope : resolveAgentScope (extractRequestCtx params).agentId false false with
      | error failure =>
        refine Or.inl ⟨failure, ?_, ?_⟩
        · simp only [forgetFragments, forgetPreview, hid, htopic, if_true, Except.map,
            forgetTopicDryRun, selectTopicTargets, searchByTopic, inAgentScope, hscope]
        · simp only [forgetFragments, thenByTopic, hid, htopic, Bool.false_eq_true,
            if_false, Except.map, forgetByTopic, selectTopicTargets, searchByTopic,
            inAgentScope, hscope]
      | ok scope => exact .inr (topic_foretold hid htopic hscope)
  | some id =>
    cases hscope : resolveAgentScope (extractRequestCtx params).agentId false false with
    | error failure =>
      refine Or.inl ⟨failure, ?_, ?_⟩
      · simp only [forgetFragments, forgetPreview, hid, if_true, Except.map, Except.bind,
          forgetDryRun, lookupForget, getById, inAgentScope, hscope]
      · simp only [forgetFragments, hid, Bool.false_eq_true, if_false, Except.map, Except.bind,
          forgetById, lookupForget, getById, inAgentScope, hscope]
    | ok scope =>
      refine Or.inr ?_
      rcases lookupForget_cases hscope with hmissing | ⟨frag, hfrag, hname, hfound⟩
      · exact missing_foretold hid hmissing
      cases hreason : keepReason frag params (extractRequestCtx params) with
      | some reason => exact kept_foretold hid hfound hreason
      | none =>
        cases htopic : given params.topic with
        | none => exact deleted_foretold hid htopic hfrag hfound hreason
        | some topic => exact both_foretold hid htopic hfrag hname hscope hfound hreason

def previewPurged (preview : Preview) : Purge :=
  match preview.simulated with
  | some (.topic targets) => targets.purged.getD emptyPurge
  | some (.fragment frag) => (frag.topicTargets.bind TopicPreview.purged).getD emptyPurge
  | none => emptyPurge

def sourceFragment : FragmentRow where
  content := "The port is 57332"
  contentHash := none
  keyId := none
  agentId := some "default"
  workspace := none
  source := none
  type := "fact"
  topic := "ops"
  caseId := none
  resolutionStatus := none
  phase := none
  affect := none
  isAnchor := false
  reviewState := none
  validTo := none
  createdAt := some 0
  mentionTime := none
  eventTime := none
  id := "f1"
  ttlTier := some .warm
  importance := 1 / 2
  linkedTo := []

def sourceStore : Store where
  fragments := {
    rows := [sourceFragment]
    keysNodup := nodup_singleton _
    checked := by
      intro row hrow
      rw [mem_singleton.mp hrow]
      decide +kernel }
  caseEvents := [⟨some "f1", "The port was set"⟩]
  digests := []

def byId (id : String) : Params where
  id := some id
  topic := none
  force := false
  agentId := none
  workspace := none
  keyId := none
  defaultWorkspace := none
  groupKeyIds := none
  forgetGrants := []
  groupShareScopes := fun _ => none

/-- With the cascade on, a forget by id purges the summary of a case event, and its dry run
counts none. -/
theorem summary_not_counted :
    ¬ ∀ (cascade : Bool) (store after : Store) (params : Params) (preview : Preview)
      (receipt : Receipt),
      forgetFragments (Function.Embedding.refl String) cascade store params true =
        .ok (.preview preview, store) ->
      forgetFragments (Function.Embedding.refl String) cascade store params false =
        .ok (.receipt receipt, after) ->
      previewPurged preview = receipt.purged.getD emptyPurge := by
  intro hall
  have hfound : lookupForget sourceStore.fragments (byId "f1") "f1"
      (extractRequestCtx (byId "f1")) = .ok (some sourceFragment) := by decide +kernel
  have hreason : keepReason sourceFragment (byId "f1") (extractRequestCtx (byId "f1")) = none := by
    decide +kernel
  obtain ⟨hdry, after, hforget, _⟩ := deleted_answers (Function.Embedding.refl String) true
    (by decide +kernel) rfl mem_cons_self hfound hreason
  have hcounts : emptyPurge = previewCascade sourceStore ["f1"] :=
    hall true sourceStore after (byId "f1") _ _ hdry hforget
  revert hcounts
  decide +kernel

end AnchorMind.Write.DryRunForetells
