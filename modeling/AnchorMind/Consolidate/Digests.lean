import AnchorMind.Audit.Chain
import AnchorMind.Kernel.Copies
import AnchorMind.Kernel.KeyedTable
import AnchorMind.Kernel.Transition
import AnchorMind.Text.Characters
import Mathlib.Data.Char

/-!
# Digests of fragment groups

A step of the maintenance cycle writes a text for each group of fragments: a timeline for
each topic, and a list of preferences.  A digest whose source hash is the same as before
keeps its text.
-/

namespace AnchorMind.Consolidate.Digests

open Kernel.KeyedTable Kernel.StampedCache Kernel.Transition Text.Utf16 Text.Whitespace List

/-- Instants are microseconds of the database. -/
structure Fragment where
  id : String
  keyId : Option String
  workspace : Option String
  agentId : String
  topic : String
  type : String
  content : String
  contentHash : String
  source : Option String
  createdAt : Option Int
  mentionTime : Option Int
  eventTime : Option Int
  eventTimePrecision : Option String
  validTo : Option Int
  reviewState : Option String
  trustTier : Option Int
  deriving DecidableEq

abbrev Fragments := Table Fragment.id fun _ => True

/-- Of an instant, a `Date` keeps the milliseconds. -/
def toMs (instant : Int) : Int := instant / 1000

def statedAtMs (fragment : Fragment) : Option Int :=
  (fragment.mentionTime.or fragment.createdAt).map toMs

def worldTimeMs (fragment : Fragment) : Option Int :=
  (fragment.eventTime.map toMs).or (statedAtMs fragment)

def formatEventTime (milliseconds : Option Int) (precision : Option String) : Option String :=
  milliseconds.map fun value =>
    let iso := (Audit.toISOString value).toList
    match precision with
    | some "year" => String.ofList (iso.take 4)
    | some "month" => String.ofList (iso.take 7)
    | some "minute" => String.ofList (iso.take 16) ++ "Z"
    | _ => String.ofList (iso.take 10)

/-- `ELIGIBLE` -/
def eligible (fragment : Fragment) : Bool :=
  fragment.validTo.isNone && decide (fragment.source ≠ some "wm-fallback") &&
    decide (fragment.topic ≠ "contradiction_audit") &&
      decide (fragment.reviewState ≠ some "pending" ∧ fragment.reviewState ≠ some "rejected") &&
        fragment.trustTier.all fun tier => decide (2 ≤ tier)

def DIGEST_LINE_CHARS : Nat := 140

def DIGEST_MAX_CHARS : Nat := 6000

/-- `replace(/\s+/g, " ")`; the flag says whether the run before has its space already. -/
def flatten : Bool -> List Char -> List Char
  | _, [] => []
  | inRun, char :: rest =>
    if isTrimmed char then
      if inRun then flatten true rest else ' ' :: flatten true rest
    else char :: flatten false rest

def shortened (maxUnits : Nat) (text : String) : String :=
  if maxUnits < utf16Length text then String.ofList (sliceUtf16 maxUnits text.toList) ++ "..."
  else text

def digestLine (content : String) : String :=
  shortened DIGEST_LINE_CHARS (String.ofList (trimList (flatten false content.toList)))

def capText (text : String) : String := shortened DIGEST_MAX_CHARS text

/-- How texts are compared and hashed: `localeCompare` is not positive, the order of the
database's collation, and SHA-256 in hexadecimal. -/
structure Platform where
  localeLe : String -> String -> Bool
  collationLe : String -> String -> Bool
  sha256 : String -> String

section

variable (platform : Platform)

def timelineLe (left right : Fragment) : Bool :=
  match worldTimeMs left, worldTimeMs right with
  | some _, none => true
  | none, some _ => false
  | some first, some second =>
    decide (first < second) || decide (first = second) && platform.localeLe left.id right.id
  | none, none => platform.localeLe left.id right.id

def timelineLine (fragment : Fragment) : String :=
  let when :=
    match fragment.eventTime with
    | some instant => formatEventTime (some (toMs instant)) fragment.eventTimePrecision
    | none => formatEventTime (statedAtMs fragment) (some "day")
  when.getD "????-??-??" ++ " | " ++ fragment.type ++ " | " ++ digestLine fragment.content

def renderTimeline (topic : String) (rows : List Fragment) : String :=
  let ordered := rows.insertionSort fun left right => timelineLe platform left right = true
  capText ("[timeline] " ++ topic ++ " (" ++ toString rows.length ++ ")\n" ++
    String.intercalate "\n" (ordered.map timelineLine))

def profileLe (left right : Fragment) : Bool :=
  match statedAtMs left, statedAtMs right with
  | some first, some second =>
    decide (second < first) || decide (first = second) && platform.localeLe left.id right.id
  | _, _ => platform.localeLe left.id right.id

def profileLine (fragment : Fragment) : String :=
  (formatEventTime (statedAtMs fragment) (some "day")).getD "????-??-??" ++ " | " ++
    digestLine fragment.content

def renderProfile (rows : List Fragment) : String :=
  let ordered := rows.insertionSort fun left right => profileLe platform left right = true
  capText ("[preferences] (" ++ toString rows.length ++ ", 최근 순)\n" ++
    String.intercalate "\n" (ordered.map profileLine))

def sourceHash (rows : List Fragment) : String :=
  let material := rows.map fun row => row.id ++ ":" ++ row.contentHash
  platform.sha256 (String.intercalate "|" (material.insertionSort fun left right =>
    Text.JsonText.ofString left ≤ Text.JsonText.ofString right))

end

inductive Kind where
  | topicTimeline
  | preferenceProfile
  deriving DecidableEq

/-- `DIGEST_MIN_ITEMS`, and two preferences. -/
def Kind.minItems : Kind -> Nat
  | .topicTimeline => 5
  | .preferenceProfile => 2

/-- `TIMELINE_MAX_ITEMS` and `PROFILE_MAX_ITEMS` -/
def Kind.maxItems : Kind -> Nat
  | .topicTimeline => 40
  | .preferenceProfile => 30

def DIGEST_GROUP_LIMIT : Nat := 200

structure Group where
  keyId : Option String
  workspace : Option String
  agentId : String
  kind : Kind
  subject : String
  deriving DecidableEq

def groupOf (kind : Kind) (fragment : Fragment) : Option Group :=
  match kind with
  | .topicTimeline =>
    some ⟨fragment.keyId, fragment.workspace, fragment.agentId, kind, fragment.topic⟩
  | .preferenceProfile =>
    if fragment.type = "preference" then
      some ⟨fragment.keyId, fragment.workspace, fragment.agentId, kind, "preferences"⟩
    else none

def members (fragments : Fragments) (group : Group) : List Fragment :=
  fragments.rows.filter fun fragment =>
    eligible fragment && decide (groupOf group.kind fragment = some group)

/-- `DESC` puts missing times first. -/
def descending : Option Int -> Option Int -> Bool
  | none, _ => true
  | some _, none => false
  | some first, some second => decide (second ≤ first)

def lastAt (fragments : Fragments) (group : Group) : Option Int :=
  ((members fragments group).filterMap Fragment.createdAt).max?

def candidateGroups (fragments : Fragments) (kind : Kind) : List Group :=
  (((fragments.rows.filter eligible).filterMap (groupOf kind)).dedup.filter fun group =>
    decide (kind.minItems ≤ (members fragments group).length)).insertionSort fun left right =>
      descending (lastAt fragments left) (lastAt fragments right) = true

def Kind.selectTime (kind : Kind) (fragment : Fragment) : Option Int :=
  match kind with
  | .topicTimeline => (fragment.eventTime.or fragment.mentionTime).or fragment.createdAt
  | .preferenceProfile => fragment.mentionTime.or fragment.createdAt

def selectBefore (platform : Platform) (kind : Kind) (left right : Fragment) : Bool :=
  if kind.selectTime left = kind.selectTime right then platform.collationLe left.id right.id
  else descending (kind.selectTime left) (kind.selectTime right)

def items (platform : Platform) (fragments : Fragments) (group : Group) : List Fragment :=
  ((members fragments group).insertionSort fun left right =>
    selectBefore platform group.kind left right = true).take group.kind.maxItems

def Kind.render (platform : Platform) (kind : Kind) (subject : String) (rows : List Fragment) :
    String :=
  match kind with
  | .topicTimeline => renderTimeline platform subject rows
  | .preferenceProfile => renderProfile platform rows

structure Digest where
  keyId : Option String
  workspace : Option String
  agentId : String
  kind : Kind
  subject : String
  content : String
  sourceIds : List String
  sourceHash : String
  itemCount : Nat
  updatedAt : Int
  deriving DecidableEq

/-- The key of the unique index, in which a missing text is the empty one. -/
abbrev ScopeKey := String × String × String × Kind × String

def Group.scopeKey (group : Group) : ScopeKey :=
  (group.keyId.getD "", group.workspace.getD "", group.agentId, group.kind, group.subject)

def Digest.scopeKey (digest : Digest) : ScopeKey :=
  (digest.keyId.getD "", digest.workspace.getD "", digest.agentId, digest.kind, digest.subject)

abbrev DigestTable := Table Digest.scopeKey fun _ => True

def derivation (platform : Platform) (kind : Kind) (subject : String) :
    Derivation (List Fragment) String String where
  stamp := sourceHash platform
  derive := kind.render platform subject

def Digest.entry (digest : Digest) : Entry String String := ⟨digest.sourceHash, digest.content⟩

def newDigest (platform : Platform) (now : Int) (group : Group) (rows : List Fragment) : Digest
    where
  keyId := group.keyId
  workspace := group.workspace
  agentId := group.agentId
  kind := group.kind
  subject := group.subject
  content := group.kind.render platform group.subject rows
  sourceIds := rows.map Fragment.id
  sourceHash := sourceHash platform rows
  itemCount := rows.length
  updatedAt := now

/-- `ON CONFLICT DO UPDATE` -/
def rewrite (platform : Platform) (now : Int) (group : Group) (rows : List Fragment) :
    Table.Update Digest.scopeKey fun _ => True where
  select := fun digest => decide (digest.scopeKey = group.scopeKey)
  image := fun digest =>
    { digest with
      content :=
        if digest.sourceHash = sourceHash platform rows then digest.content
        else group.kind.render platform group.subject rows
      sourceIds := rows.map Fragment.id
      itemCount := rows.length
      updatedAt := now
      sourceHash := sourceHash platform rows }
  keepsKey := fun _ => rfl
  keepsCheck := fun _ _ _ => trivial

def upsertDigest (platform : Platform) (now : Int) (group : Group) (rows : List Fragment)
    (digests : DigestTable) : DigestTable :=
  digests.upsert (newDigest platform now group rows) trivial (rewrite platform now group rows)

def live (fragments : Fragments) (id : String) : Bool :=
  fragments.rows.any fun fragment => decide (fragment.id = id) && fragment.validTo.isNone

/-- The digests of the groups in turn; `clock` says when each is written. -/
def upsertAll (platform : Platform) (clock : Group -> Int) (fragments : Fragments)
    (groups : List Group) (digests : DigestTable) : DigestTable :=
  groups.foldl (fun digests group =>
    upsertDigest platform (clock group) group (items platform fragments group) digests) digests

def cycleGroups (fragments : Fragments) : List Group :=
  (candidateGroups fragments .topicTimeline).take DIGEST_GROUP_LIMIT ++
    (candidateGroups fragments .preferenceProfile).take DIGEST_GROUP_LIMIT

def buildDigests (platform : Platform) (startedAt : Int) (clock : Group -> Int)
    (fragments : Fragments) (digests : DigestTable) : DigestTable :=
  (upsertAll platform clock fragments (cycleGroups fragments) digests).deleteWhere fun digest =>
    decide (digest.updatedAt < startedAt) &&
      digest.sourceIds.any fun id => !live fragments id

structure Store where
  fragments : Fragments
  digests : DigestTable

inductive Event where
  /-- Fragments are written, changed, closed or deleted. -/
  | edit (fragments : Fragments)
  /-- `DELETE FROM fragment_digest WHERE source_ids && ids` -/
  | purge (ids : List String)
  | build (startedAt : Int) (clock : Group -> Int)

namespace Store

def initial : Store where
  fragments := .empty
  digests := .empty

def step (platform : Platform) (store : Store) : Event -> Store
  | .edit fragments => { store with fragments := fragments }
  | .purge ids =>
    { store with
      digests := store.digests.deleteWhere fun digest =>
        digest.sourceIds.any fun id => decide (id ∈ ids) }
  | .build startedAt clock =>
    { store with
      digests := buildDigests platform startedAt clock store.fragments store.digests }

end Store

def system (platform : Platform) : System Store Event where
  start := fun store => store = .initial
  step := fun before event after => after = before.step platform event

end AnchorMind.Consolidate.Digests

/-!
# What the digests say after a cycle

A cycle writes a digest for each group with enough fragments, from the rows that are
eligible then.  Its text is rendered anew when the source hash has changed, and stays
otherwise; a digest of another group stays while its sources are not closed.
-/

namespace AnchorMind.Consolidate.Digests

open Kernel.KeyedTable Kernel.StampedCache Kernel.Transition List

variable {platform : Platform} {fragments : Fragments} {digests : DigestTable} {digest : Digest}
  {group : Group} {rows : List Fragment} {now : Int} {clock : Group -> Int}

theorem mem_items {row : Fragment} (hrow : row ∈ items platform fragments group) :
    row ∈ fragments /\ eligible row = true := by
  have hmember : row ∈ members fragments group :=
    (perm_insertionSort _ _).mem_iff.mp (mem_of_mem_take hrow)
  obtain ⟨hmem, hselected⟩ := mem_filter.mp hmember
  exact ⟨hmem, (Bool.and_eq_true_iff.mp hselected).1⟩

theorem live_of_mem_items {row : Fragment} (hrow : row ∈ items platform fragments group) :
    live fragments row.id = true := by
  obtain ⟨hmem, heligible⟩ := mem_items hrow
  simp only [eligible, Bool.and_eq_true] at heligible
  refine any_eq_true.mpr ⟨row, hmem, ?_⟩
  rw [decide_eq_true rfl, Bool.true_and]
  exact heligible.1.1.1.1

def allGroups (fragments : Fragments) : List Group :=
  candidateGroups fragments .topicTimeline ++ candidateGroups fragments .preferenceProfile

def WithinLimit (fragments : Fragments) : Prop :=
  ∀ kind, (candidateGroups fragments kind).length ≤ DIGEST_GROUP_LIMIT

theorem cycleGroups_eq (hlimit : WithinLimit fragments) :
    cycleGroups fragments = allGroups fragments := by
  rw [cycleGroups, allGroups, take_of_length_le (hlimit _), take_of_length_le (hlimit _)]

theorem kind_of_groupOf {kind : Kind} {fragment : Fragment}
    (hgroup : groupOf kind fragment = some group) : group.kind = kind := by
  cases kind with
  | topicTimeline =>
    cases hgroup
    rfl
  | preferenceProfile =>
    unfold groupOf at hgroup
    simp only at hgroup
    split at hgroup
    · cases hgroup
      rfl
    · cases hgroup

theorem kind_of_candidate {kind : Kind} (hgroup : group ∈ candidateGroups fragments kind) :
    group.kind = kind := by
  have hfiltered := (perm_insertionSort _ _).mem_iff.mp hgroup
  have hmem := mem_dedup.mp (mem_filter.mp hfiltered).1
  obtain ⟨fragment, _, hfragment⟩ := mem_filterMap.mp hmem
  exact kind_of_groupOf hfragment

theorem allGroups_nodup (fragments : Fragments) : (allGroups fragments).Nodup := by
  have hnodup : ∀ kind, (candidateGroups fragments kind).Nodup := fun kind =>
    (perm_insertionSort _ _).nodup_iff.mpr ((nodup_dedup _).filter _)
  refine Nodup.append (hnodup _) (hnodup _) fun group htimeline hprofile => ?_
  have hkinds := (kind_of_candidate htimeline).symm.trans (kind_of_candidate hprofile)
  cases hkinds

/-- The text of a digest was rendered for its group, from rows with its source hash. -/
def Digest.Justified (platform : Platform) (digest : Digest) : Prop :=
  (derivation platform digest.kind digest.subject).Justifies digest.entry

structure WrittenFrom (platform : Platform) (fragments : Fragments) (group : Group)
    (digest : Digest) : Prop where
  scopeKey_eq : digest.scopeKey = group.scopeKey
  sourceIds_eq : digest.sourceIds = (items platform fragments group).map Fragment.id
  itemCount_eq : digest.itemCount = (items platform fragments group).length
  sourceHash_eq : digest.sourceHash = sourceHash platform (items platform fragments group)
  justified : digest.Justified platform

inductive Upserted (platform : Platform) (now : Int) (group : Group) (rows : List Fragment)
    (digests : DigestTable) (digest : Digest) : Prop where
  | other (hmem : digest ∈ digests) (hother : digest.scopeKey ≠ group.scopeKey)
  | added (hnew : ∀ old ∈ digests, old.scopeKey ≠ group.scopeKey)
      (heq : digest = newDigest platform now group rows)
  | rewritten {old : Digest} (hmem : old ∈ digests) (hkey : old.scopeKey = group.scopeKey)
      (heq : digest = (rewrite platform now group rows).image old)

theorem mem_upsertDigest (hmem : digest ∈ upsertDigest platform now group rows digests) :
    Upserted platform now group rows digests digest := by
  unfold upsertDigest Table.upsert at hmem
  split at hmem
  · rename_i hfresh
    rcases Table.mem_insert.mp hmem with hold | hnew
    · exact .other hold (hfresh digest hold)
    · exact .added hfresh hnew
  · obtain ⟨old, hold, ⟨hselected, heq⟩ | ⟨hunselected, rfl⟩⟩ := Table.mem_apply.mp hmem
    · exact .rewritten hold (of_decide_eq_true hselected) heq
    · exact .other hold (of_decide_eq_false hunselected)

theorem mem_upsertDigest_of_other (hmem : digest ∈ digests)
    (hother : digest.scopeKey ≠ group.scopeKey) :
    digest ∈ upsertDigest platform now group rows digests := by
  unfold upsertDigest Table.upsert
  split
  · exact Table.mem_insert.mpr (.inl hmem)
  · exact Table.mem_apply_of_unselected hmem (decide_eq_false hother)

theorem exists_upsertDigest (platform : Platform) (now : Int) (group : Group) (rows : List Fragment)
    (digests : DigestTable) :
    ∃ digest ∈ upsertDigest platform now group rows digests,
      digest.scopeKey = group.scopeKey :=
  Table.exists_key_upsert

theorem sameGroup_of_scopeKey (hkey : digest.scopeKey = group.scopeKey) :
    digest.kind = group.kind /\ digest.subject = group.subject := by
  simp only [Digest.scopeKey, Group.scopeKey, Prod.mk.injEq] at hkey
  exact ⟨hkey.2.2.2.1, hkey.2.2.2.2⟩

section

variable (hdigests : ∀ digest ∈ digests, digest.Justified platform)
include hdigests

theorem justified_upsertDigest (hmem : digest ∈ upsertDigest platform now group rows digests) :
    digest.Justified platform := by
  cases mem_upsertDigest hmem with
  | other hold _ => exact hdigests digest hold
  | added _ heq =>
    rw [heq]
    exact Derivation.justifies_fresh rows
  | @rewritten old hold hkey heq =>
    obtain ⟨hkind, hsubject⟩ := sameGroup_of_scopeKey hkey
    have hrefreshed := (hdigests old hold).refresh rows
    rw [hkind, hsubject] at hrefreshed
    rw [heq]
    simp only [Digest.Justified, rewrite, hkind, hsubject]
    exact hrefreshed

theorem writtenFrom_of_key
    (hmem : digest ∈ upsertDigest platform now group (items platform fragments group) digests)
    (hkey : digest.scopeKey = group.scopeKey) : WrittenFrom platform fragments group digest := by
  have hjustified := justified_upsertDigest hdigests hmem
  cases mem_upsertDigest hmem with
  | other _ hother => exact absurd hkey hother
  | added _ heq =>
    subst heq
    exact ⟨rfl, rfl, rfl, rfl, hjustified⟩
  | rewritten _ _ heq =>
    subst heq
    exact ⟨hkey, rfl, rfl, rfl, hjustified⟩

inductive Origin (platform : Platform) (fragments : Fragments) (groups : List Group)
    (before : DigestTable) (digest : Digest) : Prop where
  | written {group : Group} (hgroup : group ∈ groups)
      (hwritten : WrittenFrom platform fragments group digest)
  | kept (hmem : digest ∈ before) (hother : ∀ group ∈ groups,
      group.scopeKey ≠ digest.scopeKey)

theorem mem_upsertAll (groups : List Group) :
    (∀ digest ∈ upsertAll platform clock fragments groups digests,
        digest.Justified platform) /\
      ∀ digest ∈ upsertAll platform clock fragments groups digests,
        Origin platform fragments groups digests digest := by
  induction groups using reverseRecOn with
  | nil => exact ⟨hdigests, fun digest hmem => .kept hmem fun group hgroup => by cases hgroup⟩
  | append_singleton groups group ih =>
    obtain ⟨hjustified, horigin⟩ := ih
    simp only [upsertAll, foldl_append, foldl_cons, foldl_nil] at *
    refine ⟨fun digest hmem => justified_upsertDigest hjustified hmem, fun digest hmem => ?_⟩
    rcases Decidable.em (digest.scopeKey = group.scopeKey) with hkey | hother
    · exact .written (mem_append_right _ (mem_singleton_self group))
        (writtenFrom_of_key hjustified hmem hkey)
    · have hbefore : digest ∈ groups.foldl (fun digests group =>
          upsertDigest platform (clock group) group (items platform fragments group) digests)
            digests := by
        cases mem_upsertDigest hmem with
        | other hold _ => exact hold
        | added _ heq => exact absurd (congrArg Digest.scopeKey heq) hother
        | rewritten _ hkey heq => exact absurd ((congrArg Digest.scopeKey heq).trans hkey) hother
      cases horigin digest hbefore with
      | written hgroup hwritten => exact .written (mem_append_left _ hgroup) hwritten
      | kept hold hnone =>
        refine .kept hold fun other hgroup => ?_
        rcases mem_append.mp hgroup with hearlier | hlast
        · exact hnone other hearlier
        · rw [mem_singleton.mp hlast]
          exact Ne.symm hother

end

variable {groups : List Group}

theorem mem_upsertAll_of_other (hother : ∀ group ∈ groups, group.scopeKey ≠ digest.scopeKey) :
    digest ∈ upsertAll platform clock fragments groups digests <-> digest ∈ digests := by
  induction groups generalizing digests with
  | nil => exact Iff.rfl
  | cons group groups ih =>
    have hfirst := Ne.symm (hother group mem_cons_self)
    refine (ih fun other hmem => hother other (mem_cons_of_mem _ hmem)).trans ⟨fun hmem => ?_,
      fun hmem => mem_upsertDigest_of_other hmem hfirst⟩
    cases mem_upsertDigest hmem with
    | other hold _ => exact hold
    | added _ heq => exact absurd (congrArg Digest.scopeKey heq) hfirst
    | rewritten _ hkey heq => exact absurd ((congrArg Digest.scopeKey heq).trans hkey) hfirst

structure Refreshed (platform : Platform) (fragments : Fragments) (group : Group)
    (before : DigestTable) (digest : Digest) : Prop where
  changed : (∀ old ∈ before, old.scopeKey = group.scopeKey ->
      old.sourceHash ≠ sourceHash platform (items platform fragments group)) ->
    digest.content = group.kind.render platform group.subject (items platform fragments group)
  unchanged : ∀ old ∈ before, old.scopeKey = group.scopeKey ->
    old.sourceHash = sourceHash platform (items platform fragments group) ->
      digest.content = old.content

theorem exists_refreshed (hgroup : group ∈ groups) (hnodup : groups.Nodup)
    (halone : ∀ other ∈ groups, other.scopeKey = group.scopeKey -> other = group) :
    ∃ digest ∈ upsertAll platform clock fragments groups digests,
      digest.scopeKey = group.scopeKey /\ Refreshed platform fragments group digests digest := by
  obtain ⟨front, back, rfl⟩ := append_of_mem hgroup
  have hsplit := nodup_middle.mp hnodup
  have hothers : ∀ other ∈ front ++ back, other.scopeKey ≠ group.scopeKey := by
    intro other hmem hkey
    have hmem' : other ∈ front ++ group :: back := by
      rcases mem_append.mp hmem with hfront | hback
      · exact mem_append_left _ hfront
      · exact mem_append_right _ (mem_cons_of_mem _ hback)
    exact (nodup_cons.mp hsplit).1 (halone other hmem' hkey ▸ hmem)
  have hfront : ∀ old : Digest, old.scopeKey = group.scopeKey ->
      (old ∈ upsertAll platform clock fragments front digests <-> old ∈ digests) := by
    intro old hkey
    exact mem_upsertAll_of_other fun other hmem =>
      hkey.symm ▸ hothers other (mem_append_left _ hmem)
  obtain ⟨digest, hmem, hkey⟩ := exists_upsertDigest platform (clock group) group
    (items platform fragments group) (upsertAll platform clock fragments front digests)
  refine ⟨digest, ?_, hkey, ?_⟩
  · rw [upsertAll, foldl_append, foldl_cons]
    exact (mem_upsertAll_of_other fun other hback =>
      hkey.symm ▸ hothers other (mem_append_right _ hback)).mpr hmem
  · cases mem_upsertDigest hmem with
    | other _ hother => exact absurd hkey hother
    | added hnew heq =>
      subst heq
      refine ⟨fun _ => rfl, fun old hold hsame _ => ?_⟩
      exact absurd hsame (hnew old ((hfront old hsame).mpr hold))
    | @rewritten old hold hsame heq =>
      subst heq
      have hbefore := (hfront old hsame).mp hold
      constructor
      · intro hchanged
        exact if_neg (hchanged old hbefore hsame)
      · intro stored hstored hstoredKey hhash
        obtain rfl := Table.eq_of_key_eq hstored hbefore (hstoredKey.trans hsame.symm)
        exact if_pos hhash

theorem WrittenFrom.sourcesLive (hwritten : WrittenFrom platform fragments group digest) :
    (digest.sourceIds.any fun id => !live fragments id) = false := by
  rw [hwritten.sourceIds_eq, any_eq_false]
  intro id hmem
  obtain ⟨row, hrow, rfl⟩ := mem_map.mp hmem
  rw [live_of_mem_items hrow]
  exact Bool.false_ne_true

theorem justified_of_reachable {store : Store} (hreach : (system platform).Reachable store) :
    ∀ digest ∈ store.digests, digest.Justified platform := by
  obtain ⟨origin, labels, rfl, hrun⟩ := hreach
  let Inv : Store -> Prop := fun store =>
    ∀ digest ∈ store.digests, digest.Justified platform
  have hkeep : ∀ before event after, Inv before ->
      (system platform).step before event after -> Inv after := by
    rintro before event after hinv rfl
    cases event with
    | edit fragments => exact hinv
    | purge ids => exact fun digest hmem => hinv digest (Table.mem_deleteWhere.mp hmem).1
    | build startedAt clock =>
      intro digest hmem
      exact (mem_upsertAll hinv _).1 digest (Table.mem_deleteWhere.mp hmem).1
  exact hrun.preserves hkeep fun digest hmem => absurd hmem (Table.not_mem_empty digest)

/--
After a cycle that leaves no group out, a digest either has the eligible rows of its group as
sources and a text rendered from rows with the same source hash, or its group has too few
eligible rows and, if it is older than the cycle, no source of it is closed.  A group whose
key is its own gets the text rendered from its eligible rows if their source hash is not the
one it had, and keeps the text it had otherwise.
-/
theorem digests_after_build {before : Store} (hreach : (system platform).Reachable before)
    (startedAt : Int) (clock : Group -> Int) (hlimit : WithinLimit before.fragments) :
    (∀ digest ∈ (before.step platform (.build startedAt clock)).digests,
      (∃ group ∈ allGroups before.fragments,
        WrittenFrom platform before.fragments group digest /\
          ∀ row ∈ items platform before.fragments group,
            row ∈ before.fragments /\ eligible row = true) \/
      digest ∈ before.digests /\
        (∀ group ∈ allGroups before.fragments,
          group.scopeKey ≠ digest.scopeKey) /\
          (digest.updatedAt < startedAt -> ∀ id ∈ digest.sourceIds,
            ∃ fragment ∈ before.fragments, fragment.id = id /\
              fragment.validTo = none)) /\
      ∀ group ∈ allGroups before.fragments,
        (∀ other ∈ allGroups before.fragments,
          other.scopeKey = group.scopeKey -> other = group) ->
        ∃ digest ∈ (before.step platform (.build startedAt clock)).digests,
          digest.scopeKey = group.scopeKey /\
            Refreshed platform before.fragments group before.digests digest := by
  have hjustified := justified_of_reachable hreach
  simp only [Store.step, buildDigests, cycleGroups_eq hlimit, Table.mem_deleteWhere]
  constructor
  · rintro digest ⟨hmem, hkept⟩
    cases (mem_upsertAll hjustified _).2 digest hmem with
    | @written group hgroup hwritten =>
      exact .inl ⟨group, hgroup, hwritten, fun row hrow => mem_items hrow⟩
    | kept hold hother =>
      refine .inr ⟨hold, hother, fun holder id hid => ?_⟩
      rw [decide_eq_true holder, Bool.true_and, any_eq_false] at hkept
      have hlive : live before.fragments id = true := by simpa using hkept id hid
      obtain ⟨fragment, hfragment, hfound⟩ := any_eq_true.mp hlive
      obtain ⟨hsame, hopen⟩ := Bool.and_eq_true_iff.mp hfound
      exact ⟨fragment, hfragment, of_decide_eq_true hsame, Option.isNone_iff_eq_none.mp hopen⟩
  · intro group hgroup halone
    obtain ⟨digest, hmem, hkey,
      hrefreshed⟩ : ∃ digest ∈ upsertAll platform clock
        before.fragments (allGroups before.fragments)
          before.digests, digest.scopeKey = group.scopeKey /\
            Refreshed platform before.fragments group before.digests digest :=
      exists_refreshed hgroup (allGroups_nodup _) halone
    refine ⟨digest, ⟨hmem, ?_⟩, hkey, hrefreshed⟩
    cases (mem_upsertAll hjustified _).2 digest hmem with
    | written _ hwritten => rw [hwritten.sourcesLive, Bool.and_false]
    | kept _ hother => exact absurd hkey.symm (hother group hgroup)

def tripPlatform : Platform where
  localeLe := fun left right => decide (left.toList ≤ right.toList)
  collationLe := fun left right => decide (left.toList ≤ right.toList)
  sha256 := fun _ => "0a03105f9cdaa78362a5ded3dec9b2b15b8710494f90669de2266518df94eefa"

def visit (id content : String) (eventTime : Option Int) : Fragment where
  id := id
  keyId := some "key"
  workspace := none
  agentId := "default"
  topic := "trip"
  type := "fact"
  content := content
  contentHash := "h" ++ id
  source := none
  createdAt := some 1790000000000000
  mentionTime := none
  eventTime := eventTime
  eventTimePrecision := eventTime.map fun _ => "month"
  validTo := none
  reviewState := none
  trustTier := some 3

def visits (eventTime : Option Int) : Fragments where
  rows := [visit "1" "Seoul" eventTime, visit "2" "Busan" none, visit "3" "Daegu" none,
    visit "4" "Ulsan" none, visit "5" "Jeju" none]
  keysNodup := by
    simp only [map_cons, map_nil, visit]
    decide
  checked := fun _ _ => trivial

def recorded : Store := Store.initial.step tripPlatform (.edit (visits none))

def corrected : Store :=
  (recorded.step tripPlatform (.build 1790000001000000 fun _ => 1790000002000000)).step tripPlatform
    (.edit (visits (some 1682899200000000)))

theorem reachable_recorded : (system tripPlatform).Reachable recorded :=
  .step (.ofStart rfl) rfl

theorem withinLimit_recorded : WithinLimit recorded.fragments := by
  intro kind
  cases kind <;> decide +kernel

theorem digests_after_build_recorded :
    ∃ digest ∈ (recorded.step tripPlatform
      (.build 1790000001000000 fun _ => 1790000002000000)).digests,
        digest.content = "[timeline] trip (5)\n2026-09-21 | fact | Seoul\n2026-09-21 | fact | " ++
          "Busan\n2026-09-21 | fact | Daegu\n2026-09-21 | fact | Ulsan\n2026-09-21 | fact | Jeju" := by
  obtain ⟨_, hrefreshed⟩ := digests_after_build reachable_recorded 1790000001000000
    (fun _ => 1790000002000000) withinLimit_recorded
  have hgroups : allGroups recorded.fragments =
      [⟨some "key", none, "default", .topicTimeline, "trip"⟩] := by
    decide +kernel
  obtain ⟨digest, hmem, _, hchanged⟩ := hrefreshed
    ⟨some "key", none, "default", .topicTimeline, "trip"⟩ (by rw [hgroups]; exact .head _) (by
      intro other hother _
      rw [hgroups] at hother
      exact mem_singleton.mp hother)
  refine ⟨digest, hmem, (hchanged.changed fun old hold => ?_).trans ?_⟩
  · exact absurd hold (Table.not_mem_empty old)
  · decide +kernel

theorem not_digest_current : Not (∀ (platform : Platform) (before : Store),
    (system platform).Reachable before -> ∀ (startedAt : Int) (clock : Group -> Int),
      WithinLimit before.fragments ->
        ∀ digest ∈ (before.step platform (.build startedAt clock)).digests,
          ∃ group ∈ allGroups before.fragments,
            digest.scopeKey = group.scopeKey /\
              digest.content = group.kind.render platform group.subject
                (items platform before.fragments group)) := by
  intro hclaim
  have hreach : (system tripPlatform).Reachable corrected :=
    .step (.step reachable_recorded rfl) rfl
  have hlimit : WithinLimit corrected.fragments := by
    intro kind
    cases kind <;> decide +kernel
  have hstale : ((corrected.step tripPlatform
      (.build 1790000003000000 fun _ => 1790000004000000)).digests.rows.any fun digest =>
        (allGroups corrected.fragments).all fun group =>
          decide (digest.content ≠ group.kind.render tripPlatform group.subject
            (items tripPlatform corrected.fragments group))) = true := by
    decide +kernel
  obtain ⟨digest, hmem, hother⟩ := any_eq_true.mp hstale
  obtain ⟨group, hgroup, _, hcontent⟩ := hclaim tripPlatform corrected hreach 1790000003000000
    (fun _ => 1790000004000000) hlimit digest hmem
  exact of_decide_eq_true (all_eq_true.mp hother group hgroup) hcontent

end AnchorMind.Consolidate.Digests
