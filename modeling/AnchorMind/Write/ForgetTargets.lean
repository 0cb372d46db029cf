import AnchorMind.Consolidate.TierTransitions
import AnchorMind.Recall.Scopes
import AnchorMind.Recall.SemanticModes

/-!
# The delete cascade of a forget

A deleted fragment takes the copies of its content along: the summaries of the case events it
is the source of, the server's records about contradictions that point to it, and the digests
built from it.  A statement counts the same beforehand without deleting anything.
-/

namespace AnchorMind.Write.ForgetCascade

open List

open Consolidate.TierTransitions (Tier)
open Kernel.KeyedTable Recall

/-- The columns that a forget reads. -/
structure FragmentRow extends Scopes.Fragment where
  id : String
  ttlTier : Option Tier
  importance : Rat
  linkedTo : List String
  deriving DecidableEq

structure CaseEvent where
  sourceFragmentId : Option String
  summary : String
  deriving DecidableEq

structure FragmentDigest where
  sourceIds : List String
  deriving DecidableEq

abbrev Fragments := Table FragmentRow.id fun row => row.id ≠ ""

structure Store where
  fragments : Fragments
  caseEvents : List CaseEvent
  digests : List FragmentDigest

def deletedSummary : String := "[삭제됨]"

def contradictionAuditTopic : String := "contradiction_audit"

structure Purge where
  caseSummaries : Nat
  auditFragments : Nat
  digests : Nat
  deriving DecidableEq

def emptyPurge : Purge := ⟨0, 0, 0⟩

def addPurge (total part : Purge) : Purge where
  caseSummaries := total.caseSummaries + part.caseSummaries
  auditFragments := total.auditFragments + part.auditFragments
  digests := total.digests + part.digests

@[simp]
theorem emptyPurge_addPurge (part : Purge) : addPurge emptyPurge part = part := by
  simp [addPurge, emptyPurge]

/-- A record that the server wrote about a contradiction it resolved. -/
def isAudit (row : FragmentRow) : Bool :=
  decide (row.topic = contradictionAuditTopic) && row.keyId.isNone

def refersTo (ids : List String) (row : FragmentRow) : Bool :=
  row.linkedTo.any fun id => decide (id ∈ ids)

def toScrub (ids : List String) (event : CaseEvent) : Bool :=
  (event.sourceFragmentId.any fun id => decide (id ∈ ids)) &&
    decide (event.summary ≠ deletedSummary)

def builtFrom (ids : List String) (digest : FragmentDigest) : Bool :=
  digest.sourceIds.any fun id => decide (id ∈ ids)

def unlinked (removedIds : List String) (row : FragmentRow) : FragmentRow :=
  { row with linkedTo := row.linkedTo.filter fun id => decide (id ∉ removedIds) }

def unlinkReferences (removedIds : List String) :
    Table.Update FragmentRow.id fun row => row.id ≠ "" where
  select := refersTo removedIds
  image := unlinked removedIds
  keepsKey _ := rfl
  keepsCheck _ _ hcheck := hcheck

/-- `DELETE FROM fragments`, and `cleanupDeletedRows` without the copies. -/
def deleteRows (fragments : Fragments) (gone : FragmentRow -> Bool) : Fragments :=
  (fragments.deleteWhere gone).apply
    (unlinkReferences ((fragments.rows.filter gone).map FragmentRow.id))

/-- `id = ANY(ids)` within the scope of a key.  The master has no scope. -/
def targeted (ids : List String) (scope : Option String) (row : FragmentRow) : Bool :=
  decide (row.id ∈ ids) && (scope.isNone || decide (row.keyId = scope))

/-- `delete` without the copies: whether the fragment was there, and what is left. -/
def delete (store : Store) (id : String) (scope : Option String) : Bool × Store :=
  if store.fragments.rows.any (targeted [id] scope) then
    (true, { store with fragments := deleteRows store.fragments fun row => decide (row.id = id) })
  else (false, store)

/-- `deleteMany` without the copies. -/
def deleteMany (store : Store) (ids : List String) (scope : Option String) : Nat × Store :=
  ((store.fragments.rows.filter (targeted ids scope)).length,
    { store with fragments := deleteRows store.fragments (targeted ids scope) })

/-- The targets that the resolution records are looked up by: none of them is such a record. -/
def cascadeSources (fragments : Fragments) (ids : List String) (scope : Option String) :
    List String :=
  (fragments.rows.filter fun row =>
    targeted ids scope row && decide (row.topic ≠ contradictionAuditTopic)).map FragmentRow.id

def cascadeDeleteLock (fragments : Fragments) (ids : List String) (scope : Option String)
    (row : FragmentRow) : Bool :=
  targeted ids scope row || isAudit row && refersTo (cascadeSources fragments ids scope) row

def lockedIds (fragments : Fragments) (ids : List String) (scope : Option String) :
    List String :=
  (fragments.rows.filter (cascadeDeleteLock fragments ids scope)).map FragmentRow.id

/-- What a cascade deleted: of the requested fragments, and the receipt for the rest. -/
structure Outcome where
  deleted : Nat
  purged : Purge
  deriving DecidableEq

def summarizeCascade (requestedIds rows : List String) (scrubbed digests : Nat) : Outcome where
  deleted := rows.length - (rows.filter fun id => decide (id ∉ requestedIds)).length
  purged := {
    caseSummaries := if rows = [] then 0 else scrubbed
    auditFragments := (rows.filter fun id => decide (id ∉ requestedIds)).length
    digests := if rows = [] then 0 else digests }

def scrub (ids : List String) (event : CaseEvent) : CaseEvent :=
  if toScrub ids event then { event with summary := deletedSummary } else event

def deleteWithCascade (store : Store) (ids : List String) (scope : Option String) :
    Outcome × Store :=
  if ids = [] then (⟨0, emptyPurge⟩, store)
  else
    let locked := lockedIds store.fragments ids scope
    (summarizeCascade ids locked (store.caseEvents.countP (toScrub locked))
        (store.digests.countP (builtFrom locked)),
      { fragments := deleteRows store.fragments (cascadeDeleteLock store.fragments ids scope)
        caseEvents := store.caseEvents.map (scrub locked)
        digests := store.digests.filter fun digest => !builtFrom locked digest })

def previewAudits (fragments : Fragments) (ids : List String) : List FragmentRow :=
  fragments.rows.filter fun row =>
    isAudit row && !decide (row.id ∈ ids) && refersTo (cascadeSources fragments ids none) row

/-- `previewCascade` -/
def previewCascade (store : Store) (ids : List String) : Purge :=
  if ids = [] then emptyPurge
  else
    let audits := (previewAudits store.fragments ids).map FragmentRow.id
    { caseSummaries := store.caseEvents.countP (toScrub (ids ++ audits))
      auditFragments := audits.length
      digests := store.digests.countP (builtFrom (ids ++ audits)) }

structure Within (fragments : Fragments) (ids : List String) (scope : Option String) : Prop where
  nodup : ids.Nodup
  inScope : ∀ id ∈ ids, ∃ row ∈ fragments, row.id = id /\
    (scope.isNone || decide (row.keyId = scope)) = true

variable {fragments : Fragments} {store : Store} {ids : List String} {scope : Option String}

section

variable (hwithin : Within fragments ids scope)
include hwithin

theorem targeted_eq {row : FragmentRow} (hrow : row ∈ fragments) :
    targeted ids scope row = decide (row.id ∈ ids) := by
  unfold targeted
  by_cases hid : row.id ∈ ids
  · obtain ⟨other, hother, hsame, hscope⟩ := hwithin.inScope row.id hid
    have hequal : other = row := Table.eq_of_key_eq hother hrow hsame
    rw [hequal] at hscope
    rw [hscope, Bool.and_true]
  · rw [decide_eq_false hid, Bool.false_and]

theorem cascadeSources_eq :
    cascadeSources fragments ids scope = cascadeSources fragments ids none := by
  unfold cascadeSources
  congr 1
  refine filter_congr fun row hrow => ?_
  rw [targeted_eq hwithin hrow]
  simp [targeted]

theorem ids_targeted_perm :
    ((fragments.rows.filter (targeted ids scope)).map FragmentRow.id).Perm ids := by
  refine (perm_ext_iff_of_nodup ?_ hwithin.nodup).mpr fun id => ?_
  · exact fragments.keysNodup.sublist (filter_sublist.map _)
  constructor
  · intro hid
    obtain ⟨row, hrow, rfl⟩ := mem_map.mp hid
    obtain ⟨hmem, htarget⟩ := mem_filter.mp hrow
    rw [targeted_eq hwithin hmem] at htarget
    exact of_decide_eq_true htarget
  · intro hid
    obtain ⟨row, hrow, rfl, _⟩ := hwithin.inScope id hid
    refine mem_map.mpr ⟨row, mem_filter.mpr ⟨hrow, ?_⟩, rfl⟩
    rw [targeted_eq hwithin hrow]
    exact decide_eq_true hid

omit hwithin in
theorem deleteMany_count (hwithin : Within store.fragments ids scope) :
    (deleteMany store ids scope).1 = ids.length := by
  rw [← (ids_targeted_perm hwithin).length_eq, length_map]
  rfl

/-- The cascade locks the targets and the records that the count finds. -/
theorem lockedIds_perm :
    (lockedIds fragments ids scope).Perm
      (ids ++ (previewAudits fragments ids).map FragmentRow.id) := by
  have haudits : ((previewAudits fragments ids).map FragmentRow.id).Nodup :=
    fragments.keysNodup.sublist (filter_sublist.map _)
  have hapart : ids.Disjoint ((previewAudits fragments ids).map FragmentRow.id) := by
    intro id hid haudit
    obtain ⟨row, hrow, rfl⟩ := mem_map.mp haudit
    have hout := (mem_filter.mp hrow).2
    simp [hid] at hout
  refine (perm_ext_iff_of_nodup ?_ (hwithin.nodup.append haudits hapart)).mpr fun id => ?_
  · exact fragments.keysNodup.sublist (filter_sublist.map _)
  rw [mem_append]
  constructor
  · intro hid
    obtain ⟨row, hrow, rfl⟩ := mem_map.mp hid
    obtain ⟨hmem, hlock⟩ := mem_filter.mp hrow
    rw [cascadeDeleteLock, targeted_eq hwithin hmem, cascadeSources_eq hwithin] at hlock
    by_cases htarget : row.id ∈ ids
    · exact .inl htarget
    · refine .inr (mem_map.mpr ⟨row, mem_filter.mpr ⟨hmem, ?_⟩, rfl⟩)
      simpa [htarget] using hlock
  · rintro (hid | hid)
    · obtain ⟨row, hrow, rfl, _⟩ := hwithin.inScope id hid
      refine mem_map.mpr ⟨row, mem_filter.mpr ⟨hrow, ?_⟩, rfl⟩
      rw [cascadeDeleteLock, targeted_eq hwithin hrow, decide_eq_true hid, Bool.true_or]
    · obtain ⟨row, hrow, rfl⟩ := mem_map.mp hid
      obtain ⟨hmem, haudit⟩ := mem_filter.mp hrow
      refine mem_map.mpr ⟨row, mem_filter.mpr ⟨hmem, ?_⟩, rfl⟩
      simp only [Bool.and_eq_true] at haudit
      rw [cascadeDeleteLock, cascadeSources_eq hwithin, haudit.1.1, haudit.2, Bool.true_and,
        Bool.or_true]

end

variable {first second : List String}

theorem toScrub_congr (hperm : first.Perm second) : toScrub first = toScrub second := by
  funext event
  unfold toScrub
  simp only [hperm.mem_iff]

theorem builtFrom_congr (hperm : first.Perm second) : builtFrom first = builtFrom second := by
  funext digest
  unfold builtFrom
  simp only [hperm.mem_iff]

theorem deleteWithCascade_outcome (hwithin : Within store.fragments ids scope) :
    (deleteWithCascade store ids scope).1 = ⟨ids.length, previewCascade store ids⟩ := by
  by_cases hnil : ids = []
  · rw [deleteWithCascade, previewCascade, if_pos hnil, if_pos hnil, hnil]
    rfl
  have hperm := lockedIds_perm hwithin
  have hlength := hperm.length_eq
  rw [length_append] at hlength
  have haudits : ((lockedIds store.fragments ids scope).filter fun id =>
      decide (id ∉ ids)).length = (previewAudits store.fragments ids).length := by
    rw [(hperm.filter _).length_eq, filter_append]
    have hnone : ids.filter (fun id => decide (id ∉ ids)) = [] :=
      filter_eq_nil_iff.mpr fun id hid => by simp [hid]
    have hall : ((previewAudits store.fragments ids).map FragmentRow.id).filter
        (fun id => decide (id ∉ ids)) = (previewAudits store.fragments ids).map FragmentRow.id := by
      refine filter_eq_self.mpr fun id hid => ?_
      obtain ⟨row, hrow, rfl⟩ := mem_map.mp hid
      have hout := (mem_filter.mp hrow).2
      simp only [Bool.and_eq_true] at hout
      simpa using hout.1.2
    rw [hnone, hall, nil_append, length_map]
  have hlocked : lockedIds store.fragments ids scope ≠ [] := by
    intro hempty
    rw [hempty] at hperm
    exact hnil (append_eq_nil_iff.mp hperm.nil_eq.symm).1
  rw [length_map] at hlength
  simp only [deleteWithCascade, previewCascade, if_neg hnil, summarizeCascade, if_neg hlocked,
    haudits, toScrub_congr hperm, builtFrom_congr hperm, hlength, Nat.add_sub_cancel,
    length_map]

/-- A resolution record about one of the fragments that is no such record itself. -/
def takenAlong (fragments : Fragments) (ids : List String) (row : FragmentRow) : Bool :=
  isAudit row && refersTo (cascadeSources fragments ids none) row

structure Removes (cascade : Bool) (before after : Fragments) (ids : List String) : Prop where
  gone : ∀ row ∈ before, ((¬ ∃ kept ∈ after, kept.id = row.id) <->
    row.id ∈ ids \/ cascade = true /\ takenAlong before ids row = true)
  kept : ∀ kept ∈ after, ∃ row ∈ before,
    kept = { row with linkedTo := kept.linkedTo } /\
    ∀ other ∈ after, (other.id ∈ kept.linkedTo <-> other.id ∈ row.linkedTo)

variable {cascade : Bool} {before between after : Fragments} {more : List String}
  {row : FragmentRow}

theorem refersTo_iff : refersTo ids row = true <-> ∃ id ∈ ids, id ∈ row.linkedTo := by
  simp only [refersTo, any_eq_true, decide_eq_true_eq]
  exact exists_congr fun id => and_comm

theorem mem_cascadeSources {id : String} :
    id ∈ cascadeSources fragments ids none <-> ∃ source ∈ fragments,
      source.id ∈ ids /\ source.topic ≠ contradictionAuditTopic /\ source.id = id := by
  simp [cascadeSources, targeted, Table.mem_def, and_assoc]

theorem takenAlong_iff :
    takenAlong fragments ids row = true <-> isAudit row = true /\
      ∃ source ∈ fragments, source.id ∈ ids /\
        source.topic ≠ contradictionAuditTopic /\ source.id ∈ row.linkedTo := by
  rw [takenAlong, Bool.and_eq_true, refersTo_iff]
  refine and_congr_right fun _ => ?_
  constructor
  · rintro ⟨_, hsource, hlinked⟩
    obtain ⟨source, hmem, hid, htopic, rfl⟩ := mem_cascadeSources.mp hsource
    exact ⟨source, hmem, hid, htopic, hlinked⟩
  · rintro ⟨source, hmem, hid, htopic, hlinked⟩
    exact ⟨source.id, mem_cascadeSources.mpr ⟨source, hmem, hid, htopic, rfl⟩, hlinked⟩

theorem takenAlong_append :
    takenAlong fragments (ids ++ more) row = true <->
      takenAlong fragments ids row = true \/ takenAlong fragments more row = true := by
  simp only [takenAlong_iff, mem_append]
  constructor
  · rintro ⟨haudit, source, hmem, hid | hid, hrest⟩
    · exact Or.inl ⟨haudit, source, hmem, hid, hrest⟩
    · exact Or.inr ⟨haudit, source, hmem, hid, hrest⟩
  · rintro (⟨haudit, source, hmem, hid, hrest⟩ | ⟨haudit, source, hmem, hid, hrest⟩)
    · exact ⟨haudit, source, hmem, .inl hid, hrest⟩
    · exact ⟨haudit, source, hmem, .inr hid, hrest⟩

theorem unlinkReferences_eq (removedIds : List String) (row : FragmentRow) :
    (if (unlinkReferences removedIds).select row then (unlinkReferences removedIds).image row
      else row) = unlinked removedIds row := by
  split
  · rfl
  · rename_i hnone
    have hall : (row.linkedTo.filter fun id => decide (id ∉ removedIds)) = row.linkedTo := by
      refine filter_eq_self.mpr fun id hid => decide_eq_true fun hremoved => hnone ?_
      exact refersTo_iff.mpr ⟨id, hremoved, hid⟩
    rw [unlinked, hall]

variable {gone : FragmentRow -> Bool}

theorem mem_deleteRows {kept : FragmentRow} :
    kept ∈ deleteRows fragments gone <-> ∃ row ∈ fragments, gone row = false /\
      kept = unlinked ((fragments.rows.filter gone).map FragmentRow.id) row := by
  constructor
  · intro hkept
    obtain ⟨row, hrow, hkept⟩ := mem_map.mp hkept
    obtain ⟨hmem, hgone⟩ := mem_filter.mp hrow
    rw [unlinkReferences_eq] at hkept
    exact ⟨row, hmem, by simpa using hgone, hkept.symm⟩
  · rintro ⟨row, hmem, hgone, rfl⟩
    refine mem_map.mpr ⟨row, mem_filter.mpr ⟨hmem, by simp [hgone]⟩, ?_⟩
    rw [unlinkReferences_eq]

theorem removes_deleteRows
    (hgone : ∀ row ∈ fragments, (gone row = true <->
      row.id ∈ ids \/ cascade = true /\ takenAlong fragments ids row = true)) :
    Removes cascade fragments (deleteRows fragments gone) ids where
  gone := by
    intro row hrow
    rw [← hgone row hrow]
    constructor
    · intro hnone
      by_contra hkept
      exact hnone ⟨_, mem_deleteRows.mpr ⟨row, hrow, eq_false_of_ne_true hkept, rfl⟩, rfl⟩
    · rintro htrue ⟨kept, hkept, hid⟩
      obtain ⟨source, hsource, hfalse, rfl⟩ := mem_deleteRows.mp hkept
      have hsame : source = row := Table.eq_of_key_eq hsource hrow hid
      rw [hsame, htrue] at hfalse
      cases hfalse
  kept := by
    intro kept hkept
    obtain ⟨row, hrow, _, rfl⟩ := mem_deleteRows.mp hkept
    refine ⟨row, hrow, rfl, fun other hother => ?_⟩
    obtain ⟨source, hsource, hfalse, rfl⟩ := mem_deleteRows.mp hother
    have hstays : source.id ∉ (fragments.rows.filter gone).map FragmentRow.id := by
      intro hremoved
      obtain ⟨removed, hremoved, hid⟩ := mem_map.mp hremoved
      obtain ⟨hmem, htrue⟩ := mem_filter.mp hremoved
      have hsame : removed = source := Table.eq_of_key_eq hmem hsource hid
      rw [hsame, hfalse] at htrue
      cases htrue
    exact mem_filter.trans (and_iff_left (decide_eq_true hstays))

theorem removes_nil : Removes cascade fragments fragments [] where
  gone := by
    intro row hrow
    have hnone : ¬ takenAlong fragments [] row = true := by
      rw [takenAlong_iff]
      rintro ⟨_, _, _, hid, _⟩
      cases hid
    exact iff_of_false (fun hgone => hgone ⟨row, hrow, rfl⟩) (by simp [hnone])
  kept kept hkept := ⟨kept, hkept, rfl, fun _ _ => Iff.rfl⟩

theorem cascadeDeleteLock_iff (hwithin : Within fragments ids scope) (hrow : row ∈ fragments) :
    cascadeDeleteLock fragments ids scope row = true <->
      row.id ∈ ids \/ takenAlong fragments ids row = true := by
  rw [cascadeDeleteLock, targeted_eq hwithin hrow, cascadeSources_eq hwithin]
  simp [takenAlong]

theorem deleteMany_removes (hwithin : Within store.fragments ids scope) :
    Removes false store.fragments (deleteMany store ids scope).2.fragments ids := by
  refine removes_deleteRows fun row hrow => ?_
  rw [targeted_eq hwithin hrow]
  simp

theorem deleteWithCascade_removes (hwithin : Within store.fragments ids scope) :
    Removes true store.fragments (deleteWithCascade store ids scope).2.fragments ids := by
  by_cases hnil : ids = []
  · rw [deleteWithCascade, if_pos hnil, hnil]
    exact removes_nil
  · rw [deleteWithCascade, if_neg hnil]
    refine removes_deleteRows fun row hrow => ?_
    rw [cascadeDeleteLock_iff hwithin hrow, and_iff_right rfl]

theorem takenAlong_of_kept {kept : FragmentRow} (hremoves : Removes cascade before between ids)
    (hequal : kept = { row with linkedTo := kept.linkedTo })
    (hlinks : ∀ other ∈ between, (other.id ∈ kept.linkedTo <-> other.id ∈ row.linkedTo))
    (hmore : ∀ id ∈ more, ∃ row ∈ between, row.id = id) :
    takenAlong between more kept = true <-> takenAlong before more row = true := by
  have haudit : isAudit kept = isAudit row := by rw [hequal]; rfl
  rw [takenAlong_iff, takenAlong_iff, haudit]
  refine and_congr_right fun _ => ?_
  constructor
  · rintro ⟨source, hsource, hid, htopic, hlinked⟩
    obtain ⟨origin, horigin, hfrom, _⟩ := hremoves.kept source hsource
    have hlinked := (hlinks source hsource).mp hlinked
    rw [hfrom] at hid htopic hlinked
    exact ⟨origin, horigin, hid, htopic, hlinked⟩
  · rintro ⟨origin, horigin, hid, htopic, hlinked⟩
    obtain ⟨source, hsource, hsame⟩ := hmore origin.id hid
    obtain ⟨other, hother, hfrom, _⟩ := hremoves.kept source hsource
    have horiginal : other = origin := by
      refine Table.eq_of_key_eq hother horigin ?_
      rw [← hsame, hfrom]
    subst horiginal
    refine ⟨source, hsource, by rwa [hsame], ?_, ?_⟩
    · rw [hfrom]
      exact htopic
    · rw [hlinks source hsource, hsame]
      exact hlinked

theorem Removes.trans (hfirst : Removes cascade before between ids)
    (hsecond : Removes cascade between after more)
    (hmore : ∀ id ∈ more, ∃ row ∈ between, row.id = id) :
    Removes cascade before after (ids ++ more) where
  gone := by
    intro row hrow
    rw [mem_append, takenAlong_append]
    by_cases hkept : ∃ kept ∈ between, kept.id = row.id
    · have hstays := mt (hfirst.gone row hrow).mpr (not_not.mpr hkept)
      obtain ⟨kept, hmem, hid⟩ := hkept
      obtain ⟨source, hsource, hequal, hlinks⟩ := hfirst.kept kept hmem
      have hsame : source = row := by
        refine Table.eq_of_key_eq hsource hrow ?_
        rw [← hid, hequal]
      subst hsame
      have hgone := hsecond.gone kept hmem
      rw [hid, takenAlong_of_kept hfirst hequal hlinks hmore] at hgone
      rw [hgone]
      tauto
    · have hgone := (hfirst.gone row hrow).mp hkept
      refine iff_of_true ?_ (by tauto)
      rintro ⟨kept, hmem, hid⟩
      obtain ⟨source, hsource, hequal, _⟩ := hsecond.kept kept hmem
      refine hkept ⟨source, hsource, ?_⟩
      rw [← hid, hequal]
  kept := by
    intro kept hmem
    obtain ⟨middle, hmiddle, hequal, hlinks⟩ := hsecond.kept kept hmem
    obtain ⟨row, hrow, hfrom, hbefore⟩ := hfirst.kept middle hmiddle
    refine ⟨row, hrow, ?_, ?_⟩
    · rw [hequal, hfrom]
    · intro other hother
      obtain ⟨source, hsource, hsame, _⟩ := hsecond.kept other hother
      have hid : other.id = source.id := by rw [hsame]
      rw [hlinks other hother, hid]
      exact hbefore source hsource

end AnchorMind.Write.ForgetCascade

/-!
# The targets of a forget

A forget by id looks its fragment up, and a forget by topic takes the first fragments of the
topic that its key wrote.  Permanent fragments come last and are left out, unless the forget
is forced.
-/

namespace AnchorMind.Write.ForgetTargets

open List

open Consolidate.TierTransitions (Tier)
open Kernel.KeyedTable
open Kernel.RoundedSum (sortByKey sortByKey_perm sortByKey_pairwise filter_sortByKey
  sortByKey_map)
open Kernel.TopRows (filter_take take_filter_take)
open Recall.Scopes
open Recall.SemanticModes (timeKey)
open ForgetCascade

/-- The arguments of a forget but for `dryRun`, and what the server adds about the key. -/
structure Params where
  id : Option String
  topic : Option String
  force : Bool
  agentId : Option String
  workspace : Option String
  keyId : Option String
  defaultWorkspace : Option String
  groupKeyIds : Option (List String)
  forgetGrants : List String
  groupShareScopes : String -> Option (List String)

structure RequestCtx where
  agentId : String
  keyId : Option String
  groupKeyIds : Option (List String)

def given (text : Option String) : Option String := text.filter fun text => text ≠ ""

def extractRequestCtx (params : Params) : RequestCtx where
  agentId := (given params.agentId).getD "default"
  keyId := params.keyId
  groupKeyIds := params.groupKeyIds.or (params.keyId.map fun keyId => [keyId])

def inAgentScope {Value : Type} (ctx : RequestCtx) (value : Value) : Except ScopeError Value :=
  (resolveAgentScope ctx.agentId false false).map fun _ => value

def forgetQuery (ctx : RequestCtx) : Query where
  agentId := ctx.agentId
  isMaster := false
  includePeerAgents := false
  keyId := none
  viewerKeyId := none
  workspace := none
  allWorkspaces := false
  readRange := none
  includeSuperseded := true
  type := none
  topic := none
  caseId := none
  resolutionStatus := none
  phase := none
  affect := none
  isAnchor := none
  timeRange := none

def readableKeys (keyId : String) (groupKeyIds : Option (List String)) : List String :=
  keyId ::
    match groupKeyIds with
    | none | some [] => [keyId]
    | some keys => keys

def lookupQuery (ctx : RequestCtx) : Query :=
  { forgetQuery ctx with
    keyId := ctx.keyId.map fun keyId => readableKeys keyId ctx.groupKeyIds
    viewerKeyId := some (.key ctx.keyId) }

/-- `reviewPointClause`: the master sees held fragments too. -/
def reviewPointClause (ctx : RequestCtx) (row : FragmentRow) : Bool :=
  ctx.keyId.isNone || reviewVisibility (lookupQuery ctx) row.toFragment

def getById (fragments : Fragments) (id : String) (ctx : RequestCtx) :
    Except ScopeError (Option FragmentRow) :=
  inAgentScope ctx (fragments.rows.find? fun row =>
    decide (row.id = id) && agentScopeCondition (lookupQuery ctx) row.toFragment &&
      liveOrClosedCondition true row.toFragment &&
      keyScopeClause (lookupQuery ctx) row.toFragment && reviewPointClause ctx row)

def isShareReadable (params : Params) (ctx : RequestCtx) (row : FragmentRow) : Bool :=
  match ctx.keyId, row.keyId with
  | some keyId, some owner =>
    decide (owner = keyId) ||
      match params.groupShareScopes owner with
      | none => true
      | some workspaces => row.workspace.all fun workspace => workspace ∈ workspaces
  | _, _ => true

def lookupForget (fragments : Fragments) (params : Params) (id : String) (ctx : RequestCtx) :
    Except ScopeError (Option FragmentRow) :=
  (getById fragments id ctx).map fun frag => frag.filter (isShareReadable params ctx)

def ownsFragment (row : FragmentRow) (keyId : Option String) : Bool :=
  keyId.isNone || decide (row.keyId = keyId)

/-- `canActOnGroupFragment` for a forget. -/
def canActOnGroupFragment (params : Params) (keyId owner : Option String) : Bool :=
  keyId.isNone || decide (owner = keyId) || owner.any fun owner => owner ∈ params.forgetGrants

def canForgetById (row : FragmentRow) (params : Params) (ctx : RequestCtx) : Bool :=
  ownsFragment row ctx.keyId || canActOnGroupFragment params ctx.keyId row.keyId

def topicBatch : Nat := 200

def topicQuery (params : Params) (ctx : RequestCtx) : Query :=
  { forgetQuery ctx with
    keyId := ctx.keyId.map fun keyId => [keyId]
    workspace := params.workspace.or params.defaultWorkspace }

def isPermanent (row : FragmentRow) : Bool := decide (row.ttlTier = some Tier.permanent)

def ofTopic (params : Params) (topic : String) (ctx : RequestCtx) (row : FragmentRow) : Bool :=
  decide (row.topic = topic) && agentScopeCondition (topicQuery params ctx) row.toFragment &&
    keyScopeClause (topicQuery params ctx) row.toFragment &&
    reviewVisibility (topicQuery params ctx) row.toFragment &&
    workspaceCondition (topicQuery params ctx) row.toFragment &&
    liveOrClosedCondition true row.toFragment

structure TopicRow where
  row : FragmentRow
  permanentTotal : Option Nat

section

variable {Weight : Type} [LinearOrder Weight] (collation : String ↪ Weight)

/-- `ORDER BY (permanent) ASC, importance DESC, created_at DESC, id ASC` -/
def topicOrder (protectPermanent : Bool) (row : FragmentRow) :
    Bool ×ₗ (OrderDual Rat) ×ₗ WithBot (OrderDual Int) ×ₗ Weight :=
  toLex (protectPermanent && isPermanent row, toLex (OrderDual.toDual row.importance,
    toLex (timeKey row.createdAt, collation row.id)))

def searchByTopic (fragments : Fragments) (params : Params) (topic : String) (ctx : RequestCtx)
    (protectPermanent : Bool) (limit : Nat) : Except ScopeError (List TopicRow) :=
  let found := fragments.rows.filter (ofTopic params topic ctx)
  let total := if protectPermanent then some (found.countP isPermanent) else none
  inAgentScope ctx (((sortByKey (topicOrder collation protectPermanent) found).take limit).map
    fun row => ⟨row, total⟩)

structure Selection where
  toDelete : List FragmentRow
  protectedCount : Nat

def Selection.consider (protectPermanent : Bool) (keyId : Option String) (selection : Selection)
    (frag : TopicRow) : Selection :=
  if protectPermanent && isPermanent frag.row then selection
  else if !ownsFragment frag.row keyId then
    { selection with protectedCount := selection.protectedCount + 1 }
  else { selection with toDelete := selection.toDelete ++ [frag.row] }

def selectTopicTargets (fragments : Fragments) (params : Params) (topic : String)
    (ctx : RequestCtx) (limit : Nat) : Except ScopeError Selection :=
  let protectPermanent := !params.force
  (searchByTopic collation fragments params topic ctx protectPermanent limit).map fun topicFrags =>
    topicFrags.foldl (Selection.consider protectPermanent ctx.keyId)
      ⟨[], if protectPermanent then (topicFrags.head?.bind TopicRow.permanentTotal).getD 0 else 0⟩

variable {fragments : Fragments} {params : Params} {topic : String} {ctx : RequestCtx}
  {row : FragmentRow} {limit : Nat}

def deletable (params : Params) (row : FragmentRow) : Bool := params.force || !isPermanent row

def targets (fragments : Fragments) (params : Params) (topic : String) (ctx : RequestCtx) :
    List FragmentRow :=
  sortByKey (topicOrder collation (!params.force))
    ((fragments.rows.filter (ofTopic params topic ctx)).filter (deletable params))

def protectedTotal (fragments : Fragments) (params : Params) (topic : String)
    (ctx : RequestCtx) : Nat :=
  (fragments.rows.filter (ofTopic params topic ctx)).countP fun row => !deletable params row

theorem protectedTotal_eq :
    protectedTotal fragments params topic ctx =
      if !params.force then (fragments.rows.filter (ofTopic params topic ctx)).countP isPermanent
      else 0 := by
  unfold protectedTotal deletable
  cases params.force <;> simp

theorem ofTopic_inScope (htopic : ofTopic params topic ctx row = true) :
    (ctx.keyId.isNone || decide (row.keyId = ctx.keyId)) = true := by
  simp only [ofTopic, Bool.and_eq_true] at htopic
  have hscope := htopic.1.1.1.2
  unfold keyScopeClause topicQuery at hscope
  cases hkey : ctx.keyId with
  | none => rfl
  | some keyId =>
    rw [hkey] at hscope
    obtain ⟨owner, howner, hsame⟩ := (Option.any_eq_true _ _).mp hscope
    rw [howner, mem_singleton.mp (of_decide_eq_true hsame)]
    exact decide_eq_true rfl

theorem foldl_consider {frags : List TopicRow} {selection : Selection}
    (howned : ∀ frag ∈ frags, ownsFragment frag.row ctx.keyId = true) :
    frags.foldl (Selection.consider (!params.force) ctx.keyId) selection =
      { selection with
        toDelete := selection.toDelete ++ (frags.map TopicRow.row).filter (deletable params) } := by
  induction frags generalizing selection with
  | nil => simp
  | cons frag rest ih =>
    have hrest := fun other hother => howned other (mem_cons_of_mem frag hother)
    have hfrag := howned frag mem_cons_self
    rw [foldl_cons, ih hrest, map_cons]
    cases hdeletable : deletable params frag.row with
    | true =>
      have hnot : (!params.force && isPermanent frag.row) = false := by
        simpa [deletable, imp_iff_not_or] using hdeletable
      simp [Selection.consider, hnot, hfrag, filter_cons_of_pos hdeletable]
    | false =>
      have hyes : (!params.force && isPermanent frag.row) = true := by
        simpa [deletable] using hdeletable
      simp [Selection.consider, hyes, hdeletable]

omit [LinearOrder Weight] in
theorem topicOrder_injective {protectPermanent : Bool} {other : FragmentRow}
    (hsame : topicOrder collation protectPermanent row =
      topicOrder collation protectPermanent other) : row.id = other.id := by
  have hrest := (Prod.mk.inj (toLex.injective hsame)).2
  have htime := (Prod.mk.inj (toLex.injective hrest)).2
  exact collation.injective (Prod.mk.inj (toLex.injective htime)).2

omit [LinearOrder Weight] in
theorem topicOrder_nodup {protectPermanent : Bool} (p : FragmentRow -> Bool) :
    ((fragments.rows.filter p).map (topicOrder collation protectPermanent)).Nodup := by
  refine Nodup.map_on ?_ ((Nodup.of_map _ fragments.keysNodup).filter _)
  intro row hrow other hother hsame
  exact Table.eq_of_key_eq (mem_of_mem_filter hrow) (mem_of_mem_filter hother)
    (topicOrder_injective collation hsame)

theorem deletable_of_le {other : FragmentRow}
    (hle : topicOrder collation (!params.force) row ≤ topicOrder collation (!params.force) other)
    (hother : deletable params other = true) : deletable params row = true := by
  have hfirst := Prod.Lex.monotone_fst _ _ hle
  change ((!params.force) && isPermanent row) ≤ ((!params.force) && isPermanent other) at hfirst
  unfold deletable at hother ⊢
  revert hfirst hother
  cases params.force <;> cases isPermanent row <;> cases isPermanent other <;> decide

theorem selectTopicTargets_eq {scope : AgentScope} (hlimit : 0 < limit)
    (hscope : resolveAgentScope ctx.agentId false false = .ok scope) :
    selectTopicTargets collation fragments params topic ctx limit =
      .ok ⟨(targets collation fragments params topic ctx).take limit,
        protectedTotal fragments params topic ctx⟩ := by
  have hfound : ∀ row ∈ (sortByKey (topicOrder collation (!params.force))
      (fragments.rows.filter (ofTopic params topic ctx))).take limit,
        row ∈ fragments.rows.filter (ofTopic params topic ctx) := fun row hrow =>
    (sortByKey_perm _ _).subset (mem_of_mem_take hrow)
  simp only [selectTopicTargets, searchByTopic, inAgentScope, hscope, Except.map]
  rw [foldl_consider]
  · refine congrArg Except.ok ?_
    rw [map_map, nil_append, Selection.mk.injEq]
    constructor
    · have hrows : ∀ total : Option Nat,
          TopicRow.row ∘ (fun row => TopicRow.mk row total) = id := fun _ => rfl
      rw [hrows, map_id, filter_take (sortByKey_pairwise _ _)
        (fun _ _ => deletable_of_le collation), filter_sortByKey _ (topicOrder_nodup collation _)]
      rfl
    · rw [protectedTotal_eq]
      cases hforce : params.force with
      | true => rfl
      | false =>
        cases hfirst : (sortByKey (topicOrder collation (!false))
            (fragments.rows.filter (ofTopic params topic ctx))).take limit with
        | nil =>
          have hnone := (take_eq_nil_iff.mp hfirst).resolve_left (by omega)
          have hperm := sortByKey_perm (topicOrder collation (!false))
            (fragments.rows.filter (ofTopic params topic ctx))
          rw [hnone] at hperm
          rw [hperm.nil_eq.symm]
          rfl
        | cons first rest => rfl
  · intro frag hfrag
    obtain ⟨row, hrow, rfl⟩ := mem_map.mp hfrag
    exact ofTopic_inScope (mem_filter.mp (hfound row hrow)).2

end

section

variable {Weight : Type} [LinearOrder Weight] {collation : String ↪ Weight}
  {fragments : Fragments} {params : Params} {topic id : String} {ctx : RequestCtx}
  {frag : FragmentRow}

def chosen (collation : String ↪ Weight) (fragments : Fragments) (params : Params)
    (topic : String) (ctx : RequestCtx) (excludeId : Option String) : List FragmentRow :=
  ((targets collation fragments params topic ctx).filter fun frag =>
    some frag.id ≠ excludeId).take topicBatch

theorem mem_targets :
    frag ∈ targets collation fragments params topic ctx <->
      frag ∈ fragments /\ ofTopic params topic ctx frag = true /\ deletable params frag = true := by
  rw [targets, (sortByKey_perm _ _).mem_iff, mem_filter, mem_filter, and_assoc]
  rfl

theorem targets_ids_nodup :
    ((targets collation fragments params topic ctx).map FragmentRow.id).Nodup := by
  refine ((sortByKey_perm _ _).map _).nodup_iff.mpr ?_
  exact fragments.keysNodup.sublist ((filter_sublist.trans filter_sublist).map _)

theorem within_chosen (excludeId : Option String) :
    Within fragments ((chosen collation fragments params topic ctx excludeId).map FragmentRow.id)
      ctx.keyId where
  nodup := targets_ids_nodup.sublist
    (((take_sublist _ _).trans filter_sublist).map _)
  inScope := by
    intro id hid
    obtain ⟨frag, hfrag, rfl⟩ := mem_map.mp hid
    obtain ⟨hmem, htopic, _⟩ := mem_targets.mp
      (mem_of_mem_filter (mem_of_mem_take hfrag))
    exact ⟨frag, hmem, rfl, ofTopic_inScope htopic⟩

theorem chosen_none :
    chosen collation fragments params topic ctx none =
      (targets collation fragments params topic ctx).take topicBatch := by
  rw [chosen, filter_eq_self.mpr fun frag _ => by simp]

/-- The dry run looks one target further where it leaves one out. -/
theorem take_targets_eq_chosen (excludeId : Option String) :
    (((targets collation fragments params topic ctx).take
      (if excludeId.isSome then topicBatch + 1 else topicBatch)).filter fun frag =>
        some frag.id ≠ excludeId).take topicBatch =
      chosen collation fragments params topic ctx excludeId := by
  cases excludeId with
  | none =>
    rw [chosen_none, filter_eq_self.mpr fun frag _ => by simp]
    exact (take_take ..).trans (congrArg (take · _) (Nat.min_self topicBatch))
  | some id =>
    have hnodup : ((targets collation fragments params topic ctx).map FragmentRow.id).Nodup :=
      targets_ids_nodup
    have hone := nodup_iff_count_le_one.mp hnodup id
    rw [count, countP_map] at hone
    refine take_filter_take ((countP_mono_left fun frag _ hout => ?_).trans hone) topicBatch
    simpa using hout

variable {gone : FragmentRow -> Bool}

theorem ofTopic_unlinked (removedIds : List String) (row : FragmentRow) :
    ofTopic params topic ctx (unlinked removedIds row) = ofTopic params topic ctx row := rfl

theorem deletable_unlinked (removedIds : List String) (row : FragmentRow) :
    deletable params (unlinked removedIds row) = deletable params row := rfl

theorem rows_deleteRows (fragments : Fragments) (gone : FragmentRow -> Bool) :
    (deleteRows fragments gone).rows = (fragments.rows.filter fun row => !gone row).map
      (unlinked ((fragments.rows.filter gone).map FragmentRow.id)) :=
  map_congr_left fun row _ => unlinkReferences_eq _ row

section

variable (hgone : ∀ row ∈ fragments, ofTopic params topic ctx row =
    true -> (gone row = true <-> row.id = id))
include hgone

theorem filter_ofTopic_deleteRows :
    (deleteRows fragments gone).rows.filter (ofTopic params topic ctx) =
      ((fragments.rows.filter (ofTopic params topic ctx)).filter fun row => row.id ≠ id).map
        (unlinked ((fragments.rows.filter gone).map FragmentRow.id)) := by
  rw [rows_deleteRows, filter_map, filter_filter, filter_filter]
  refine congrArg _ (filter_congr fun row hrow => ?_)
  rw [Function.comp_apply, ofTopic_unlinked]
  cases htopic : ofTopic params topic ctx row with
  | false => simp
  | true =>
    have hsame := hgone row hrow htopic
    cases hrowGone : gone row <;> simp_all

theorem targets_deleteRows :
    targets collation (deleteRows fragments gone) params topic ctx =
      ((targets collation fragments params topic ctx).filter fun row => row.id ≠ id).map
        (unlinked ((fragments.rows.filter gone).map FragmentRow.id)) := by
  have hnodup : (((fragments.rows.filter (ofTopic params topic ctx)).filter
      (deletable params)).map (topicOrder collation (!params.force))).Nodup := by
    rw [filter_filter]
    exact topicOrder_nodup collation _
  have hkey : ∀ row, topicOrder collation (!params.force)
      (unlinked ((fragments.rows.filter gone).map FragmentRow.id) row) =
        topicOrder collation (!params.force) row := fun _ => rfl
  rw [targets, targets, filter_sortByKey _ hnodup, filter_ofTopic_deleteRows hgone,
    filter_map, sortByKey_map hkey, filter_comm]
  rfl

theorem chosen_ids_deleteRows :
    (chosen collation (deleteRows fragments gone) params topic ctx none).map FragmentRow.id =
      (chosen collation fragments params topic ctx (some id)).map FragmentRow.id := by
  rw [chosen_none, targets_deleteRows hgone, chosen, ← map_take, map_map]
  simp only [ne_eq, Option.some.injEq]
  rfl

theorem protectedTotal_deleteRows
    (hid : ∀ row ∈ fragments, row.id = id -> deletable params row = true) :
    protectedTotal (deleteRows fragments gone) params topic ctx =
      protectedTotal fragments params topic ctx := by
  rw [protectedTotal, protectedTotal, filter_ofTopic_deleteRows hgone, countP_map,
    countP_filter]
  refine countP_congr fun row hrow => ?_
  have hmem := mem_of_mem_filter hrow
  rw [Bool.and_eq_true, decide_eq_true_eq, Function.comp_apply, deletable_unlinked]
  refine and_iff_left_of_imp fun hkept hsame => ?_
  rw [hid row hmem hsame] at hkept
  cases hkept

end

end

end AnchorMind.Write.ForgetTargets
