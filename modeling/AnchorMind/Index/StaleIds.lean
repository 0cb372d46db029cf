import AnchorMind.Index.FragmentIndex

/-!
# Ids of deleted fragments

Every set an id is in is one that deindexing its row empties it from, as long as what the
delete statements return is enough to find these sets.  The forget cascade does not return
the content, so the terms that only come from a content stay behind.
-/

namespace AnchorMind.Index.StaleIds

open Kernel.NamedSets Index.FragmentIndex Index.DeletePaths Text.Keywords List

variable {lower : String -> String} {store after : Store} {row existing : Row} {id : String}

def Found (lower : String -> String) (table : List Row) (id name : String) : Prop :=
  ∃ row ∈ table, row.id = id /\ name ∈ deindexSets lower row.deindexColumns

structure Sound (lower : String -> String) (store : Store) : Prop where
  distinct : store.table.Pairwise fun left right => left.id ≠ right.id
  named : ∀ row ∈ store.table, row.id ≠ ""
  within : Within store.sets (Found lower store.table)

section

variable (hsound : Sound lower store)
include hsound

theorem Sound.noStaleId : NoStaleId store := by
  intro name id hmem
  obtain ⟨row, hrow, hid, -⟩ := hsound.within id name hmem
  exact ⟨row, hrow, hid⟩

theorem Sound.unique {left right : Row} (hleft : left ∈ store.table) (hright : right ∈ store.table)
    (hid : left.id = right.id) : left = right := by
  by_contra hne
  have hsymm : Std.Symm fun left right : Row => left.id ≠ right.id := ⟨fun _ _ h => h.symm⟩
  exact hsound.distinct.forall hleft hright hne hid

omit hsound in
theorem fresh_iff {table : List Row} :
    fresh table id = true <-> id ≠ "" /\ ∀ row ∈ table, row.id ≠ id := by
  simp [fresh]

omit hsound in
theorem Found.append {table more : List Row} {name : String} (hfound : Found lower table id name) :
    Found lower (table ++ more) id name := by
  obtain ⟨row, hrow, hid, hname⟩ := hfound
  exact ⟨row, mem_append_left _ hrow, hid, hname⟩

theorem Sound.append (hfresh : fresh store.table row.id = true) :
    Sound lower { store with table := store.table ++ [row] } := by
  obtain ⟨hnamed, hfree⟩ := fresh_iff.mp hfresh
  constructor
  · refine pairwise_append.mpr ⟨hsound.distinct, pairwise_singleton _ _, ?_⟩
    intro old hold new hnew
    rw [mem_singleton.mp hnew]
    exact hfree old hold
  · intro other hother
    rcases mem_append.mp hother with hold | hnew
    · exact hsound.named other hold
    · rw [mem_singleton.mp hnew]
      exact hnamed
  · exact hsound.within.mono fun _ _ hfound => hfound.append

theorem Sound.index (hrow : existing ∈ store.table) (hid : existing.id = row.id)
    (hsets : indexSets lower row ⊆ deindexSets lower existing.deindexColumns) :
    Sound lower { store with sets := index lower store.sets row } := by
  constructor
  · exact hsound.distinct
  · exact hsound.named
  · exact hsound.within.add fun name hname => ⟨existing, hrow, hid, hsets hname⟩

omit hsound in
theorem indexSets_subset {created : Row} (hkey : existing.keyId = created.keyId)
    (htopic : created.topic = existing.topic) (htype : created.type = existing.type)
    (hterms : indexedTerms lower created.keywords (some created.content) ⊆
      indexedTerms lower existing.keywords (some existing.content)) :
    indexSets lower created ⊆ indexSets lower existing := by
  unfold indexSets
  rw [hkey, htopic, htype]
  intro name hname
  rcases mem_append.mp hname with hterm | hrest
  · exact mem_append_left _ (map_subset _ hterms hterm)
  · exact mem_append_right _ hrest

theorem remember_sound {draft : Draft} {hit : Option String} {indexed : Bool}
    (hkeeps : KeepsIndex lower store (.remember draft id hit indexed))
    (hstep : step lower store (.remember draft id hit indexed) = some after) :
    Sound lower after := by
  have htopic := create_topic_ne_empty lower id draft
  have hcreatedKey : (create lower id draft).keyId = draft.keyId := rfl
  have hcreatedId : (create lower id draft).id = id := rfl
  cases hit with
  | none =>
    simp only [step] at hstep
    generalize create lower id draft = created at *
    split at hstep
    · rename_i hfresh
      cases hstep
      have happended : Sound lower { store with table := store.table ++ [created] } :=
        hsound.append (hcreatedId.symm ▸ hfresh)
      cases indexed with
      | false => exact happended
      | true =>
        have hmem : created ∈ store.table ++ [created] := by simp
        apply happended.index hmem rfl
        rw [deindexSets_deindexColumns htopic]
        exact Subset.refl _
    · cases hstep
  | some existingId =>
    simp only [step] at hstep
    split at hstep
    · rename_i hany
      cases hstep
      cases indexed with
      | false => exact hsound
      | true =>
        obtain ⟨existing, hexisting, hboth⟩ := any_eq_true.mp hany
        obtain ⟨hid, hkey⟩ := of_decide_eq_true hboth
        obtain ⟨hsame, htype, hterms⟩ := hkeeps existing hexisting hid hkey
        rw [<- hcreatedKey] at hkey
        generalize create lower id draft = created at *
        apply hsound.index hexisting hid
        rw [deindexSets_deindexColumns (hsame ▸ htopic)]
        exact indexSets_subset hkey hsame htype hterms
    · cases hstep

theorem afterAmend_within {changes : Changes} (hexisting : existing ∈ store.table)
    (htopic : (changes.apply existing).topic ≠ "") :
    Within (afterAmend lower store.sets existing (changes.apply existing))
      (Found lower (store.table.map fun row =>
        if row.id = existing.id then changes.apply existing else row)) := by
  have hremoved : Within (deindex lower store.sets existing.deindexColumns)
      fun other name => other ≠ existing.id /\ Found lower store.table other name := by
    apply hsound.within.remove
    rintro name ⟨row, hrow, hid, hname⟩
    rwa [hsound.unique hrow hexisting hid] at hname
  apply Within.add
  · refine hremoved.mono ?_
    rintro other name ⟨hne, row, hrow, hid, hname⟩
    refine ⟨row, mem_map.mpr ⟨row, hrow, if_neg ?_⟩, hid, hname⟩
    rw [hid]
    exact hne
  · intro name hname
    refine ⟨changes.apply existing, mem_map.mpr ⟨existing, hexisting, if_pos rfl⟩, rfl, ?_⟩
    rw [deindexSets_deindexColumns htopic]
    exact hname

theorem amend_sound {changes : Changes} {duplicate : Bool}
    (hkeeps : KeepsIndex lower store (.amend id changes duplicate))
    (hstep : step lower store (.amend id changes duplicate) = some after) : Sound lower after := by
  simp only [step] at hstep
  split at hstep
  · cases hstep
    exact hsound
  · rename_i existing hfind
    have hexisting := mem_of_find?_eq_some hfind
    have hid : existing.id = id := by simpa using find?_some hfind
    subst hid
    split at hstep
    · cases hstep
      exact hsound
    · rename_i hdistinct
      cases hstep
      rw [Bool.not_eq_true] at hdistinct
      subst hdistinct
      have hids (row : Row) :
          (if row.id = existing.id then changes.apply existing else row).id = row.id := by
        split
        · rename_i hsame
          exact hsame.symm
        · rfl
      constructor
      · refine pairwise_map.mpr (hsound.distinct.imp ?_)
        intro left right hne
        rwa [hids, hids]
      · intro row hrow
        obtain ⟨old, hold, rfl⟩ := mem_map.mp hrow
        rw [hids]
        exact hsound.named old hold
      · exact afterAmend_within hsound hexisting (hkeeps existing hexisting rfl)

variable {gone : Row -> Bool} {entries : List Returned} {removedIds : List String}

theorem sound_of_deleted
    (hcover : ∀ row ∈ store.table, gone row = true -> ∃ entry ∈ entries, entry.id = row.id)
    (hsets : ∀ entry ∈ entries, ∀ row ∈ store.table, row.id = entry.id ->
      deindexSets lower row.deindexColumns ⊆ deindexSets lower entry) :
    Sound lower
      { table := (store.table.filter fun row => !gone row).map (unlink removedIds)
        sets := deindexRows lower store.sets entries } := by
  constructor
  · exact pairwise_map.mpr (hsound.distinct.filter _)
  · intro row hrow
    obtain ⟨old, hold, rfl⟩ := mem_map.mp hrow
    exact hsound.named old (mem_filter.mp hold).1
  · have hremoved : Within (deindexRows lower store.sets entries)
        fun other name => (∀ entry ∈ entries, other ≠ entry.id) /\
          Found lower store.table other name := by
      apply hsound.within.removeAll
      rintro entry hentry name ⟨row, hrow, hid, hname⟩
      exact hsets entry hentry row hrow hid hname
    refine hremoved.mono ?_
    rintro other name ⟨hothers, row, hrow, hid, hname⟩
    have hstays : gone row = false := by
      rw [← Bool.not_eq_true]
      intro hgone
      obtain ⟨entry, hentry, hsame⟩ := hcover row hrow hgone
      exact hothers entry hentry (hid.symm.trans hsame.symm)
    refine ⟨unlink removedIds row, mem_map.mpr ⟨row, ?_, rfl⟩, hid, hname⟩
    exact mem_filter.mpr ⟨hrow, by simp [hstays]⟩

structure Enough (lower : String -> String) (table : List Row) (gone : Row -> Bool)
    (columns : Row -> Returned) : Prop where
  id : ∀ row, (columns row).id = row.id
  sets : ∀ row ∈ table, gone row = true ->
    deindexSets lower row.deindexColumns ⊆ deindexSets lower (columns row)

variable {columns : Row -> Returned}

theorem sound_of_audited {audited : Row -> Bool} (henough : Enough lower store.table gone columns) :
    Sound lower
      { table := ((store.table.filter fun row => !gone row).filter fun row => !audited row).map
          (unlink removedIds)
        sets := deindexRows lower store.sets ((store.table.filter gone).map columns ++
          ((store.table.filter fun row => !gone row).filter audited).map Row.deindexColumns) } := by
  have hfilter : ((store.table.filter fun row => !gone row).filter fun row => !audited row) =
      store.table.filter fun row => !(gone row || audited row) := by
    rw [filter_filter]
    congr 1
    funext row
    rw [Bool.not_or, Bool.and_comm]
  rw [hfilter]
  apply sound_of_deleted hsound
  · intro row hrow hboth
    cases hgone : gone row with
    | true =>
      refine ⟨columns row, mem_append_left _ ?_, henough.id row⟩
      exact mem_map.mpr ⟨row, mem_filter.mpr ⟨hrow, hgone⟩, rfl⟩
    | false =>
      rw [hgone, Bool.false_or] at hboth
      refine ⟨row.deindexColumns, mem_append_right _ ?_, rfl⟩
      refine mem_map.mpr ⟨row, mem_filter.mpr ⟨?_, hboth⟩, rfl⟩
      exact mem_filter.mpr ⟨hrow, by simp [hgone]⟩
  · intro entry hentry row hrow hid
    rcases mem_append.mp hentry with hdeleted | haudited
    · obtain ⟨other, hother, rfl⟩ := mem_map.mp hdeleted
      obtain ⟨hmem, hgone⟩ := mem_filter.mp hother
      rw [henough.id] at hid
      rw [hsound.unique hrow hmem hid]
      exact henough.sets other hmem hgone
    · obtain ⟨other, hother, rfl⟩ := mem_map.mp haudited
      have hmem := (mem_filter.mp (mem_filter.mp hother).1).1
      rw [hsound.unique hrow hmem hid]
      exact Subset.refl _

theorem deleteRows_sound {copies : Bool} (henough : Enough lower store.table gone columns) :
    Sound lower (deleteRows lower store gone columns copies) := by
  have hnamed : ((store.table.filter gone).map columns).filter (fun row => decide (row.id ≠ "")) =
      (store.table.filter gone).map columns := by
    rw [filter_eq_self]
    intro entry hentry
    obtain ⟨row, hrow, rfl⟩ := mem_map.mp hentry
    rw [henough.id, decide_eq_true_iff]
    exact hsound.named row (mem_filter.mp hrow).1
  unfold deleteRows cleanupDeletedRows
  rw [hnamed]
  dsimp only
  split
  · rename_i hnone
    have hnobody : store.table.filter gone = [] := by simpa using hnone
    have hall : (store.table.filter fun row => !gone row) = store.table := by
      rw [filter_eq_self]
      intro row hrow
      simpa using filter_eq_nil_iff.mp hnobody row hrow
    rw [hall]
    exact hsound
  · exact sound_of_audited hsound henough

variable {scope : Option String}

/-- `DEINDEX_COLUMNS` is enough. -/
theorem deleteMany_sound {ids : List String} {copies : Bool} :
    Sound lower (deleteMany lower store ids scope copies) :=
  deleteRows_sound hsound ⟨fun _ => rfl, fun _ _ _ => Subset.refl _⟩

omit hsound in
theorem deindexSets_cascadeColumns
    (hterms : contentTerms lower (some row.content) ⊆ row.keywords.map lower) :
    deindexSets lower row.deindexColumns ⊆ deindexSets lower (cascadeColumns row) := by
  have hindexed : indexedTerms lower row.keywords (some row.content) ⊆
      indexedTerms lower row.keywords none := by
    intro term hterm
    rw [mem_indexedTerms] at hterm ⊢
    rcases hterm with hkeyword | hcontent
    · exact .inl hkeyword
    · exact .inl (hterms hcontent)
  intro name hname
  rw [mem_deindexSets] at hname ⊢
  rcases hname with hterm | hrest
  · exact .inl (map_subset _ hindexed hterm)
  · exact .inr hrest

theorem deleteWithCascade_sound {ids : List String}
    (hkeeps : KeepsIndex lower store (.forget ids scope true)) :
    Sound lower (deleteWithCascade lower store ids scope) :=
  deleteRows_sound hsound
    ⟨fun _ => rfl, fun row hrow hgone => deindexSets_cascadeColumns (hkeeps row hrow hgone)⟩

theorem step_sound {label : Label} (hkeeps : KeepsIndex lower store label)
    (hstep : step lower store label = some after) : Sound lower after := by
  cases label with
  | remember draft id existing indexed => exact remember_sound hsound hkeeps hstep
  | importRow row =>
    simp only [step] at hstep
    split at hstep
    · rename_i hfresh
      cases hstep
      exact hsound.append hfresh
    · cases hstep
  | amend id changes duplicate => exact amend_sound hsound hkeeps hstep
  | forget ids scope cascade =>
    cases cascade with
    | true =>
      cases hstep
      exact deleteWithCascade_sound hsound hkeeps
    | false =>
      cases hstep
      exact deleteMany_sound hsound
  | collect ids =>
    cases hstep
    exact deleteMany_sound hsound

end

/-- No set keeps the id of a deleted fragment while every step lets deindexing find the
sets. -/
theorem noStaleId_of_reachable
    (hreach : ((system lower).restrict (KeepsIndex lower)).Reachable store) : NoStaleId store := by
  have hsound : Sound lower store := by
    apply hreach.invariant
    · rintro store ⟨hempty, hsets⟩
      constructor
      · rw [hempty]
        exact Pairwise.nil
      · rw [hempty]
        exact nofun
      · intro id name hmem
        rw [hsets name] at hmem
        exact absurd hmem (Finset.notMem_empty id)
    · rintro before label after - hsound ⟨hstep, hkeeps⟩
      exact step_sound hsound hkeeps hstep
  exact hsound.noStaleId

theorem deindex_cascadeColumns_iff {sets : IndexSets} (hnone : Exactly sets row.id [])
    (htopic : row.topic ≠ "") :
    Exactly (deindex lower (index lower sets row) (cascadeColumns row)) row.id [] <->
      contentTerms lower (some row.content) ⊆ row.keywords.map lower := by
  have hindexed : Exactly (index lower sets row) row.id (indexSets lower row) := hnone.add
  constructor
  · intro hexact term hterm
    by_contra hmissing
    have hname : termSet row.keyId term ∈ indexSets lower row := by
      rw [← deindexSets_deindexColumns htopic]
      exact termSet_mem_deindexSets.mpr (mem_indexedTerms.mpr (.inr hterm))
    have hkept : termSet row.keyId term ∉ deindexSets lower (cascadeColumns row) := by
      intro hmem
      rcases mem_indexedTerms.mp (termSet_mem_deindexSets.mp hmem) with hkeyword | hcontent
      · exact hmissing hkeyword
      · cases hcontent
    have hmem : row.id ∈ deindex lower (index lower sets row) (cascadeColumns row)
        (termSet row.keyId term) :=
      mem_remove.mpr ⟨fun hboth => hkept hboth.2, (hindexed _).mpr hname⟩
    exact absurd ((hexact _).mp hmem) not_mem_nil
  · intro hterms
    apply hindexed.remove
    rw [← deindexSets_deindexColumns htopic]
    exact deindexSets_cascadeColumns hterms

section

variable (lower) (id) (draft : Draft)

def forgetRun : List Label :=
  [.remember draft id none true, .forget [id] draft.keyId true]

def emptyStore : Store := ⟨[], fun _ => ∅⟩

def forgotten : Store :=
  let row := create lower id draft
  ⟨[], deindex lower (index lower emptyStore.sets row) (cascadeColumns row)⟩

theorem deleteWithCascade_single (row : Row) (sets : IndexSets) (hid : row.id ≠ "") :
    deleteWithCascade lower ⟨[row], sets⟩ [row.id] row.keyId =
      ⟨[], deindex lower sets (cascadeColumns row)⟩ := by
  have hlocked : cascadeLocked [row] [row.id] row.keyId row = true := by
    simp [cascadeLocked, targeted, inScope]
  simp [deleteWithCascade, deleteRows, hlocked, cleanupDeletedRows, cascadeColumns,
    Row.deindexColumns, hid, deindexRows]

theorem forgotten_run (hid : id ≠ "") :
    (system lower).Run emptyStore (forgetRun id draft) (forgotten lower id draft) := by
  have hfresh : fresh emptyStore.table id = true :=
    fresh_iff.mpr ⟨hid, nofun⟩
  have hcreated : step lower emptyStore (.remember draft id none true) =
      some ⟨[create lower id draft], index lower emptyStore.sets (create lower id draft)⟩ :=
    if_pos hfresh
  have hforgotten : step lower
      ⟨[create lower id draft], index lower emptyStore.sets (create lower id draft)⟩
        (.forget [id] draft.keyId true) = some (forgotten lower id draft) := by
    simp only [step, if_true]
    exact congrArg some (deleteWithCascade_single lower (create lower id draft) _ hid)
  exact .cons hcreated (.single hforgotten)

theorem forgotten_noStaleId_iff :
    NoStaleId (forgotten lower id draft) <->
      contentTerms lower (some draft.content) ⊆ (create lower id draft).keywords.map lower := by
  have hnone : Exactly emptyStore.sets (create lower id draft).id [] := fun name => by
    simp [emptyStore]
  have htopic := create_topic_ne_empty lower id draft
  rw [<- show (create lower id draft).content = draft.content from rfl,
    <- deindex_cascadeColumns_iff hnone htopic]
  constructor
  · intro hclean name
    constructor
    · intro hmem
      obtain ⟨row, hrow, -⟩ := hclean name _ hmem
      cases hrow
    · intro hname
      cases hname
  · intro hexact name other hmem
    obtain ⟨-, hindexed⟩ := mem_remove.mp hmem
    rcases mem_add.mp hindexed with ⟨rfl, -⟩ | hbefore
    · exact absurd ((hexact name).mp hmem) not_mem_nil
    · exact absurd hbefore (Finset.notMem_empty other)

theorem forgotten_stale_of_identifier {identifier : String}
    (hfirst : (identifiers draft.content).head? = some identifier)
    (hmixed : ∀ text, lower text ≠ identifier) : Not (NoStaleId (forgotten lower id draft)) := by
  rw [forgotten_noStaleId_iff]
  intro hterms
  have hcontent : draft.content ≠ "" := by
    intro hempty
    have hnone : (identifiers "").head? = none := by decide
    rw [hempty, hnone] at hfirst
    cases hfirst
  have hmem : identifier ∈ contentTerms lower (some draft.content) := by
    rw [contentTerms, if_neg hcontent]
    exact mem_extractKeywords_of_identifier hfirst (by decide)
  obtain ⟨keyword, -, hlower⟩ := mem_map.mp (hterms hmem)
  exact hmixed keyword hlower

end

def sampleDraft : Draft where
  keyId := some "key-a"
  topic := some "links"
  type := none
  keywords := []
  content := "The createLinks batch upserts every row once per pair."
  linkedTo := []

def deleteRun : List Label :=
  [.remember sampleDraft "frag-1" none true,
    .amend "frag-1" ⟨some "The batch upserts rows.", none, none, none⟩ false,
    .forget ["frag-1"] (some "key-a") false]

theorem noStaleId_delete :
    ∃ store, ((system String.toLower).restrict (KeepsIndex String.toLower)).Run emptyStore
        deleteRun store /\
      store.table = [] /\ NoStaleId store := by
  have hstart : ((system String.toLower).restrict (KeepsIndex String.toLower)).start emptyStore :=
    ⟨rfl, fun _ => rfl⟩
  have hrun : ∃ store,
      ((system String.toLower).restrict (KeepsIndex String.toLower)).Run emptyStore deleteRun
        store /\ store.table = [] := by
    refine ⟨_, .cons ⟨rfl, trivial⟩ (.cons ⟨rfl, ?_⟩ (.cons ⟨rfl, trivial⟩ (.nil _))), ?_⟩
    · intro row hrow _
      rw [mem_singleton.mp hrow]
      decide
    · decide +kernel
  obtain ⟨store, hrun, htable⟩ := hrun
  exact ⟨store, hrun, htable, noStaleId_of_reachable (.run (.ofStart hstart) hrun)⟩

theorem toLower_ne_createLinks (text : String) : text.toLower ≠ "createLinks" := by
  intro hsame
  have hlists := congrArg String.toList hsame
  rw [show text.toLower = text.map Char.toLower from rfl, String.toList_map] at hlists
  have hmem : 'L' ∈ text.toList.map Char.toLower := by
    rw [hlists]
    decide
  obtain ⟨c, -, hc⟩ := mem_map.mp hmem
  unfold Char.toLower at hc
  split at hc
  · rename_i hrange
    have hval : c.val + ('a'.val - 'A'.val) = 'L'.val := congrArg Char.val hc
    have hcode : c.val = 'L'.val - ('a'.val - 'A'.val) := by rw [<- hval, UInt32.add_sub_cancel]
    rw [hcode] at hrange
    exact absurd hrange (by decide)
  · rename_i hrange
    rw [hc] at hrange
    exact hrange (by decide)

theorem forget_leaves_stale_id :
    ∃ store, (system String.toLower).start emptyStore /\
      (system String.toLower).Run emptyStore (forgetRun "frag-1" sampleDraft) store /\
      Not (NoStaleId store) := by
  have hrun := forgotten_run String.toLower "frag-1" sampleDraft (by decide)
  have hstale := forgotten_stale_of_identifier String.toLower "frag-1" sampleDraft
    (by decide +kernel) toLower_ne_createLinks
  exact ⟨forgotten String.toLower "frag-1" sampleDraft, ⟨rfl, fun _ => rfl⟩, hrun, hstale⟩

end AnchorMind.Index.StaleIds
