import AnchorMind.Write.BatchDedup
import AnchorMind.Write.RememberFlow

/-!
# A fragment that is remembered again

A call that answers with a stored fragment keeps its row and only raises its importance and
its anchor mark.  With the duplicate guard on, and for a repeated idempotency key, nothing
else is written.  With the guard off the finishing steps write the tier and the assertion of
the stored fragment as if it were new.
-/

namespace AnchorMind.Write.DuplicateHits

open Kernel.UniqueIndex Write.Fragments Write.BatchInsert Write.BatchAnswers
open Write.FragmentWriter hiding remember
open AssertionCheck RememberFlow

variable {hash : ContentHash}

structure Keeps (old row : Row) : Prop where
  bare : bare row = bare old
  importance : old.importance ≤ row.importance
  isAnchor : old.isAnchor = true -> row.isAnchor = true

namespace Keeps

variable {old row : Row}

theorem refl (row : Row) : Keeps row row := ⟨rfl, le_refl _, id⟩

theorem mergeRow (old excluded : Row) : Keeps old (mergeRow old excluded) := by
  refine ⟨bare_mergeRow old excluded, le_max_left _ _, fun hanchor => ?_⟩
  show (old.isAnchor || excluded.isAnchor) = true
  rw [hanchor, Bool.true_or]

theorem trans {next : Row} (hfirst : Keeps old row) (hmore : Keeps row next) : Keeps old next :=
  ⟨hmore.bare.trans hfirst.bare, hfirst.importance.trans hmore.importance,
    fun hanchor => hmore.isAnchor (hfirst.isAnchor hanchor)⟩

theorem read_eq {Value : Type} (hkeeps : Keeps old row) (read : Row -> Value)
    (hread : ∀ row, read (BatchAnswers.bare row) = read row) : read row = read old := by
  rw [<- hread row, hkeeps.bare, hread]

theorem id_eq (hkeeps : Keeps old row) : row.id = old.id :=
  hkeeps.read_eq Row.id fun _ => rfl

theorem keyScopeScalar_eq (hkeeps : Keeps old row) (keyId : Option String) :
    keyScopeScalar keyId row = keyScopeScalar keyId old :=
  hkeeps.read_eq (keyScopeScalar keyId) fun _ => rfl

end Keeps

structure Inserts (table : List Row) (fragmentId : String) (written : Written) : Prop where
  kept : ∀ old ∈ table, ∃ row ∈ written.table, Keeps old row
  hit : written.id ≠ fragmentId -> written.created = false /\
    ∀ row ∈ written.table, ∃ old ∈ table, Keeps old row

variable {context : WriteContext} {seen table : List Row} {row : Row} {written : Written}

theorem inserts_of_lookup (table : List Row) (fragmentId existingId : String) :
    Inserts table fragmentId ⟨existingId, false, table⟩ :=
  ⟨fun old hold => ⟨old, hold, Keeps.refl old⟩,
    fun _ => ⟨rfl, fun row hrow => ⟨row, hrow, Keeps.refl row⟩⟩⟩

theorem keeps_absorb (news : List Row) (old : Row) : Keeps old (context.upsert.absorb news old) :=
  Upsert.keeps_absorb Keeps.refl Keeps.mergeRow news old

theorem inserts_of_statement {rows last : List Row}
    (hrun : context.upsert.statement table [row] = .ok (rows, last)) :
    Inserts table row.id
      ⟨(rows.head?.map Row.id).getD row.id, decide (context.upsert.Free table row), last⟩ := by
  obtain ⟨hlast, hfreeRows⟩ := Upsert.statement_single hrun
  constructor
  · intro old hold
    refine ⟨context.upsert.absorb [row] old, ?_, keeps_absorb [row] old⟩
    rw [hlast]
    exact Upsert.mem_settled.mpr (Or.inl ⟨old, hold, rfl⟩)
  · intro hhit
    have hmeet : ¬ context.upsert.Free table row := by
      intro hfree
      rw [hfreeRows hfree] at hhit
      exact hhit rfl
    refine ⟨decide_eq_false hmeet, fun after hafter => ?_⟩
    rw [hlast, Upsert.settled_single_of_not_free hmeet] at hafter
    obtain ⟨old, hold, rfl⟩ := List.mem_map.mp hafter
    exact ⟨old, hold, keeps_absorb [row] old⟩

theorem insertOnceSeeing_inserts (hwrite : insertOnceSeeing context seen table row = .ok written) :
    Inserts table row.id written := by
  unfold insertOnceSeeing at hwrite
  dsimp only at hwrite
  split at hwrite
  · rename_i existing _
    cases hwrite
    exact inserts_of_lookup table row.id existing.id
  · split at hwrite
    · cases hwrite
    · rename_i hstatement
      cases hwrite
      exact inserts_of_statement hstatement

theorem runInsert_inserts (hwrite : runInsert context table row = .ok written) :
    Inserts table row.id written := by
  unfold runInsert at hwrite
  cases honce : insertOnce context table row with
  | ok first =>
    simp only [honce] at hwrite
    cases hwrite
    exact insertOnceSeeing_inserts honce
  | error refusal =>
    simp only [honce] at hwrite
    split at hwrite
    · split at hwrite
      · rename_i existing _
        cases hwrite
        exact inserts_of_lookup table row.id existing.id
      · cases hwrite
    · cases hwrite

theorem runInsertSeeing_inserts (hwrite : runInsertSeeing context seen table row = .ok written) :
    Inserts table row.id written := by
  unfold runInsertSeeing at hwrite
  split at hwrite
  · rename_i honce
    cases hwrite
    exact insertOnceSeeing_inserts honce
  · split at hwrite
    · exact runInsert_inserts hwrite
    · cases hwrite

theorem applyAnchorQuota_id {fragment allowed : Fragment hash}
    (hquota : applyAnchorQuota context table fragment = .ok allowed) :
    allowed.id = fragment.id := by
  unfold applyAnchorQuota at hquota
  split at hquota
  · split at hquota
    · cases hquota
      rfl
    · split at hquota
      · cases hquota
      · cases hquota
        rfl
  · cases hquota
    rfl

theorem insertDetailedSeeing_inserts {sha : Sha256} {fragment : Fragment hash}
    (hwrite : insertDetailedSeeing sha context seen table fragment = .ok written) :
    Inserts table fragment.id written := by
  unfold insertDetailedSeeing at hwrite
  split at hwrite
  · cases hwrite
  · rename_i allowed hquota
    split at hwrite
    · cases hwrite
    · rename_i hrun
      cases hwrite
      have hinserts := runInsertSeeing_inserts hrun
      rwa [show (prepareInsertRow sha context.keyId allowed).id = fragment.id from
        applyAnchorQuota_id hquota] at hinserts

def finishes (world : World) (store : Store) (draft : Draft hash) : Bool :=
  !world.duplicateGuard && (checkIdempotency world.context store.rows draft.toFragment).isNone

def finished (world : World) (params : Params) (draft : Draft hash) (runs owned : Bool)
    (found : Option AssertionStatus) (columns : Columns) : Columns :=
  { columns with
    ttlTier :=
      if runs && shortensTier params draft && world.updatesTier && owned then some .short
      else columns.ttlTier
    assertionStatus :=
      if found = some .inferred /\ world.patchesAssertion = true /\ owned = true then
        some .inferred
      else columns.assertionStatus }

structure Leaves (world : World) (params : Params) (draft : Draft hash) (runs : Bool)
    (store : Store) (id : String) (result : Remembered) : Prop where
  row : ∀ old ∈ store.rows, old.id = id ->
    ∃ row ∈ result.store.rows, Keeps old row
  columns : result.store.columns id =
    finished world params draft runs (Store.owns store id world.context.keyId) result.found
      (store.columns id)
  checked : result.found.isSome = runs
  neighbour : result.found = some .inferred ->
    ∃ row, Neighbour world.lower world.context.keyId store draft id row

variable {world : World} {params : Params} {store : Store} {draft : Draft hash}
variable {id : String} {oldIds : List String}

theorem not_mem_of_sublist (hsublist : oldIds.Sublist (superseded params id)) : id ∉ oldIds := by
  intro hmem
  have hne := (List.mem_filter.mp (hsublist.subset hmem)).2
  simp at hne

variable {found : AssertionStatus}

theorem applyAssertionCheck_rows :
    (applyAssertionCheck world store id found).rows = store.rows := by
  unfold applyAssertionCheck
  split
  · exact updateInternal_rows
  · rfl

theorem applyAssertionCheck_columns (hfound : found = .observed \/ found = .inferred) :
    (applyAssertionCheck world store id found).columns id =
      if found = .inferred /\ world.patchesAssertion = true /\
          Store.owns store id world.context.keyId = true then
        { store.columns id with assertionStatus := some .inferred }
      else store.columns id := by
  rcases hfound with rfl | rfl
  · rfl
  · cases hpatch : world.patchesAssertion <;>
      simp [applyAssertionCheck, patchAssertion, updateInternal_columns, hpatch]

theorem applyLowImportance_rows :
    (applyLowImportance world params draft store id).rows = store.rows := by
  unfold applyLowImportance
  split
  · exact updateInternal_rows
  · rfl

theorem applyLowImportance_columns :
    (applyLowImportance world params draft store id).columns id =
      if shortensTier params draft && world.updatesTier &&
          Store.owns store id world.context.keyId then
        { store.columns id with ttlTier := some .short }
      else store.columns id := by
  unfold applyLowImportance
  cases hsteps : shortensTier params draft && world.updatesTier with
  | false => rfl
  | true => simp [updateTtlTier, updateInternal_columns]

variable {lower : String -> String} {keyId : Option String}

theorem Neighbour.of_spares {after : Store} {row : Row} (hspares : Spares keyId oldIds store after)
    (hneighbour : Neighbour lower keyId after draft id row) :
    Neighbour lower keyId store draft id row := by
  have htopic := hneighbour.topic
  have hjudged := hneighbour.judged
  rw [hspares.columns] at htopic hjudged
  exact ⟨hspares.live row hneighbour.mem hneighbour.live, hneighbour.other, hneighbour.live,
    hneighbour.scope, htopic, hjudged, hneighbour.similar⟩

theorem finalizeRemember_leaves (hit : Option DuplicateKind) :
    Leaves world params draft true store id
      (finalizeRemember world params draft store id hit) := by
  have hfirst := foldl_supersede_spares world store
    ((superseded params id).take world.closedBefore)
  have hnotFirst := not_mem_of_sublist
    (List.take_sublist world.closedBefore (superseded params id))
  have hnotRest := not_mem_of_sublist
    (List.drop_sublist world.closedBefore (superseded params id))
  unfold finalizeRemember
  dsimp only
  generalize ((superseded params id).take world.closedBefore).foldl
    (supersede world) store = checked at hfirst ⊢
  generalize hfound : checkAssertionConsistency world.lower world.newest world.context.keyId
    world.now checked draft id = found
  have hcases : found = .observed \/ (found = .inferred /\
      ∃ row, Neighbour world.lower world.context.keyId checked draft id row) := by
    rw [<- hfound]
    exact checkAssertionConsistency_cases
  have hrest := foldl_supersede_spares world (applyAssertionCheck world checked id found)
    ((superseded params id).drop world.closedBefore)
  have howns : Store.owns (applyAssertionCheck world checked id found) id world.context.keyId =
      Store.owns store id world.context.keyId := by
    rw [<- hfirst.owns id, Store.owns, Store.owns, applyAssertionCheck_rows]
  constructor
  · intro old hold hid
    refine ⟨old, ?_, Keeps.refl old⟩
    dsimp only
    rw [applyLowImportance_rows]
    apply hrest.others old ?_ (hid.symm ▸ hnotRest)
    rw [applyAssertionCheck_rows]
    exact hfirst.others old hold (hid.symm ▸ hnotFirst)
  · dsimp only
    rw [applyLowImportance_columns, hrest.columns, hrest.owns, howns,
      applyAssertionCheck_columns (hcases.imp_right And.left), hfirst.columns, hfirst.owns,
      finished]
    simp only [Bool.true_and, Option.some.injEq]
    split <;> split <;> rfl
  · rfl
  · intro hinferred
    rcases hcases with rfl | ⟨rfl, row, hneighbour⟩
    · cases hinferred
    · exact ⟨row, Neighbour.of_spares hfirst hneighbour⟩

section

variable {sha : Sha256} {world : World} {params : Params} {store : Store} {draft : Draft hash}
variable {id : String} {written : Written}

section

variable (hinserts : Inserts store.rows draft.id written) (hhit : written.id ≠ draft.id)
include hinserts hhit

theorem inserted_columns : (inserted world.now store draft written).columns = store.columns := by
  unfold inserted
  rw [(hinserts.hit hhit).1]
  rfl

theorem owns_inserted (id : String) (keyId : Option String) :
    Store.owns (inserted world.now store draft written) id keyId = Store.owns store id keyId := by
  rw [Bool.eq_iff_iff]
  simp only [Store.owns, List.any_eq_true, Bool.and_eq_true, decide_eq_true_eq]
  constructor
  · rintro ⟨row, hrow, hid, hscope⟩
    obtain ⟨old, hold, hkeeps⟩ := (hinserts.hit hhit).2 row hrow
    exact ⟨old, hold, hkeeps.id_eq.symm.trans hid, by rwa [<- hkeeps.keyScopeScalar_eq]⟩
  · rintro ⟨old, hold, hid, hscope⟩
    obtain ⟨row, hrow, hkeeps⟩ := hinserts.kept old hold
    exact ⟨row, hrow, hkeeps.id_eq.trans hid, by rwa [hkeeps.keyScopeScalar_eq]⟩

theorem exists_neighbour {row : Row}
    (hneighbour : Neighbour lower keyId (inserted world.now store draft written) draft id row) :
    ∃ old, Neighbour lower keyId store draft id old := by
  obtain ⟨old, hold, hkeeps⟩ := (hinserts.hit hhit).2 row hneighbour.mem
  have hcontent : row.content = old.content := hkeeps.read_eq Row.content fun _ => rfl
  have hvalidTo : row.validTo = old.validTo := hkeeps.read_eq Row.validTo fun _ => rfl
  have htopic := hneighbour.topic
  have hjudged := hneighbour.judged
  rw [inserted_columns hinserts hhit, hkeeps.id_eq] at htopic hjudged
  exact ⟨old, hold, hkeeps.id_eq ▸ hneighbour.other, hvalidTo ▸ hneighbour.live,
    hkeeps.keyScopeScalar_eq keyId ▸ hneighbour.scope, htopic, hjudged,
    hcontent ▸ hneighbour.similar⟩

/-- What is left behind the insert is left behind the call. -/
theorem Leaves.of_inserted {runs : Bool} {result : Remembered}
    (hleaves : Leaves world params draft runs (inserted world.now store draft written) id result) :
    Leaves world params draft runs store id result := by
  constructor
  · intro old hold hid
    obtain ⟨middle, hmiddle, hkeeps⟩ := hinserts.kept old hold
    obtain ⟨row, hrow, hmore⟩ := hleaves.row middle hmiddle (hkeeps.id_eq.trans hid)
    exact ⟨row, hrow, hkeeps.trans hmore⟩
  · rw [hleaves.columns, owns_inserted hinserts hhit, inserted_columns hinserts hhit]
  · exact hleaves.checked
  · intro hinferred
    obtain ⟨row, hneighbour⟩ := hleaves.neighbour hinferred
    exact exists_neighbour hinserts hhit hneighbour

end

theorem leaves_of_unfinished {result : Remembered} (hstore : result.store = store)
    (hfound : result.found = none) : Leaves world params draft false store id result := by
  constructor
  · intro old hold _
    exact ⟨old, hstore ▸ hold, Keeps.refl old⟩
  · rw [hstore, hfound]
    rfl
  · rw [hfound]
    rfl
  · intro hinferred
    rw [hfound] at hinferred
    cases hinferred

theorem persist_leaves (hhit : id ≠ draft.id) :
    Leaves world params draft (!world.duplicateGuard) store id
      (persist world params draft store id) := by
  unfold persist
  have hduplicate : isDuplicateHit draft id = true := decide_eq_true hhit
  rw [if_pos hduplicate]
  dsimp only
  cases hguard : world.duplicateGuard with
  | true => exact leaves_of_unfinished rfl rfl
  | false => exact finalizeRemember_leaves _

theorem persist_answer : (persist world params draft store id).answer.id = some id := by
  unfold persist finalizeRemember
  split
  · dsimp only
    split <;> rfl
  · rfl

end

section

open Write.BatchDedup (sampleDigest sampleRow sampleItem sampleItem_hashed sampleContext)

def verifiedStore : Store where
  rows := [
    { sampleRow none with contentHash := sampleDigest.hex "The nightly backup runs at two." },
    { sampleRow none with
      id := "frag-other"
      content := "The nightly backup runs at three."
      contentHash := "5c1d0b7e9a3f2846" }]
  columns _ := ⟨"backup", some 0, some .permanent, some .verified⟩

def againDraft : Draft sampleDigest.hashContent :=
  { (sampleItem none).fragment with
    importance := some shortContentImportance
    hashed := sampleItem_hashed
    topic := "backup"
    ttlTier := some .warm
    assertionStatus := none }

def sampleWorld (duplicateGuard : Bool) : World where
  context := sampleContext true
  now := 0
  lower text := String.ofList (text.toList.map Char.toLower)
  duplicateGuard := duplicateGuard
  seen := verifiedStore.rows
  quotaLeft := true
  stateRead := true
  newest := some Newest.stable
  closedBefore := 0
  supersedes _ := true
  patchesAssertion := true
  updatesTier := true

end

end AnchorMind.Write.DuplicateHits
