import AnchorMind.Write.AnchorAllotment

/-!
# Amending a row

`update` locks the row, refuses rows of other keys, looks for a fragment that already
has the new content, and writes the changed columns; a violated index takes all of it
back.  The gate decided on a row it read before, and the anchor quota is applied to
an update only when that row was not an anchor.
-/

namespace AnchorMind.Write.FragmentUpdate

open Kernel.UniqueIndex Write.Fragments Write.DedupScope Write.BatchInsert Write.BatchDedup List
  Write.FragmentWriter Write.AnchorAllotment

/-- The changed columns of an amend, with the mark of the gate. -/
structure Updates where
  id : String
  content : Option String
  type : Option String
  importance : Option Importance
  isAnchor : Option Bool
  anchorQuota : Bool
deriving DecidableEq

/-- `anchorChange` is `set`: the row that was read is no anchor and is to become one. -/
def setsAnchor (updates : Updates) (existing : Row) : Bool :=
  decide (updates.isAnchor = some true) && !existing.isAnchor

def gateUpdate (granted : Bool) (existing : Row) (updates : Updates) : Updates :=
  if setsAnchor updates existing then
    if granted then { updates with anchorQuota := true }
    else { updates with isAnchor := none, anchorQuota := false }
  else { updates with anchorQuota := false }

/-- The update is judged again inside the write transaction. -/
def recounts (updates : Updates) (existing : Row) : Bool :=
  updates.anchorQuota && setsAnchor updates existing

def applyAnchorQuotaToUpdate (context : WriteContext) (table : List Row) (updates : Updates)
    (existing : Row) : Except RememberError Updates :=
  if recounts updates existing then
    if countLiveAnchors table context.keyId < context.anchorLimit then .ok updates
    else if context.enforceAnchors then .error (.policyViolation anchorLimitError)
    else .ok { updates with isAnchor := none }
  else .ok updates

/-- `SELECT * FROM fragments WHERE id = $1 FOR UPDATE`: the row, between the others. -/
def lockRow (id : String) : List Row -> Option (List Row × Row × List Row)
  | [] => none
  | row :: rest =>
    if row.id = id then some ([], row, rest)
    else (lockRow id rest).map fun found => (row :: found.1, found.2)

theorem lockRow_eq {id : String} {table front back : List Row} {row : Row}
    (hlock : lockRow id table = some (front, row, back)) :
    table = front ++ row :: back /\ row.id = id := by
  induction table generalizing front with
  | nil => cases hlock
  | cons head rest ih =>
    rw [lockRow] at hlock
    split at hlock
    · rename_i hid
      cases hlock
      exact ⟨rfl, hid⟩
    · obtain ⟨found, hfound, hsame⟩ := Option.map_eq_some_iff.mp hlock
      obtain ⟨others, found, last⟩ := found
      cases hsame
      obtain ⟨hrest, hid⟩ := ih hfound
      rw [hrest]
      exact ⟨rfl, hid⟩

/-- `_findAmendDuplicate` -/
def findAmendDuplicate (sha : Sha256) (context : WriteContext) (table : List Row) (row : Row)
    (content : String) : Option Row :=
  let found := findContentHashMatches table row.keyId [sha.computeContentHash.of content]
    (some row.id)
  pickDuplicate found row.workspace
    (effectiveDedupScope context.configured context.indexes row.keyId)

/-- `_runUpdate`: the row with its changed columns. -/
def updateRow (sha : Sha256) (updates : Updates) (row : Row) : Row :=
  { row with
    content := updates.content.getD row.content
    contentHash := match updates.content with
      | some content => sha.computeContentHash.of content
      | none => row.contentHash
    type := updates.type.getD row.type
    importance := updates.importance.getD row.importance
    isAnchor := updates.isAnchor.getD row.isAnchor }

def violates (context : WriteContext) (others : List Row) (row : Row) : Bool :=
  context.upsert.enforced.any fun name =>
    others.any fun other => decide (Clash (indexEntry name) other row)

/-- `update` from the row lock on; every early end rolls the transaction back.
`writer` is the key of the caller, none for the master. -/
def update (sha : Sha256) (context : WriteContext) (writer : Option String) (table : List Row)
    (updates : Updates) : List Row :=
  match lockRow updates.id table with
  | none => table
  | some (front, row, back) =>
    if writer ≠ none /\ row.keyId ≠ writer then table
    else
      let duplicate := updates.content.bind (findAmendDuplicate sha context table row)
      if duplicate.isSome then table
      else
        let changed := updateRow sha updates row
        if violates context (front ++ back) changed then table
        else front ++ changed :: back

variable {context : WriteContext} {front back : List Row} {row changed : Row}

theorem satisfies_replace (hsatisfies : Satisfies context.indexes (front ++ row :: back))
    (hfree : violates context (front ++ back) changed = false) :
    Satisfies context.indexes (front ++ changed :: back) := by
  intro name hname
  have hsymm : ∀ {left right : Row}, Not (Clash (indexEntry name) left right) ->
      Not (Clash (indexEntry name) right left) := fun hnot hclash => hnot hclash.symm
  have hold : (row :: (front ++ back)).Pairwise fun left right =>
      Not (Clash (indexEntry name) left right) :=
    (pairwise_middle hsymm).mp (hsatisfies name hname)
  refine (pairwise_middle hsymm).mpr (pairwise_cons.mpr ?_)
  rw [pairwise_cons] at hold
  refine ⟨?_, hold.2⟩
  intro other hother hclash
  have hany : violates context (front ++ back) changed = true := by
    refine any_eq_true.mpr ⟨name, mem_enforced.mpr hname, ?_⟩
    exact any_eq_true.mpr ⟨other, hother, by simpa using hclash.symm⟩
  rw [hfree] at hany
  cases hany

theorem countP_replace {select : Row -> Bool} {extra : Nat}
    (hchanged : (select changed).toNat ≤ (select row).toNat + extra) :
    (front ++ changed :: back).countP select ≤ (front ++ row :: back).countP select + extra := by
  simp only [countP_append, countP_cons]
  cases hrow : select row <;> cases hnew : select changed <;> simp [hrow, hnew] at hchanged ⊢ <;>
    omega

def closeRow (id : String) (time : Nat) (table : List Row) : List Row :=
  match lockRow id table with
  | none => table
  | some (front, row, back) => front ++ { row with validTo := some time } :: back

def satisfied (indexes : DedupIndexState) (table : List Row) : Bool :=
  IndexName.all.all fun name => !indexes.existing name ||
    decide (table.Pairwise fun left right =>
      Not (Clash (indexEntry name) left right))

variable {indexes : DedupIndexState} {table : List Row}

theorem satisfies_closeRow (hsatisfies : Satisfies indexes table) (id : String) (time : Nat) :
    Satisfies indexes (closeRow id time table) := by
  unfold closeRow
  split
  · exact hsatisfies
  · rename_i front row back hlock
    rw [(lockRow_eq hlock).1] at hsatisfies
    intro name hname
    have hsymm : ∀ {left right : Row}, Not (Clash (indexEntry name) left right) ->
        Not (Clash (indexEntry name) right left) := fun hnot hclash => hnot hclash.symm
    have hold := pairwise_cons.mp ((pairwise_middle hsymm).mp (hsatisfies name hname))
    refine (pairwise_middle hsymm).mpr (pairwise_cons.mpr ⟨?_, hold.2⟩)
    intro other hother hclash
    have hentry : indexEntry name { row with validTo := some time } = indexEntry name row := by
      cases name <;> rfl
    exact hold.1 other hother ((clash_congr hentry).mp hclash)

theorem satisfies_of_satisfied (hsatisfied : satisfied indexes table = true) :
    Satisfies indexes table := by
  intro name hname
  have hchecked := all_eq_true.mp hsatisfied name (IndexName.mem_all name)
  rw [hname] at hchecked
  change table.Pairwise _
  simpa using hchecked

variable {sha : Sha256} {writer : Option String}
variable {updates : Updates}

theorem update_anchors (hsatisfies : Satisfies context.indexes table) {extra : Nat}
    (hextra : ∀ row ∈ table, row.id = updates.id ->
      (writer = none \/ row.keyId = writer) ->
        updates.isAnchor = some true -> row.isAnchor = false -> 1 ≤ extra) :
    AddsAnchors context table (update sha context writer table updates) extra := by
  have hsame : AddsAnchors context table table extra := ⟨hsatisfies, Nat.le_add_right _ _⟩
  unfold update
  cases hlock : lockRow updates.id table with
  | none => exact hsame
  | some found =>
    obtain ⟨front, row, back⟩ := found
    obtain ⟨htable, hid⟩ := lockRow_eq hlock
    simp only
    split
    · exact hsame
    · rename_i howner
      split
      · exact hsame
      · split
        · exact hsame
        · rename_i hfree
          have howner : writer = none \/ row.keyId = writer := by
            rcases Classical.em (writer = none) with hmaster | hkeyed
            · exact .inl hmaster
            · exact .inr (by_contra fun hother => howner ⟨hkeyed, hother⟩)
          constructor
          · rw [htable] at hsatisfies
            exact satisfies_replace hsatisfies (by simpa using hfree)
          · rw [htable]
            apply countP_replace
            change (liveAnchor context.keyId _).toNat ≤ (liveAnchor context.keyId _).toNat + _
            have hmem : row ∈ table := by
              rw [htable]
              exact mem_append_right _ mem_cons_self
            have hroom := hextra row hmem hid howner
            cases hanchor : row.isAnchor with
            | true =>
              cases hselect : liveAnchor context.keyId (updateRow sha updates row) with
              | false => simp
              | true =>
                have hrow : liveAnchor context.keyId row = true := by
                  simp only [liveAnchor, updateRow, Bool.and_eq_true] at hselect
                  simp only [liveAnchor, Bool.and_eq_true]
                  exact ⟨hselect.1, hanchor⟩
                simp [hrow]
            | false =>
              cases hset : updates.isAnchor with
              | none => simp [liveAnchor, updateRow, hanchor, hset]
              | some value =>
                cases value with
                | false => simp [liveAnchor, updateRow, hset]
                | true =>
                  have hone := hroom hset hanchor
                  refine Nat.le_trans (Bool.toNat_le _) ?_
                  omega

end AnchorMind.Write.FragmentUpdate
