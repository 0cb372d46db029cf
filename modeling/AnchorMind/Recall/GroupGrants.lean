import AnchorMind.Kernel.Comparators
import AnchorMind.Kernel.InsertionMap
import AnchorMind.Text.JsonText

/-!
# What a group lets a key do

The rows of all groups of a key are folded into what it may read, write and see.  Searches ask
for the keys of a request, and a fragment picked by its id is tested alone.
-/

namespace AnchorMind.Recall.GroupGrants

open Kernel.Comparators Kernel.InsertionMap Kernel.Grouping Text.JsonText List

inductive Action where
  | link
  | amend
  | forget

/-- A pair of another member and a group. -/
structure Row where
  keyId : JsString
  canRead : Bool
  canLink : Bool
  canAmend : Bool
  canForget : Bool
  sharedWorkspaces : Option (List JsString)

def Row.can (row : Row) : Action -> Bool
  | .link => row.canLink
  | .amend => row.canAmend
  | .forget => row.canForget

/-- What the rows of a member add up to; `workspaces` is a set. -/
structure Member where
  can : Action -> Bool
  full : Bool
  workspaces : List JsString

def Member.start : Member := ⟨fun _ => false, false, []⟩

def Member.add (m : Member) (row : Row) : Member where
  can action := m.can action || row.can action
  full := m.full || row.sharedWorkspaces.isNone
  workspaces := m.workspaces ++ row.sharedWorkspaces.getD []

/-- A plain object of lists.  A list assigned under `__proto__` becomes its prototype. -/
structure Scopes where
  own : JsString -> Option (List JsString)
  proto : Option (List JsString)

def PROTO : JsString := ofString "__proto__"

def Scopes.put (scopes : Scopes) (id : JsString) (list : List JsString) : Scopes :=
  if id = PROTO then { scopes with proto := some list }
  else { scopes with own := Function.update scopes.own id (some list) }

def Scopes.get (scopes : Scopes) (id : JsString) : Option (List JsString) :=
  if id = PROTO then scopes.proto else scopes.own id

structure Access where
  groupKeyIds : List JsString
  groupGrants : Action -> List JsString
  groupShareScopes : Scopes

def counted (keyId : JsString) (row : Row) : Bool := row.keyId ≠ keyId && row.canRead

def share (scopes : Scopes) (member : JsString × Member) : Scopes :=
  if member.2.full then scopes
  else scopes.put member.1 (sortBy compare member.2.workspaces.dedup)

def groupAccessFromRows (keyId : JsString) (rows : List Row) : Access :=
  let members := groupBy Row.keyId (fun _ => Member.start) Member.add (rows.filter (counted keyId))
  { groupKeyIds := keyId :: members.entries.map Prod.fst
    groupGrants := fun action =>
      (members.entries.filter fun member => member.2.can action).map Prod.fst
    groupShareScopes := members.entries.foldl share ⟨fun _ => none, none⟩ }

def requestGroupKeyIds (keyId : JsString) (groupKeyIds : List JsString) (shareScopes : Scopes)
    (workspace : Option JsString) : List JsString :=
  groupKeyIds.filter fun id =>
    id = keyId || (shareScopes.own id).all fun list =>
      workspace.any fun workspace => list.contains workspace

def isShareReadable (owner workspace : Option JsString) (keyId : Option JsString)
    (groupShareScopes : Scopes) : Bool :=
  keyId.isNone || owner = keyId || owner.all fun owner =>
    (groupShareScopes.get owner).all fun list => workspace.all fun workspace =>
      list.contains workspace

def canActOnGroupFragment (keyId : Option JsString) (groupGrants : Action -> List JsString)
    (action : Action) (ownerKeyId : Option JsString) : Bool :=
  keyId.isNone || ownerKeyId = keyId ||
    ownerKeyId.any fun owner => (groupGrants action).contains owner

def sanitizeGroupGrants (raw : Action -> List JsString) (action : Action) : List JsString :=
  (raw action).filter fun id => id ≠ []

def autoLinkOwnerKeys (keyId : Option JsString) (groupGrants : Action -> List JsString) :
    Option (List JsString) :=
  keyId.map fun keyId => keyId :: (sanitizeGroupGrants groupGrants .link).filter fun id =>
    id ≠ keyId

/-- Neither what is read nor what is granted nor what is shared depends on more than which rows
there are. -/
def OrderFree (keyId : JsString) (rows : List Row) : Prop :=
  ∀ others, (∀ row, row ∈ others <-> row ∈ rows) ->
    let access := groupAccessFromRows keyId rows
    let other := groupAccessFromRows keyId others
    (∀ id, id ∈ other.groupKeyIds <-> id ∈ access.groupKeyIds) /\
      (∀ action id, id ∈ other.groupGrants action <-> id ∈ access.groupGrants action) /\
        other.groupShareScopes = access.groupShareScopes

def Grows (keyId : JsString) (rows : List Row) : Prop :=
  ∀ more, rows ⊆ more ->
    let access := groupAccessFromRows keyId rows
    let after := groupAccessFromRows keyId more
    access.groupKeyIds ⊆ after.groupKeyIds /\
      (∀ action, access.groupGrants action ⊆ after.groupGrants action) /\
        ∀ workspace, requestGroupKeyIds keyId access.groupKeyIds access.groupShareScopes workspace ⊆
          requestGroupKeyIds keyId after.groupKeyIds after.groupShareScopes workspace

def GrantsRead (keyId : JsString) (rows : List Row) : Prop :=
  let access := groupAccessFromRows keyId rows
  (∀ action owner, canActOnGroupFragment keyId access.groupGrants action (some owner) = true ->
    owner ∈ access.groupKeyIds) /\
  ∀ owners, autoLinkOwnerKeys keyId access.groupGrants = some owners -> owners ⊆ access.groupKeyIds

def Agrees (keyId : JsString) (rows : List Row) : Prop :=
  let access := groupAccessFromRows keyId rows
  ∀ workspace,
    ∀ owner ∈ requestGroupKeyIds keyId access.groupKeyIds access.groupShareScopes workspace,
    ∀ of, of = workspace \/ of = none ->
      isShareReadable (some owner) of (some keyId) access.groupShareScopes = true

variable {keyId id : JsString} {rows : List Row} {action : Action}

def Reads (keyId id : JsString) (row : Row) : Prop :=
  row.keyId = id /\ id ≠ keyId /\ row.canRead = true

def Restricted (keyId : JsString) (rows : List Row) (id : JsString) : Prop :=
  (∃ row ∈ rows, Reads keyId id row) /\
    ∀ row ∈ rows, Reads keyId id row -> row.sharedWorkspaces.isSome = true

def rowsOf (keyId : JsString) (rows : List Row) (id : JsString) : List Row :=
  (rows.filter (counted keyId)).filter fun row => row.keyId = id

def shared (keyId : JsString) (rows : List Row) (id : JsString) : List JsString :=
  sortBy compare ((rowsOf keyId rows id).flatMap fun row => row.sharedWorkspaces.getD []).dedup

theorem mem_rowsOf {row : Row} :
    row ∈ rowsOf keyId rows id <-> row ∈ rows /\ Reads keyId id row := by
  simp only [rowsOf, mem_filter, counted, Reads, Bool.and_eq_true, decide_eq_true_eq]
  grind

variable (action) in
theorem foldl_add (rows : List Row) (m : Member) :
    (rows.foldl Member.add m).can action = (m.can action || rows.any (·.can action)) /\
      (rows.foldl Member.add m).full = (m.full || rows.any (·.sharedWorkspaces.isNone)) /\
        (rows.foldl Member.add m).workspaces =
          m.workspaces ++ rows.flatMap fun row => row.sharedWorkspaces.getD [] := by
  induction rows generalizing m with
  | nil => simp
  | cons row rest ih =>
    obtain ⟨hcan, hfull, hworkspaces⟩ := ih (m.add row)
    rw [foldl_cons, hcan, hfull, hworkspaces]
    simp [Member.add, Bool.or_assoc]

theorem get_members {m : Member} :
    (groupBy Row.keyId (fun _ => Member.start) Member.add (rows.filter (counted keyId))).get id =
      some m <-> (∃ row ∈ rows, Reads keyId id row) /\
        (rowsOf keyId rows id).foldl Member.add Member.start = m := by
  have hsome : (∃ row ∈ rows, Reads keyId id row) <-> rowsOf keyId rows id ≠ [] := by
    simp only [← mem_rowsOf, ne_eq, eq_nil_iff_forall_not_mem, not_forall, not_not]
  rw [get_groupBy, hsome, ← rowsOf]
  cases rowsOf keyId rows id <;> simp [groupOf]

theorem mem_groupKeyIds : id ∈ (groupAccessFromRows keyId rows).groupKeyIds <->
    id = keyId \/ ∃ row ∈ rows, Reads keyId id row := by
  simp only [groupAccessFromRows, mem_cons, mem_map, Prod.exists, exists_and_right, exists_eq_right,
    mem_entries_iff, get_members, exists_and_left, exists_eq', and_true]

theorem mem_groupGrants : id ∈ (groupAccessFromRows keyId rows).groupGrants action <->
    ∃ row ∈ rows, Reads keyId id row /\ row.can action = true := by
  have hcan : ((rowsOf keyId rows id).foldl Member.add Member.start).can action = true <->
      ∃ row ∈ rows, Reads keyId id row /\ row.can action = true := by
    simp [(foldl_add action _ _).1, Member.start, mem_rowsOf, and_assoc]
  simp only [groupAccessFromRows, mem_map, mem_filter, Prod.exists, mem_entries_iff, get_members,
    exists_and_right, exists_eq_right]
  grind

variable (id) in
theorem foldl_share (members : List (JsString × Member)) (scopes : Scopes)
    (hkeys : (members.map Prod.fst).Nodup) :
    (members.foldl share scopes).own PROTO = scopes.own PROTO /\
    ((∀ m, (id, m) ∈ members -> m.full = true) ->
      (members.foldl share scopes).get id = scopes.get id) /\
    ∀ m, (id, m) ∈ members -> m.full = false ->
      (members.foldl share scopes).get id = some (sortBy compare m.workspaces.dedup) := by
  induction members generalizing scopes with
  | nil => simp
  | cons member rest ih =>
    obtain ⟨name, m⟩ := member
    obtain ⟨hfresh, hrest⟩ := nodup_cons.mp hkeys
    have hput : (share scopes (name, m)).own PROTO = scopes.own PROTO /\
        (share scopes (name, m)).get id =
          if id = name /\ m.full = false then some (sortBy compare m.workspaces.dedup)
          else scopes.get id := by
      unfold share
      split
      · simp_all
      · unfold Scopes.put Scopes.get
        split <;> grind [Function.update_apply]
    obtain ⟨hproto, hfull, hlist⟩ := ih (share scopes (name, m)) hrest
    simp only [foldl_cons]
    refine ⟨hproto.trans hput.1, ?_, ?_⟩
    · grind
    · intro other hmem hother
      rcases mem_cons.mp hmem with heq | hmem
      · have hgone : ∀ m, (id, m) ∉ rest := by grind
        grind
      · exact hlist other hmem hother

theorem own_groupShareScopes : (groupAccessFromRows keyId rows).groupShareScopes.own id =
    if id = PROTO then none else (groupAccessFromRows keyId rows).groupShareScopes.get id := by
  split
  · rename_i heq
    rw [heq]
    exact (foldl_share id _ _ (Map.keysNodup _)).1
  · rename_i hne
    rw [Scopes.get, if_neg hne]

open Classical in
theorem get_groupShareScopes : (groupAccessFromRows keyId rows).groupShareScopes.get id =
    if Restricted keyId rows id then some (shared keyId rows id) else none := by
  obtain ⟨-, hnone, hlist⟩ := foldl_share id
    (groupBy Row.keyId (fun _ => Member.start) Member.add (rows.filter (counted keyId))).entries
    ⟨fun _ => none, none⟩ (Map.keysNodup _)
  simp only [mem_entries_iff, get_members] at hnone hlist
  have hfull : ((rowsOf keyId rows id).foldl Member.add Member.start).full = true <->
      ∃ row ∈ rows, Reads keyId id row /\ row.sharedWorkspaces = none := by
    simp [(foldl_add .link _ _).2.1, Member.start, mem_rowsOf, and_assoc]
  have hworkspaces := (foldl_add .link (rowsOf keyId rows id) Member.start).2.2
  split
  · rename_i hrestricted
    refine (hlist _ ⟨hrestricted.1, rfl⟩ ?_).trans (by rw [hworkspaces]; rfl)
    rw [← Bool.not_eq_true, hfull]
    rintro ⟨row, hrow, hreads, hnone⟩
    have hlimit := hrestricted.2 row hrow hreads
    rw [hnone] at hlimit
    cases hlimit
  · rename_i hfree
    refine (hnone ?_).trans (by simp [Scopes.get])
    rintro m ⟨hreads, rfl⟩
    rw [hfull]
    by_contra hlimits
    refine hfree ⟨hreads, fun row hrow hread => Option.isSome_iff_ne_none.mpr fun hnone => ?_⟩
    exact hlimits ⟨row, hrow, hread, hnone⟩

theorem mem_shared {workspace : JsString} : workspace ∈ shared keyId rows id <->
    ∃ row ∈ rows, Reads keyId id row /\ ∃ list, row.sharedWorkspaces = some list /\
      workspace ∈ list := by
  rw [shared, (sortBy_perm _ _).mem_iff, mem_dedup, mem_flatMap]
  refine exists_congr fun row => ?_
  rw [mem_rowsOf, and_assoc]
  cases row.sharedWorkspaces <;> simp

theorem shared_congr {others : List Row} (hsame : ∀ row, row ∈ others <-> row ∈ rows) :
    shared keyId others id = shared keyId rows id := by
  refine sortBy_eq_of_perm ((perm_ext_iff_of_nodup (nodup_dedup _) (nodup_dedup _)).mpr ?_)
    fun a _ b _ heq => Std.LawfulEqCmp.eq_of_compare heq
  simp [mem_rowsOf, hsame]

theorem orderFree : OrderFree keyId rows := by
  intro others hsame
  have hrestricted : ∀ id, Restricted keyId others id <-> Restricted keyId rows id := by
    simp [Restricted, hsame]
  have hget : ∀ id, (groupAccessFromRows keyId others).groupShareScopes.get id =
      (groupAccessFromRows keyId rows).groupShareScopes.get id := by
    intro id
    rw [get_groupShareScopes, get_groupShareScopes, shared_congr hsame]
    classical exact if_congr (hrestricted id) rfl rfl
  refine ⟨fun id => by simp [mem_groupKeyIds, hsame], fun _ id => by simp [mem_groupGrants, hsame],
    ?_⟩
  have hown : (groupAccessFromRows keyId others).groupShareScopes.own =
      (groupAccessFromRows keyId rows).groupShareScopes.own := by
    funext id
    rw [own_groupShareScopes, own_groupShareScopes, hget]
  have hproto := hget PROTO
  simp only [Scopes.get, if_true] at hproto
  cases h : (groupAccessFromRows keyId others).groupShareScopes
  cases h' : (groupAccessFromRows keyId rows).groupShareScopes
  simp_all

theorem grows : Grows keyId rows := by
  intro more hmore
  refine ⟨fun id hid => ?_, fun action id hid => ?_, fun workspace id hid => ?_⟩
  · rw [mem_groupKeyIds] at hid ⊢
    grind
  · rw [mem_groupGrants] at hid ⊢
    grind
  · simp only [requestGroupKeyIds, mem_filter, mem_groupKeyIds, own_groupShareScopes,
      get_groupShareScopes, Bool.or_eq_true, decide_eq_true_eq] at hid ⊢
    refine ⟨hid.1.imp_right fun ⟨row, hrow, hreads⟩ => ⟨row, hmore hrow, hreads⟩, ?_⟩
    refine or_iff_not_imp_left.mpr fun hother => ?_
    have hsees := hid.2.resolve_left hother
    by_cases hproto : id = PROTO
    · simp [hproto]
    by_cases hafter : Restricted keyId more id
    · have hbefore : Restricted keyId rows id :=
        ⟨hid.1.resolve_left hother, fun row hrow => hafter.2 row (hmore hrow)⟩
      rw [if_neg hproto, if_pos hbefore, Option.all_some, Option.any_eq_true] at hsees
      obtain ⟨text, htext, hin⟩ := hsees
      obtain ⟨row, hrow, hshares⟩ := mem_shared.mp (contains_iff_mem.mp hin)
      rw [if_neg hproto, if_pos hafter, Option.all_some, Option.any_eq_true]
      exact ⟨text, htext, contains_iff_mem.mpr (mem_shared.mpr ⟨row, hmore hrow, hshares⟩)⟩
    · rw [if_neg hproto, if_neg hafter]
      rfl

theorem grantsRead : GrantsRead keyId rows := by
  have hread : ∀ action {id}, id ∈ (groupAccessFromRows keyId rows).groupGrants action ->
      id ∈ (groupAccessFromRows keyId rows).groupKeyIds := by
    intro action id hid
    obtain ⟨row, hrow, hreads, -⟩ := mem_groupGrants.mp hid
    exact mem_groupKeyIds.mpr (.inr ⟨row, hrow, hreads⟩)
  have hself : keyId ∈ (groupAccessFromRows keyId rows).groupKeyIds :=
    mem_groupKeyIds.mpr (.inl rfl)
  refine ⟨fun action owner hcan => ?_, ?_⟩
  · simp only [canActOnGroupFragment, Option.isNone_some, Bool.false_or, Option.some.injEq,
      Option.any_some, Bool.or_eq_true, decide_eq_true_eq, contains_iff_mem] at hcan
    rcases hcan with rfl | hgrant
    · exact hself
    · exact hread _ hgrant
  · rintro owners howners
    cases howners
    refine cons_subset.mpr ⟨hself, fun id hid => hread .link ?_⟩
    exact mem_of_mem_filter (mem_of_mem_filter hid)

theorem agrees_iff : Agrees keyId rows <-> Not (Restricted keyId rows PROTO) := by
  constructor
  · intro hagrees hrestricted
    obtain ⟨workspace, hworkspace⟩ :=
      Infinite.exists_notMem_finset (shared keyId rows PROTO).toFinset
    obtain ⟨row, hrow, hreads⟩ := hrestricted.1
    have hasked : PROTO ∈ requestGroupKeyIds keyId (groupAccessFromRows keyId rows).groupKeyIds
        (groupAccessFromRows keyId rows).groupShareScopes (some workspace) := by
      simp only [requestGroupKeyIds, mem_filter, mem_groupKeyIds, own_groupShareScopes]
      exact ⟨.inr ⟨row, hrow, hreads⟩, by simp⟩
    have hreadable := hagrees _ _ hasked _ (.inl rfl)
    rw [isShareReadable, Option.all_some, get_groupShareScopes, if_pos hrestricted] at hreadable
    exact hworkspace (mem_toFinset.mpr (by simpa [hreads.2.1] using hreadable))
  · intro hfree workspace owner howner text htext
    simp only [requestGroupKeyIds, mem_filter, own_groupShareScopes, Bool.or_eq_true,
      decide_eq_true_eq] at howner
    simp only [isShareReadable, Option.isNone_some, Bool.false_or, Option.all_some, Bool.or_eq_true,
      decide_eq_true_eq, Option.some.injEq]
    refine howner.2.imp_right fun hsees => ?_
    by_cases hproto : owner = PROTO
    · rw [hproto, get_groupShareScopes, if_neg hfree]
      rfl
    · rw [if_neg hproto] at hsees
      rcases htext with rfl | rfl
      · cases hlist : (groupAccessFromRows keyId rows).groupShareScopes.get owner <;>
          cases text <;> simp_all
      · simp

/-- A member of that name shares the workspace `a`. -/
def sampleRows : List Row := [⟨PROTO, true, false, false, false, some [ofString "a"]⟩]

end AnchorMind.Recall.GroupGrants
