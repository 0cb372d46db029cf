import AnchorMind.Admin.AdminAccounts

/-!
# An active owner remains

Under the advisory lock the account table does not change between the reads of a
transaction and its commit.  A decided change therefore leaves an active owner, as long as
it names the account the way the database writes it.
-/

namespace AnchorMind.Admin.AdminAccounts

open Kernel.Transition Text.Objects List

theorem normalizeRoleBinding_owner {item : Value} {binding : Binding}
    (haccepted : normalizeRoleBinding item = some binding) (howner : binding.role = "owner") :
    ownsGlobally binding = true := by
  unfold normalizeRoleBinding at haccepted
  split at haccepted
  · cases haccepted
  · rename_i role _
    split at haccepted
    · cases haccepted
    · split at haccepted
      · rename_i workspace groupId _ _
        split at haccepted
        · cases haccepted
        · rename_i hglobal
          split at haccepted
          · cases haccepted
          · obtain rfl := Option.some.inj haccepted
            dsimp only at howner
            have hnone : workspace = none /\ groupId = none := by
              cases workspace <;> cases groupId <;> simp_all
            simp [ownsGlobally, hnone.1, hnone.2, howner]
      · cases haccepted

variable {bindings : List Binding}

theorem mem_of_mem_firstOfEach : ∀ {seen : List Binding}
    {binding : Binding}, binding ∈ firstOfEach seen bindings -> binding ∈ bindings := by
  induction bindings with
  | nil =>
    intro seen binding hmem
    cases hmem
  | cons first rest ih =>
    intro seen binding hmem
    unfold firstOfEach at hmem
    split at hmem
    · exact mem_cons_of_mem _ (ih hmem)
    · rcases mem_cons.mp hmem with rfl | hrest
      · exact mem_cons_self
      · exact mem_cons_of_mem _ (ih hrest)

theorem exists_of_mem_mapM {items : List Value} : ∀ {bindings : List Binding},
    items.mapM normalizeRoleBinding = some bindings -> ∀ binding ∈ bindings,
      ∃ item, normalizeRoleBinding item = some binding := by
  induction items with
  | nil =>
    intro bindings hmap binding hmem
    obtain rfl : [] = bindings := by simpa using hmap
    cases hmem
  | cons item rest ih =>
    intro bindings hmap binding hmem
    rw [mapM_cons] at hmap
    obtain ⟨first, hfirst, hrest⟩ := Option.bind_eq_some_iff.mp hmap
    obtain ⟨others, hothers, hpure⟩ := Option.bind_eq_some_iff.mp hrest
    obtain rfl := Option.some.inj hpure
    rcases mem_cons.mp hmem with rfl | hlater
    · exact ⟨item, hfirst⟩
    · exact ih hothers binding hlater

theorem any_ownsGlobally_of_accepted {roles : Value}
    (haccepted : normalizeRoleBindings roles = some bindings)
    (howner : hasGlobalOwner bindings = true) : bindings.any ownsGlobally = true := by
  unfold normalizeRoleBindings at haccepted
  split at haccepted
  · split at haccepted
    · cases haccepted
    · obtain ⟨all, hall, rfl⟩ := Option.map_eq_some_iff.mp haccepted
      obtain ⟨binding, hmem, hrole⟩ := any_eq_true.mp howner
      have hname : binding.role = "owner" := by
        rw [Bool.and_eq_true, beq_iff_eq] at hrole
        exact hrole.1
      obtain ⟨item, hitem⟩ := exists_of_mem_mapM hall binding (mem_of_mem_firstOfEach hmem)
      exact any_eq_true.mpr ⟨binding, hmem, normalizeRoleBinding_owner hitem hname⟩
  · cases haccepted

theorem hasGlobalOwner_of_any (hany : bindings.any ownsGlobally = true) :
    hasGlobalOwner bindings = true := by
  obtain ⟨binding, hmem, howns⟩ := any_eq_true.mp hany
  refine any_eq_true.mpr ⟨binding, hmem, ?_⟩
  unfold ownsGlobally at howns
  exact (Bool.and_eq_true_iff.mp howns).1

def Accepted : Operation -> Prop
  | .createUser _ bindings => hasGlobalOwner bindings = true -> bindings.any ownsGlobally = true
  | .setRoles _ bindings => hasGlobalOwner bindings = true -> bindings.any ownsGlobally = true
  | _ => True

variable {operation : Operation}

theorem accepted_of_request {request : Request} (hoperation : request.operation = some operation) :
    Accepted operation := by
  cases request with
  | bootstrapOwner norm =>
    obtain rfl := Option.some.inj hoperation
    trivial
  | createUser norm roles =>
    obtain ⟨bindings, hbindings, rfl⟩ := Option.map_eq_some_iff.mp hoperation
    exact any_ownsGlobally_of_accepted hbindings
  | updateUser id status password =>
    obtain rfl := Option.some.inj hoperation
    trivial
  | setRoles id roles =>
    obtain ⟨bindings, hbindings, rfl⟩ := Option.map_eq_some_iff.mp hoperation
    exact any_ownsGlobally_of_accepted hbindings
  | deleteUser id =>
    obtain rfl := Option.some.inj hoperation
    trivial

def KeepsOwner (operation : Operation) (users : List User) : Prop :=
  Owned users -> ∀ newId, Owned (operation.apply newId users)

variable {users : List User} {user : User}

theorem mem_changeNamed (id : String) (change : User -> User) (hmem : user ∈ users) :
    (if uuidIn id = some user.id then change user else user) ∈ changeNamed id change users :=
  mem_map_of_mem hmem

variable {id : String}

theorem owned_of_other (htarget : operation.target = some id) (hmem : user ∈ users)
    (howner : user.activeOwner = true) (hother : uuidIn id ≠ some user.id) (newId : Uuid) :
    Owned (operation.apply newId users) := by
  refine ⟨user, ?_, howner⟩
  cases operation with
  | bootstrapOwner norm => cases htarget
  | createUser norm bindings => cases htarget
  | updateUser name status password =>
    obtain rfl := Option.some.inj htarget
    have hkept := mem_changeNamed name
      (fun user => { user with active := status.getD user.active }) hmem
    rw [if_neg hother] at hkept
    exact hkept
  | setRoles name bindings =>
    obtain rfl := Option.some.inj htarget
    have hkept := mem_changeNamed name
      (fun user => { user with bindings := bindings }) hmem
    rw [if_neg hother] at hkept
    exact hkept
  | deleteUser name =>
    obtain rfl := Option.some.inj htarget
    exact mem_filter.mpr ⟨hmem, by simpa using hother⟩

theorem eq_of_same_id (hids : (users.map User.id).Nodup) {one other : User} (hone : one ∈ users)
    (hother : other ∈ users) (hsame : one.id = other.id) : one = other :=
  inj_on_of_nodup_map hids hone hother hsame

theorem found_named (hfound : findNamed id users = some user) :
    user ∈ users /\ uuidIn id = some user.id :=
  ⟨mem_of_find?_eq_some hfound, by simpa using find?_some hfound⟩

/-- The account a change names stays an active owner when the change does not take the
ownership. -/
theorem owned_of_named (htarget : operation.target = some id) (haccepted : Accepted operation)
    (hmem : user ∈ users) (howner : user.activeOwner = true) (hnamed : uuidIn id = some user.id)
    (hkeeps : operation.removesOwner user = false) (newId : Uuid) :
    Owned (operation.apply newId users) := by
  obtain ⟨hactive, howns⟩ := Bool.and_eq_true_iff.mp howner
  cases operation with
  | bootstrapOwner norm => cases htarget
  | createUser norm bindings => cases htarget
  | updateUser name status password =>
    obtain rfl := Option.some.inj htarget
    have hkept := mem_changeNamed name
      (fun user => { user with active := status.getD user.active }) hmem
    rw [if_pos hnamed] at hkept
    refine ⟨_, hkept, Bool.and_eq_true_iff.mpr ⟨?_, howns⟩⟩
    cases status with
    | none => exact hactive
    | some status =>
      cases status with
      | true => rfl
      | false => cases hkeeps
  | setRoles name bindings =>
    obtain rfl := Option.some.inj htarget
    have hkept := mem_changeNamed name
      (fun user => { user with bindings := bindings }) hmem
    rw [if_pos hnamed] at hkept
    refine ⟨_, hkept, Bool.and_eq_true_iff.mpr ⟨hactive, haccepted ?_⟩⟩
    have hcurrent := hasGlobalOwner_of_any howns
    simpa [Operation.removesOwner, roleChangeRemovesOwner, hcurrent] using hkeeps
  | deleteUser name =>
    have hcurrent := hasGlobalOwner_of_any howns
    rw [Operation.removesOwner, hcurrent] at hkeeps
    cases hkeeps

theorem exists_other_owner
    (hdecision : ownerChangeDecision ((activeOwners users).map uuidText) id true = true)
    (hplain : user.id ∈ activeOwners users ->
      (∀ owner ∈ activeOwners users, owner = user.id) -> id = uuidText user.id)
    (howned : Owned users) : ∃ owner ∈ activeOwners users, owner ≠ user.id := by
  by_contra hnone
  have honly : ∀ owner ∈ activeOwners users, owner = user.id := by
    intro owner hmem
    by_contra hne
    exact hnone ⟨owner, hmem, hne⟩
  obtain ⟨witness, hmem, howner⟩ := howned
  have hthere : witness.id ∈ activeOwners users :=
    mem_map_of_mem (mem_filter.mpr ⟨hmem, howner⟩)
  have hactive : user.id ∈ activeOwners users := honly witness.id hthere ▸ hthere
  obtain rfl := hplain hactive honly
  rcases Bool.or_eq_true_iff.mp hdecision with hmissing | hother
  · -- the only active owner is on the list
    have hlisted : uuidText user.id ∈ (activeOwners users).map uuidText :=
      mem_map_of_mem hactive
    simp only [Bool.not_true, Bool.false_or, Bool.not_eq_true'] at hmissing
    rw [contains_iff_mem.mpr hlisted] at hmissing
    cases hmissing
  · obtain ⟨text, htext, hne⟩ := any_eq_true.mp hother
    obtain ⟨owner, hmem, rfl⟩ := mem_map.mp htext
    rw [honly owner hmem] at hne
    exact absurd rfl (bne_iff_ne.mp hne)

theorem keepsOwner_of_allows (htarget : operation.target = some id) (haccepted : Accepted operation)
    (hids : (users.map User.id).Nodup)
    (hallows : allows operation id ((activeOwners users).map uuidText) users = true)
    (hplain : ∀ user, findNamed id users = some user -> operation.removesOwner user = true ->
      user.id ∈ activeOwners users ->
        (∀ owner ∈ activeOwners users, owner = user.id) -> id = uuidText user.id) :
    KeepsOwner operation users := by
  intro howned newId
  unfold allows at hallows
  split at hallows
  · cases hallows
  · rename_i user hfound
    obtain ⟨hmem, hnamed⟩ := found_named hfound
    rcases hremoves : operation.removesOwner user with _ | _
    · obtain ⟨witness, hthere, howner⟩ := howned
      rcases Decidable.em (uuidIn id = some witness.id) with hsame | hother
      · obtain rfl : user = witness :=
          eq_of_same_id hids hmem hthere (Option.some.inj (hnamed.symm.trans hsame))
        exact owned_of_named htarget haccepted hmem howner hnamed hremoves newId
      · exact owned_of_other htarget hthere howner hother newId
    · rw [hremoves] at hallows
      obtain ⟨owner, howner, hne⟩ :=
        exists_other_owner hallows (hplain user hfound hremoves) howned
      obtain ⟨witness, hthere, rfl⟩ := mem_map.mp howner
      obtain ⟨hthere, hactive⟩ := mem_filter.mp hthere
      refine owned_of_other htarget hthere hactive ?_ newId
      rw [hnamed]
      intro hsame
      exact hne (Option.some.inj hsame).symm

theorem keepsOwner_of_insert (htarget : operation.target = none) (users : List User) :
    KeepsOwner operation users := by
  rintro ⟨user, hmem, howner⟩ newId
  refine ⟨user, ?_, howner⟩
  cases operation with
  | bootstrapOwner norm => exact mem_append_left _ hmem
  | createUser norm bindings => exact mem_append_left _ hmem
  | updateUser id status password => cases htarget
  | setRoles id bindings => cases htarget
  | deleteUser id => cases htarget

theorem owned_of_bootstrap (norm : String) (newId : Uuid) (users : List User) :
    Owned ((Operation.bootstrapOwner norm).apply newId users) :=
  ⟨_, mem_append_right _ mem_cons_self, rfl⟩

theorem ids_changeNamed (id : String) (change : User -> User)
    (hid : ∀ user, (change user).id = user.id) (users : List User) :
    (changeNamed id change users).map User.id = users.map User.id := by
  unfold changeNamed
  rw [map_map]
  apply map_congr_left
  intro user _
  simp only [Function.comp_apply]
  split
  · exact hid user
  · rfl

theorem nodup_apply (hids : (users.map User.id).Nodup) (operation : Operation) {newId : Uuid}
    (hnew : newId ∉ users.map User.id) : ((operation.apply newId users).map User.id).Nodup := by
  have hadded : ∀ user : User, user.id = newId -> ((users ++ [user]).map User.id).Nodup := by
    intro user hid
    rw [map_append, map_singleton, hid]
    exact nodup_append.mpr
      ⟨hids, nodup_singleton _, fun id hmem other hother => by
        obtain rfl := mem_singleton.mp hother
        intro heq
        exact hnew (heq ▸ hmem)⟩
  cases operation with
  | bootstrapOwner norm => exact hadded _ rfl
  | createUser norm bindings => exact hadded _ rfl
  | updateUser id status password =>
    have hsame := ids_changeNamed id
      (fun user => { user with active := status.getD user.active }) (fun _ => rfl) users
    exact hsame ▸ hids
  | setRoles id bindings =>
    have hsame := ids_changeNamed id
      (fun user => { user with bindings := bindings }) (fun _ => rfl) users
    exact hsame ▸ hids
  | deleteUser id => exact hids.sublist (filter_sublist.map User.id)

def Point.InFlight : Point -> Prop
  | .waiting => False
  | .ended => False
  | _ => True

def Fits (users : List User) (operation : Operation) : Point -> Prop
  | .ownersRead owners => owners = (activeOwners users).map uuidText
  | .decided => KeepsOwner operation users
  | _ => True

variable {point : Point}

theorem Fits.of_not_inFlight (hout : ¬ point.InFlight) (users : List User) (operation : Operation) :
    Fits users operation point := by
  cases point with
  | waiting => trivial
  | ended => trivial
  | locked => exact absurd trivial hout
  | ownersRead owners => exact absurd trivial hout
  | decided => exact absurd trivial hout

structure Inv (state : State) : Prop where
  ids : (state.users.map User.id).Nodup
  accepted : ∀ {txn : Nat} {made : Txn}, state.txns[txn]? = some made ->
    Accepted made.operation
  holds : ∀ {txn : Nat} {made : Txn}, state.txns[txn]? = some made ->
    made.point.InFlight -> state.lock = some txn
  fits : ∀ {txn : Nat} {made : Txn}, state.txns[txn]? = some made ->
    Fits state.users made.operation made.point
  owned : state.bootstrapped = true -> Owned state.users

variable {state : State} {txn : Nat} {made : Txn}

section

variable (hinv : Inv state)
include hinv

section

variable (hmade : state.txns[txn]? = some made)
include hmade

theorem Inv.move {lock : Option Nat} (hfits : Fits state.users made.operation point)
    (hown : point.InFlight -> lock = some txn)
    (hothers : ∀ other, other ≠ txn -> state.lock = some other -> lock = some other) :
    Inv { state.setPoint txn made point with lock := lock } := by
  have hcases : ∀ {other : Nat} {found : Txn},
      (state.txns.set txn { made with point := point })[other]? = some found ->
        (other = txn /\ found = { made with point := point }) \/
          (other ≠ txn /\ state.txns[other]? = some found) := by
    intro other found hfound
    rw [getElem?_set] at hfound
    split at hfound
    · rename_i hsame
      split at hfound
      · exact .inl ⟨hsame.symm, (Option.some.inj hfound).symm⟩
      · cases hfound
    · rename_i hne
      exact .inr ⟨fun heq => hne heq.symm, hfound⟩
  constructor
  · exact hinv.ids
  · intro other found hfound
    rcases hcases hfound with ⟨-, rfl⟩ | ⟨-, hbefore⟩
    · have haccepted := hinv.accepted hmade
      exact haccepted
    · exact hinv.accepted hbefore
  · intro other found hfound hflight
    rcases hcases hfound with ⟨rfl, rfl⟩ | ⟨hne, hbefore⟩
    · exact hown hflight
    · exact hothers other hne (hinv.holds hbefore hflight)
  · intro other found hfound
    rcases hcases hfound with ⟨-, rfl⟩ | ⟨-, hbefore⟩
    · exact hfits
    · exact hinv.fits hbefore
  · exact hinv.owned

theorem Inv.rollback : Inv (state.rollback txn made) := by
  refine hinv.move hmade trivial (fun hended => hended.elim) ?_
  intro other hne hlock
  rw [hlock, if_neg (fun heq => hne (Option.some.inj heq))]

theorem Inv.advance (hflight : made.point.InFlight)
    (hfits : Fits state.users made.operation point) : Inv (state.setPoint txn made point) :=
  hinv.move hmade hfits (fun _ => hinv.holds hmade hflight) (fun _ _ hlock => hlock)

end

theorem Inv.begin (haccepted : Accepted operation) :
    Inv { state with txns := state.txns ++ [{ operation := operation, point := .waiting }] } := by
  have hcases : ∀ {txn : Nat} {made : Txn},
      (state.txns ++ [{ operation := operation, point := .waiting }])[txn]? = some made ->
        state.txns[txn]? = some made \/ made = { operation := operation, point := .waiting } := by
    intro txn made hmade
    rw [getElem?_append] at hmade
    split at hmade
    · exact .inl hmade
    · exact .inr (mem_singleton.mp (mem_of_getElem? hmade))
  constructor
  · exact hinv.ids
  · intro txn made hmade
    rcases hcases hmade with hbefore | rfl
    · exact hinv.accepted hbefore
    · exact haccepted
  · intro txn made hmade hflight
    rcases hcases hmade with hbefore | rfl
    · exact hinv.holds hbefore hflight
    · exact hflight.elim
  · intro txn made hmade
    rcases hcases hmade with hbefore | rfl
    · exact hinv.fits hbefore
    · trivial
  · exact hinv.owned

theorem Inv.commit (hmade : state.txns[txn]? = some { operation := operation, point := .decided })
    {newId : Uuid} (hnew : newId ∉ state.users.map User.id) {first : Bool}
    (hfirst : first = true -> ∃ norm, operation = .bootstrapOwner norm) :
    Inv { state.rollback txn { operation := operation, point := .decided } with
      users := operation.apply newId state.users
      bootstrapped := state.bootstrapped || first } := by
  have hlock : state.lock = some txn := hinv.holds hmade trivial
  have hrolled := hinv.rollback hmade
  have hfree : (state.rollback txn { operation := operation, point := .decided }).lock = none := by
    rw [State.rollback, hlock, if_pos rfl]
  have hidle : ∀ {other : Nat} {found : Txn},
      (state.rollback txn { operation := operation, point := .decided }).txns[other]? =
        some found -> ¬ found.point.InFlight := by
    intro other found hfound hflight
    have hheld := hrolled.holds hfound hflight
    rw [hfree] at hheld
    cases hheld
  constructor
  · exact nodup_apply hinv.ids operation hnew
  · intro other found hfound
    exact hrolled.accepted hfound
  · intro other found hfound hflight
    exact absurd hflight (hidle hfound)
  · intro other found hfound
    exact Fits.of_not_inFlight (hidle hfound) _ _
  · intro hboot
    rcases Bool.or_eq_true_iff.mp hboot with hbefore | hnow
    · exact hinv.fits hmade (hinv.owned hbefore) newId
    · obtain ⟨norm, rfl⟩ := hfirst hnow
      exact owned_of_bootstrap norm newId state.users

end

theorem Inv.step {before after : State} {label : Label} (hinv : Inv before)
    (hstep : step before label = some after) (hguard : Guarded before label) : Inv after := by
  cases label with
  | begin request =>
    obtain ⟨operation, hoperation, rfl⟩ := Option.map_eq_some_iff.mp hstep
    exact hinv.begin (accepted_of_request hoperation)
  | acquire txn =>
    simp only [AdminAccounts.step] at hstep
    split at hstep
    · rename_i operation hmade hfree
      obtain rfl := Option.some.inj hstep
      refine hinv.move hmade trivial (fun _ => rfl) ?_
      intro other _ hlock
      rw [hfree] at hlock
      cases hlock
    · cases hstep
  | readOwners txn =>
    simp only [AdminAccounts.step] at hstep
    split at hstep
    · rename_i operation hmade
      split at hstep
      · cases hstep
      · obtain rfl := Option.some.inj hstep
        exact hinv.advance hmade trivial rfl
    · cases hstep
  | decide txn =>
    simp only [AdminAccounts.step] at hstep
    split at hstep
    · rename_i operation hmade
      split at hstep
      · cases hstep
      · rename_i htarget
        split at hstep
        · obtain rfl := Option.some.inj hstep
          exact hinv.rollback hmade
        · obtain rfl := Option.some.inj hstep
          exact hinv.advance hmade trivial (keepsOwner_of_insert htarget before.users)
    · rename_i operation owners hmade
      split at hstep
      · cases hstep
      · rename_i id htarget
        split at hstep
        · rename_i hallows
          obtain rfl := Option.some.inj hstep
          have hread : owners = (activeOwners before.users).map uuidText := hinv.fits hmade
          rw [hread] at hallows
          exact hinv.advance hmade trivial
            (keepsOwner_of_allows htarget (hinv.accepted hmade) hinv.ids hallows
              (hguard _ hmade id htarget))
        · obtain rfl := Option.some.inj hstep
          exact hinv.rollback hmade
    · cases hstep
  | commit txn newId =>
    simp only [AdminAccounts.step] at hstep
    split at hstep
    · rename_i operation hmade
      split at hstep
      · cases hstep
      · rename_i hnew
        obtain rfl := Option.some.inj hstep
        refine hinv.commit hmade hnew ?_
        intro hfirst
        cases operation with
        | bootstrapOwner norm => exact ⟨norm, rfl⟩
        | createUser norm bindings => cases hfirst
        | updateUser id status password => cases hfirst
        | setRoles id bindings => cases hfirst
        | deleteUser id => cases hfirst
    · cases hstep
  | fail txn =>
    obtain ⟨made, hmade, rfl⟩ := Option.map_eq_some_iff.mp hstep
    exact hinv.rollback hmade

theorem inv_of_reachable (hreach : (accounts.restrict Guarded).Reachable state) : Inv state := by
  have hstart : ∀ origin, Started origin -> Inv origin := by
    intro origin hstarted
    have hnone : ∀ {txn : Nat} {made : Txn}, origin.txns[txn]? ≠ some made := by
      intro txn made hmade
      rw [hstarted.txns] at hmade
      cases hmade
    constructor
    · exact hstarted.ids
    · intro txn made hmade
      exact absurd hmade hnone
    · intro txn made hmade
      exact absurd hmade hnone
    · intro txn made hmade
      exact absurd hmade hnone
    · intro hboot
      rw [hstarted.bootstrapped] at hboot
      cases hboot
  have hkeep : ∀ before label after, (accounts.restrict Guarded).Reachable before ->
      Inv before -> (accounts.restrict Guarded).step before label after -> Inv after := by
    intro before label after _ hinv hstep
    exact hinv.step hstep.1 hstep.2
  exact hreach.invariant hstart hkeep

/-- After the first bootstrap an active owner is there, in every run whose ownership-taking
changes name the only active owner as the database writes it. -/
theorem active_owner_remains (state : State) (hreach : (accounts.restrict Guarded).Reachable state)
    (hboot : state.bootstrapped = true) : Owned state.users :=
  (inv_of_reachable hreach).owned hboot

def noAccounts : State where
  users := []
  lock := none
  txns := []
  bootstrapped := false

theorem noAccounts_started : Started noAccounts := ⟨nodup_nil, rfl, rfl, rfl⟩

def firstId : Uuid := replicate 31 0 ++ [1]

def secondId : Uuid := replicate 31 0 ++ [2]

def change (txn : Nat) (request : Request) : List Label :=
  [.begin request, .acquire txn, .readOwners txn, .decide txn, .commit txn secondId]

def firstBootstrap : List Label :=
  [.begin (.bootstrapOwner "root"), .acquire 0, .decide 0, .commit 0 firstId]

def ownerHandover : List Label :=
  firstBootstrap ++
    [.begin (.createUser "second" (.array [.string "owner"])), .acquire 1, .decide 1,
      .commit 1 secondId, .begin (.deleteUser (uuidText firstId)), .acquire 2, .readOwners 2,
      .decide 2, .commit 2 (replicate 32 0)]

theorem owner_handover_leaves_owner : ∃ state,
    (accounts.restrict Guarded).Reachable state /\ state.users.map User.id = [secondId] /\
      Owned state.users := by
  have hrun : (System.follow (fun before label => if Guarded before label then step before label
      else none) noAccounts ownerHandover).map
        (fun state => (state.users.map User.id, state.bootstrapped)) =
          some ([secondId], true) := by decide +kernel
  obtain ⟨state, hfollow, hdata⟩ := Option.map_eq_some_iff.mp hrun
  obtain ⟨hids, hboot⟩ := Prod.mk.inj hdata
  have hreach : (accounts.restrict Guarded).Reachable state :=
    ⟨noAccounts, ownerHandover, noAccounts_started,
      .of_follow_restrict (fun _ _ _ hstep => hstep) hfollow⟩
  exact ⟨state, hreach, hids, active_owner_remains state hreach hboot⟩

/-- The only owner is deleted under a spelling the database reads as its id. -/
def respeltDeletion : List Label :=
  firstBootstrap ++ change 1 (.deleteUser "0000-0000-0000-0000-0000000000000001")

theorem respelt_deletion_takes_last_owner : ∃ state, accounts.Reachable state /\
    state.bootstrapped = true /\ ¬ Owned state.users := by
  have hrun : (System.follow step noAccounts respeltDeletion).map
      (fun state => (state.users.length, state.bootstrapped)) = some (0, true) := by decide +kernel
  obtain ⟨state, hfollow, hdata⟩ := Option.map_eq_some_iff.mp hrun
  obtain ⟨hnone, hboot⟩ := Prod.mk.inj hdata
  refine ⟨state, ⟨noAccounts, respeltDeletion, noAccounts_started,
    .of_follow (fun _ _ _ hstep => hstep) hfollow⟩, hboot, ?_⟩
  rintro ⟨user, hmem, -⟩
  rw [length_eq_zero_iff.mp hnone] at hmem
  cases hmem

end AnchorMind.Admin.AdminAccounts
