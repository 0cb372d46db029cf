import AnchorMind.Kernel.Transition
import AnchorMind.Text.Objects

/-!
# Administrator accounts

The transactions of the account store.  Each takes the advisory lock of the account table
first; a change of an account then reads the active owners, reads the account, and lets the
last-owner rule decide.  An account is named by a text, which the database reads as a UUID.
-/

namespace AnchorMind.Admin.AdminAccounts

open Kernel.Transition Text.Objects Text.Utf16

abbrev Uuid := List (Fin 16)

scoped instance sixteen_neZero : NeZero 16 := ⟨by decide⟩

def hexDigit (c : Char) : Option (Fin 16) :=
  if '0' ≤ c ∧ c ≤ '9' then some (Fin.ofNat 16 (c.toNat - '0'.toNat))
  else if 'a' ≤ c ∧ c ≤ 'f' then some (Fin.ofNat 16 (c.toNat - 'a'.toNat + 10))
  else if 'A' ≤ c ∧ c ≤ 'F' then some (Fin.ofNat 16 (c.toNat - 'A'.toNat + 10))
  else none

def skipHyphen (byte : Nat) : List Char -> List Char
  | '-' :: rest => if byte % 2 = 1 ∧ byte < 15 then rest else '-' :: rest
  | rest => rest

def readBytes : Nat -> List Char -> Option (Uuid × List Char)
  | 0, rest => some ([], rest)
  | left + 1, high :: low :: rest =>
    match hexDigit high, hexDigit low with
    | some first, some second =>
      (readBytes left (skipHyphen (15 - left) rest)).map fun read =>
        (first :: second :: read.1, read.2)
    | _, _ => none
  | _ + 1, _ => none

/-- What the database takes a text for: hyphens may stand after any group of four digits,
upper-case digits and surrounding braces are accepted. -/
def uuidIn (text : String) : Option Uuid :=
  match text.toList with
  | '\x7b' :: rest =>
    match readBytes 16 rest with
    | some (digits, ['\x7d']) => some digits
    | _ => none
  | chars =>
    match readBytes 16 chars with
    | some (digits, []) => some digits
    | _ => none

def hexChar (digit : Fin 16) : Char :=
  if digit.val < 10 then Char.ofNat ('0'.toNat + digit.val)
  else Char.ofNat ('a'.toNat + (digit.val - 10))

def uuidText (uuid : Uuid) : String :=
  let chars := uuid.map hexChar
  String.ofList (chars.take 8 ++ '-' :: ((chars.drop 8).take 4 ++ '-' :: ((chars.drop 12).take 4 ++
    '-' :: ((chars.drop 16).take 4 ++ '-' :: chars.drop 20))))

structure Binding where
  role : String
  groupId : Option String
  workspace : Option String
  deriving DecidableEq

def assignableRoles : List String := ["owner", "admin", "reviewer", "auditor", "viewer"]

def maxBindingsPerUser : Nat := 64

def workspaceMax : Nat := 128

def isWorkspaceValue (text : String) : Bool :=
  text != "" && decide (utf16Length text ≤ workspaceMax) &&
    text.toList.all fun c => decide (0x20 ≤ c.toNat) && c.toNat != 0x7f

/-- `/^[A-Za-z0-9-]{1,64}$/` -/
def isGroupIdValue (text : String) : Bool :=
  decide (1 ≤ text.length) && decide (text.length ≤ 64) &&
    text.toList.all fun c => ('A' ≤ c && c ≤ 'Z') || ('a' ≤ c && c ≤ 'z') ||
      ('0' ≤ c && c ≤ '9') || c == '-'

def property (item : Value) (name : String) : Option Value :=
  match item with
  | .object fields => get fields name
  | _ => none

def given (value : Option Value) : Option Value := if isNullish value then none else value

def optionalText (accepts : String -> Bool) : Option Value -> Option (Option String)
  | none => some none
  | some (.string text) => if accepts text then some (some text) else none
  | some _ => none

def roleOf (item : Value) : Option String :=
  match item with
  | .string text => some text
  | _ => asString (property item "role")

/-- `normalizeRoleBinding`; `none` when it throws. -/
def normalizeRoleBinding (item : Value) : Option Binding :=
  match roleOf item with
  | none => none
  | some role =>
    if role ∉ assignableRoles then none
    else
      match optionalText isWorkspaceValue (given (property item "workspace")),
          optionalText isGroupIdValue
            ((given (property item "group_id")).or (given (property item "groupId"))) with
      | some workspace, some groupId =>
        if role = "owner" ∧ (workspace.isSome ∨ groupId.isSome) then none
        else if workspace.isSome ∧ groupId.isNone then none
        else some { role := role, groupId := groupId, workspace := workspace }
      | _, _ => none

def firstOfEach : List Binding -> List Binding -> List Binding
  | _, [] => []
  | seen, binding :: rest =>
    if binding ∈ seen then firstOfEach seen rest
    else binding :: firstOfEach (binding :: seen) rest

/-- `normalizeRoleBindings`; `none` when it throws. -/
def normalizeRoleBindings (roles : Value) : Option (List Binding) :=
  match roles with
  | .array items =>
    if items = [] ∨ maxBindingsPerUser < items.length then none
    else (items.mapM normalizeRoleBinding).map (firstOfEach [])
  | _ => none

structure User where
  id : Uuid
  norm : String
  active : Bool
  bindings : List Binding

/-- The owner test of `ACTIVE_OWNERS_SQL`. -/
def ownsGlobally (binding : Binding) : Bool :=
  binding.role == "owner" && binding.workspace.isNone && binding.groupId.isNone

/-- `hasGlobalOwner`, which does not look at the group. -/
def hasGlobalOwner (bindings : List Binding) : Bool :=
  bindings.any fun binding => binding.role == "owner" && binding.workspace.isNone

def roleChangeRemovesOwner (current next : List Binding) : Bool :=
  hasGlobalOwner current && !hasGlobalOwner next

/-- Whether `ownerChangeDecision` says ok. -/
def ownerChangeDecision (activeOwnerIds : List String) (targetId : String) (removesOwner : Bool) :
    Bool :=
  !removesOwner || !activeOwnerIds.contains targetId || activeOwnerIds.any (· != targetId)

def User.activeOwner (user : User) : Bool := user.active && user.bindings.any ownsGlobally

/-- `ACTIVE_OWNERS_SQL` -/
def activeOwners (users : List User) : List Uuid := (users.filter User.activeOwner).map User.id

inductive Operation where
  | bootstrapOwner (norm : String)
  | createUser (norm : String) (bindings : List Binding)
  | updateUser (id : String) (status : Option Bool) (password : Bool)
  | setRoles (id : String) (bindings : List Binding)
  | deleteUser (id : String)

/-- The account a change names. -/
def Operation.target : Operation -> Option String
  | .bootstrapOwner _ => none
  | .createUser _ _ => none
  | .updateUser id _ _ => some id
  | .setRoles id _ => some id
  | .deleteUser id => some id

/-- What `#guardOwner` is given; an update that does not disable is not guarded. -/
def Operation.removesOwner (operation : Operation) (user : User) : Bool :=
  match operation with
  | .updateUser _ status _ => status == some false
  | .setRoles _ bindings => roleChangeRemovesOwner user.bindings bindings
  | .deleteUser _ => hasGlobalOwner user.bindings
  | _ => false

def ownerBinding : Binding where
  role := "owner"
  groupId := none
  workspace := none

def changeNamed (id : String) (change : User -> User) (users : List User) : List User :=
  users.map fun user => if uuidIn id = some user.id then change user else user

/-- The accounts after the statements of an operation; `newId` is the id of an inserted
account. -/
def Operation.apply (operation : Operation) (newId : Uuid) (users : List User) : List User :=
  match operation with
  | .bootstrapOwner norm =>
    users ++ [{ id := newId, norm := norm, active := true, bindings := [ownerBinding] }]
  | .createUser norm bindings =>
    users ++ [{ id := newId, norm := norm, active := true, bindings := bindings }]
  | .updateUser id status _ =>
    changeNamed id (fun user => { user with active := status.getD user.active }) users
  | .setRoles id bindings => changeNamed id (fun user => { user with bindings := bindings }) users
  | .deleteUser id => users.filter fun user => !decide (uuidIn id = some user.id)

inductive Point where
  | waiting
  | locked
  | ownersRead (owners : List String)
  /-- Nothing is left that can refuse it but the database. -/
  | decided
  | ended

structure Txn where
  operation : Operation
  point : Point

structure State where
  users : List User
  /-- The transaction that holds the advisory lock. -/
  lock : Option Nat
  txns : List Txn
  /-- Whether a bootstrap has committed. -/
  bootstrapped : Bool

/-- What a caller hands to the store; role bindings are normalised first. -/
inductive Request where
  | bootstrapOwner (norm : String)
  | createUser (norm : String) (roles : Value)
  | updateUser (id : String) (status : Option Bool) (password : Bool)
  | setRoles (id : String) (roles : Value)
  | deleteUser (id : String)

def Request.operation : Request -> Option Operation
  | .bootstrapOwner norm => some (.bootstrapOwner norm)
  | .createUser norm roles => (normalizeRoleBindings roles).map (.createUser norm)
  | .updateUser id status password => some (.updateUser id status password)
  | .setRoles id roles => (normalizeRoleBindings roles).map (.setRoles id)
  | .deleteUser id => some (.deleteUser id)

/-- A transaction begins, gets the lock, reads the active owners, decides, commits, or is
rolled back by an error. -/
inductive Label where
  | begin (request : Request)
  | acquire (txn : Nat)
  | readOwners (txn : Nat)
  | decide (txn : Nat)
  | commit (txn : Nat) (newId : Uuid)
  | fail (txn : Nat)

def State.setPoint (state : State) (txn : Nat) (made : Txn) (point : Point) : State :=
  { state with txns := state.txns.set txn { made with point := point } }

def State.rollback (state : State) (txn : Nat) (made : Txn) : State :=
  { state.setPoint txn made .ended with
    lock := if state.lock = some txn then none else state.lock }

/-- `already_bootstrapped`, `bootstrap_required` and `username_taken` -/
def insertRefused (operation : Operation) (users : List User) : Bool :=
  match operation with
  | .bootstrapOwner _ => !users.isEmpty
  | .createUser norm _ => users.isEmpty || users.any fun user => user.norm == norm
  | _ => false

def findNamed (id : String) (users : List User) : Option User :=
  users.find? fun user => uuidIn id = some user.id

def allows (operation : Operation) (id : String) (owners : List String) (users : List User) :
    Bool :=
  match findNamed id users with
  | none => false
  | some user => ownerChangeDecision owners id (operation.removesOwner user)

def step (state : State) : Label -> Option State
  | .begin request =>
    request.operation.map fun operation =>
      { state with txns := state.txns ++ [{ operation := operation, point := .waiting }] }
  | .acquire txn =>
    match state.txns[txn]?, state.lock with
    | some { operation, point := .waiting }, none =>
      some { state.setPoint txn { operation := operation, point := .waiting } .locked with
        lock := some txn }
    | _, _ => none
  | .readOwners txn =>
    match state.txns[txn]? with
    | some { operation, point := .locked } =>
      match operation.target with
      | none => none
      | some _ =>
        some (state.setPoint txn { operation := operation, point := .locked }
          (.ownersRead ((activeOwners state.users).map uuidText)))
    | _ => none
  | .decide txn =>
    match state.txns[txn]? with
    | some { operation, point := .locked } =>
      match operation.target with
      | some _ => none
      | none =>
        let made : Txn := { operation := operation, point := .locked }
        if insertRefused operation state.users then some (state.rollback txn made)
        else some (state.setPoint txn made .decided)
    | some { operation, point := .ownersRead owners } =>
      match operation.target with
      | none => none
      | some id =>
        let made : Txn := { operation := operation, point := .ownersRead owners }
        if allows operation id owners state.users then some (state.setPoint txn made .decided)
        else some (state.rollback txn made)
    | _ => none
  | .commit txn newId =>
    match state.txns[txn]? with
    | some { operation, point := .decided } =>
      if newId ∈ state.users.map User.id then none
      else
        some { state.rollback txn { operation := operation, point := .decided } with
          users := operation.apply newId state.users
          bootstrapped := state.bootstrapped ||
            match operation with
            | .bootstrapOwner _ => true
            | _ => false }
    | _ => none
  | .fail txn => (state.txns[txn]?).map fun made => state.rollback txn made

structure Started (state : State) : Prop where
  ids : (state.users.map User.id).Nodup
  lock : state.lock = none
  txns : state.txns = []
  bootstrapped : state.bootstrapped = false

def accounts : System State Label where
  start := Started
  step before label after := step before label = some after

def Owned (users : List User) : Prop := ∃ user ∈ users, user.activeOwner = true

/-- A change that takes the ownership of the only active owner is decided only when it names
that account as the database writes it. -/
def NamedPlainly (state : State) (operation : Operation) : Prop :=
  ∀ id, operation.target = some id -> ∀ user, findNamed id state.users = some user ->
    operation.removesOwner user = true -> user.id ∈ activeOwners state.users ->
      (∀ owner ∈ activeOwners state.users, owner = user.id) -> id = uuidText user.id

/-- The decisions after which an owner remains. -/
def Guarded (state : State) : Label -> Prop
  | .decide txn => ∀ made, state.txns[txn]? = some made -> NamedPlainly state made.operation
  | _ => True

instance (state : State) (label : Label) : Decidable (Guarded state label) := by
  cases label <;> simp only [Guarded, NamedPlainly] <;> infer_instance

end AnchorMind.Admin.AdminAccounts
