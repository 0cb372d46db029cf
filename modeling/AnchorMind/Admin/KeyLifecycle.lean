import AnchorMind.Kernel.KeyedTable

/-!
# API keys, their secrets, and the verdict on a raw key

A key row names its current hash.  The secrets table holds the hashes a key has or had, each
with a status and an optional end time; an older key has no row there until its first
rotation.  Rotation and revocation lock the key row and change both tables in one transaction.
A raw key is looked up by its hash, among the secrets and then among the current hashes, and
the row found is judged.  Times are milliseconds.
-/

namespace AnchorMind.Admin.KeyLifecycle

open Kernel.KeyedTable

inductive KeyStatus where
  | active
  | inactive
deriving DecidableEq

inductive SecretStatus where
  | active
  | revoked
deriving DecidableEq

structure ApiKey where
  id : String
  name : String
  keyHash : String
  keyPrefix : String
  createdAt : Int
  status : KeyStatus
  dailyLimit : Nat
  expiresAt : Option Int
  revokedAt : Option Int
  revokedBy : Option String
  revokeReason : Option String
deriving DecidableEq

structure Secret where
  keyHash : String
  keyId : String
  keyPrefix : String
  createdAt : Int
  validUntil : Option Int
  status : SecretStatus
deriving DecidableEq

abbrev KeyTable := Table ApiKey.id (fun _ => True)

abbrev SecretTable := Table Secret.keyHash (fun _ => True)

/-- The two tables with the unique index on `api_keys.key_hash` and the foreign key
of the secrets. -/
structure KeyStore where
  keys : KeyTable
  secrets : SecretTable
  hashUnique : ∀ left right, left ∈ keys -> right ∈ keys ->
    left.keyHash = right.keyHash -> left = right
  secretOwner : ∀ secret ∈ secrets, ∃ key ∈ keys, key.id = secret.keyId

inductive Source where
  | secret
  | legacy
deriving DecidableEq

inductive Reason where
  | revoked
  | inactive
  | expired
  | rotated
  | limitExceeded
deriving DecidableEq

abbrev Verdict := Option Reason

structure CredentialRow where
  key : ApiKey
  secretSource : Source
  secretStatus : Option SecretStatus
  secretValidUntil : Option Int
  usageToday : Nat

/-- Whether a time has come; the moment itself counts. -/
def reached (at? : Option Int) (now : Int) : Bool :=
  match at? with
  | none => false
  | some moment => decide (moment ≤ now)

def evaluateKeyState (key : ApiKey) (now : Int) : Verdict :=
  if key.revokedAt.isSome then some .revoked
  else if key.status ≠ .active then some .inactive
  else if reached key.expiresAt now then some .expired
  else none

def evaluateSecret (row : CredentialRow) (now : Int) : Verdict :=
  if row.secretSource ≠ .secret then none
  else if row.secretStatus ≠ some .active then some .revoked
  else if reached row.secretValidUntil now then some .rotated
  else none

def evaluateKeyCredential (row : CredentialRow) (now : Int) : Verdict :=
  match evaluateKeyState row.key now with
  | some reason => some reason
  | none =>
    match evaluateSecret row now with
    | some reason => some reason
    | none => if row.key.dailyLimit ≤ row.usageToday then some .limitExceeded else none

variable {row : CredentialRow}

theorem evaluate_of_revoked (now : Int) (hrevoked : row.key.revokedAt.isSome = true) :
    evaluateKeyCredential row now = some .revoked := by
  simp [evaluateKeyCredential, evaluateKeyState, hrevoked]

theorem evaluate_of_retired {now : Int} (hsource : row.secretSource = .secret)
    (hretired : row.secretStatus ≠ some .active \/ reached row.secretValidUntil now = true) :
    evaluateKeyCredential row now ≠ none := by
  have hsecret : evaluateSecret row now ≠ none := by
    unfold evaluateSecret
    rw [if_neg (not_not_intro hsource)]
    rcases hretired with hstatus | htime
    · rw [if_pos hstatus]
      nofun
    · rw [htime]
      split <;> nofun
  unfold evaluateKeyCredential
  cases evaluateKeyState row.key now with
  | some reason => nofun
  | none =>
    cases hverdict : evaluateSecret row now with
    | some reason => nofun
    | none => exact absurd hverdict hsecret

namespace KeyStore

def findKey (store : KeyStore) (keyId : String) : Option ApiKey :=
  store.keys.rows.find? fun key => key.id = keyId

def findSecret (store : KeyStore) (keyHash : String) : Option Secret :=
  store.secrets.rows.find? fun secret => secret.keyHash = keyHash

/-- `LOOKUP_BY_HASH_SQL`: the secret with the hash, or the key whose current hash it
is where no secret has it. -/
def lookupByHash (store : KeyStore) (usage : String -> Nat) (keyHash : String) :
    Option CredentialRow :=
  match store.findSecret keyHash with
  | some secret =>
    (store.findKey secret.keyId).map fun key =>
      { key := key
        secretSource := .secret
        secretStatus := some secret.status
        secretValidUntil := secret.validUntil
        usageToday := usage key.id }
  | none =>
    (store.keys.rows.find? fun key => key.keyHash = keyHash).map fun key =>
      { key := key
        secretSource := .legacy
        secretStatus := none
        secretValidUntil := none
        usageToday := usage key.id }

end KeyStore

/-- What `newKeyMaterial` draws. -/
structure KeyMaterial where
  rawKey : String
  hash : String
  keyPrefix : String

inductive KeyError where
  | notFound
  | conflict (code message : String)
  | uniqueViolation (table : String)
deriving DecidableEq

def hourMs : Int := 3600000

def rotationValidUntil (now graceHours : Int) : Int := now + graceHours * hourMs

namespace ApiKey

/-- The `SET` clause of a rotation. -/
def withHash (material : KeyMaterial) (key : ApiKey) : ApiKey :=
  { key with keyHash := material.hash, keyPrefix := material.keyPrefix }

/-- The `SET` clause of a revocation. -/
def revoke (reason actor : String) (dbNow : Int) (key : ApiKey) : ApiKey :=
  { key with
    revokedAt := some dbNow
    revokedBy := some actor
    revokeReason := some reason
    status := .inactive }

def withStatus (status : KeyStatus) (key : ApiKey) : ApiKey := { key with status := status }

@[simp]
theorem withHash_id (material : KeyMaterial) (key : ApiKey) :
    (key.withHash material).id = key.id := rfl

@[simp]
theorem revoke_id (reason actor : String) (dbNow : Int) (key : ApiKey) :
    (key.revoke reason actor dbNow).id = key.id := rfl

@[simp]
theorem revoke_keyHash (reason actor : String) (dbNow : Int) (key : ApiKey) :
    (key.revoke reason actor dbNow).keyHash = key.keyHash := rfl

@[simp]
theorem withStatus_id (status : KeyStatus) (key : ApiKey) :
    (key.withStatus status).id = key.id := rfl

@[simp]
theorem withStatus_keyHash (status : KeyStatus) (key : ApiKey) :
    (key.withStatus status).keyHash = key.keyHash := rfl

end ApiKey

namespace KeyStore

def insertSecret (store : KeyStore) (secret : Secret)
    (hfresh : ∀ old ∈ store.secrets, old.keyHash ≠ secret.keyHash)
    (howner : ∃ key ∈ store.keys, key.id = secret.keyId) : KeyStore where
  keys := store.keys
  secrets := store.secrets.insert secret hfresh trivial
  hashUnique := store.hashUnique
  secretOwner := by
    intro row hrow
    rcases Table.mem_insert.mp hrow with hold | rfl
    · exact store.secretOwner row hold
    · exact howner

def updateSecrets (store : KeyStore) (update : Table.Update Secret.keyHash fun _ => True)
    (hkeyId : ∀ secret, (update.image secret).keyId = secret.keyId) : KeyStore where
  keys := store.keys
  secrets := store.secrets.apply update
  hashUnique := store.hashUnique
  secretOwner := by
    intro row hrow
    obtain ⟨source, hsource, ⟨_, rfl⟩ | ⟨_, rfl⟩⟩ := Table.mem_apply.mp hrow
    · rw [hkeyId]
      exact store.secretOwner source hsource
    · exact store.secretOwner row hsource

def secretOf (key : ApiKey) : Secret where
  keyHash := key.keyHash
  keyId := key.id
  keyPrefix := key.keyPrefix
  createdAt := key.createdAt
  validUntil := none
  status := .active

/-- Move the current hash to the secrets: `ON CONFLICT (key_hash) DO NOTHING`. -/
def migrate (store : KeyStore) (key : ApiKey) (hkey : key ∈ store.keys) : KeyStore where
  keys := store.keys
  secrets :=
    if hfresh : ∀ old ∈ store.secrets, old.keyHash ≠ (secretOf key).keyHash then
      store.secrets.insert (secretOf key) hfresh trivial
    else store.secrets
  hashUnique := store.hashUnique
  secretOwner := by
    intro row hrow
    split at hrow
    · rcases Table.mem_insert.mp hrow with hold | rfl
      · exact store.secretOwner row hold
      · exact ⟨key, hkey, rfl⟩
    · exact store.secretOwner row hrow

/-- `CASE WHEN valid_until IS NULL OR valid_until > limit THEN limit ELSE valid_until END`. -/
def capTime (validUntil : Option Int) (limit : Int) : Int :=
  match validUntil with
  | none => limit
  | some current => if limit < current then limit else current

def capSecrets (keyId : String) (limit : Int) : Table.Update Secret.keyHash fun _ => True where
  select := fun secret => secret.keyId = keyId && secret.status = .active
  image := fun secret => { secret with validUntil := some (capTime secret.validUntil limit) }
  keepsKey := fun _ => rfl
  keepsCheck := fun _ _ _ => trivial

def revokeSecrets (keyId : String) : Table.Update Secret.keyHash fun _ => True where
  select := fun secret => secret.keyId = keyId && secret.status ≠ .revoked
  image := fun secret => { secret with status := .revoked }
  keepsKey := fun _ => rfl
  keepsCheck := fun _ _ _ => trivial

def keyUpdate (keyId : String) (image : ApiKey -> ApiKey)
    (hid : ∀ key, (image key).id = key.id) : Table.Update ApiKey.id fun _ => True where
  select := fun key => key.id = keyId
  image := image
  keepsKey := hid
  keepsCheck := fun _ _ _ => trivial

def updateKey (store : KeyStore) (keyId : String) (image : ApiKey -> ApiKey)
    (hid : ∀ key, (image key).id = key.id)
    (hhash : (∀ key, (image key).keyHash = key.keyHash) \/
      ∀ key old, old ∈ store.keys -> old.keyHash ≠ (image key).keyHash) : KeyStore where
  keys := store.keys.apply (keyUpdate keyId image hid)
  secrets := store.secrets
  hashUnique := by
    intro left right hleft hright hsame
    obtain ⟨source, hsource, hsourceRow⟩ := Table.mem_apply.mp hleft
    obtain ⟨other, hother, hotherRow⟩ := Table.mem_apply.mp hright
    have hmoved : ∀ old new : ApiKey, old ∈ store.keys -> new ∈ store.keys ->
        old.keyHash = (image new).keyHash -> old = new := by
      intro old new hold hnew hequal
      rcases hhash with hkept | hfresh
      · exact store.hashUnique old new hold hnew (hequal.trans (hkept new))
      · exact absurd hequal (hfresh new old hold)
    have hnamed : ∀ key, (keyUpdate keyId image hid).select key = true -> key.id = keyId :=
      fun key hselect => of_decide_eq_true hselect
    rcases hsourceRow with ⟨hselect, rfl⟩ | ⟨hselect, rfl⟩
    · rcases hotherRow with ⟨hselect', rfl⟩ | ⟨_, rfl⟩
      · rw [Table.eq_of_key_eq hsource hother
          ((hnamed source hselect).trans (hnamed other hselect').symm)]
      · rename_i hkept
        have hequal := hmoved right source hother hsource hsame.symm
        rw [hequal, hselect] at hkept
        cases hkept
    · rcases hotherRow with ⟨hselect', rfl⟩ | ⟨_, rfl⟩
      · have hequal := hmoved left other hsource hother hsame
        rw [hequal, hselect'] at hselect
        cases hselect
      · exact store.hashUnique left right hsource hother hsame
  secretOwner := by
    intro secret hsecret
    obtain ⟨key, hkey, howner⟩ := store.secretOwner secret hsecret
    cases hselect : (keyUpdate keyId image hid).select key with
    | true => exact ⟨_, Table.mem_apply_of_selected hkey hselect, (hid key).trans howner⟩
    | false => exact ⟨key, Table.mem_apply_of_unselected hkey hselect, howner⟩

structure Rotation where
  id : String
  name : String
  keyPrefix : String
  rawKey : String
  previousValidUntil : Int
  retiredSecrets : Nat

/-- `rotateApiKey` with the key row locked; `dbNow` is the default of `created_at`. -/
def rotateApiKey (store : KeyStore) (keyId : String) (graceHours now : Int)
    (material : KeyMaterial) (dbNow : Int) : Except KeyError (KeyStore × Rotation) :=
  match hfound : store.findKey keyId with
  | none => .error .notFound
  | some key =>
    if key.revokedAt.isSome then .error (.conflict "key_revoked" "Key is revoked")
    else
      have hkey : key ∈ store.keys := List.mem_of_find?_eq_some hfound
      let validUntil := rotationValidUntil now graceHours
      let migrated := store.migrate key hkey
      let retire := capSecrets key.id validUntil
      let capped := migrated.updateSecrets retire fun _ => rfl
      let fresh : Secret :=
        { keyHash := material.hash
          keyId := key.id
          keyPrefix := material.keyPrefix
          createdAt := dbNow
          validUntil := none
          status := .active }
      if hsecret : ∀ old ∈ capped.secrets.rows, old.keyHash ≠ fresh.keyHash then
        let added := capped.insertSecret fresh hsecret ⟨key, hkey, rfl⟩
        if hhash : ∀ old ∈ store.keys.rows, old.keyHash ≠ material.hash then
          .ok
            (added.updateKey key.id (ApiKey.withHash material) (ApiKey.withHash_id material)
              (.inr fun _ old hold => hhash old hold),
            { id := key.id
              name := key.name
              keyPrefix := material.keyPrefix
              rawKey := material.rawKey
              previousValidUntil := validUntil
              retiredSecrets := (migrated.secrets.affected retire).length })
        else .error (.uniqueViolation "api_keys")
      else .error (.uniqueViolation "api_key_secrets")

structure Revocation where
  id : String
  name : String
  revokedAt : Int
  revokedBy : String
  revokeReason : String
  revokedSecrets : Nat

/-- `revokeApiKey` with the key row locked. -/
def revokeApiKey (store : KeyStore) (keyId reason actor : String) (dbNow : Int) :
    Except KeyError (KeyStore × Revocation) :=
  match store.findKey keyId with
  | none => .error .notFound
  | some key =>
    if key.revokedAt.isSome then .error (.conflict "already_revoked" "Key is already revoked")
    else
      let marked := store.updateKey key.id (ApiKey.revoke reason actor dbNow)
        (ApiKey.revoke_id reason actor dbNow)
        (.inl (ApiKey.revoke_keyHash reason actor dbNow))
      let close := revokeSecrets key.id
      .ok (marked.updateSecrets close fun _ => rfl,
        { id := key.id
          name := key.name
          revokedAt := dbNow
          revokedBy := actor
          revokeReason := reason
          revokedSecrets := (store.secrets.affected close).length })

/-- `updateApiKeyStatus`, whose statement passes over a revoked key it would
activate. -/
def updateApiKeyStatus (store : KeyStore) (keyId : String) (status : KeyStatus) :
    Except KeyError KeyStore :=
  match store.findKey keyId with
  | none => .error .notFound
  | some key =>
    if key.revokedAt.isSome && status = .active then
      .error (.conflict "key_revoked" "Key is revoked")
    else
      .ok (store.updateKey key.id (ApiKey.withStatus status) (ApiKey.withStatus_id status)
        (.inl (ApiKey.withStatus_keyHash status)))

def newKey (id name : String) (dailyLimit : Nat) (expiresAt : Option Int) (material : KeyMaterial)
    (dbNow : Int) : ApiKey where
  id := id
  name := name
  keyHash := material.hash
  keyPrefix := material.keyPrefix
  createdAt := dbNow
  status := .active
  dailyLimit := dailyLimit
  expiresAt := expiresAt
  revokedAt := none
  revokedBy := none
  revokeReason := none

/-- `createApiKey`: the key row and its secret row in one statement. -/
def createApiKey (store : KeyStore) (id name : String) (dailyLimit : Nat) (expiresAt : Option Int)
    (material : KeyMaterial) (dbNow : Int) : Except KeyError KeyStore :=
  let key := newKey id name dailyLimit expiresAt material dbNow
  if hid : ∀ old ∈ store.keys.rows, old.id ≠ key.id then
    if hhash : ∀ old ∈ store.keys.rows, old.keyHash ≠ key.keyHash then
      if hsecret : ∀ old ∈ store.secrets.rows, old.keyHash ≠ (secretOf key).keyHash then
        .ok
          { keys := store.keys.insert key hid trivial
            secrets := store.secrets.insert (secretOf key) hsecret trivial
            hashUnique := by
              intro left right hleft hright hsame
              rcases Table.mem_insert.mp hleft with hold | rfl
              · rcases Table.mem_insert.mp hright with hold' | rfl
                · exact store.hashUnique left right hold hold' hsame
                · exact absurd hsame (hhash left hold)
              · rcases Table.mem_insert.mp hright with hold' | rfl
                · exact absurd hsame.symm (hhash right hold')
                · rfl
            secretOwner := by
              intro row hrow
              rcases Table.mem_insert.mp hrow with hold | rfl
              · obtain ⟨owner, howner, hkeyId⟩ := store.secretOwner row hold
                exact ⟨owner, Table.mem_insert.mpr (.inl howner), hkeyId⟩
              · exact ⟨key, Table.mem_insert.mpr (.inr rfl), rfl⟩ }
      else .error (.uniqueViolation "api_key_secrets")
    else .error (.uniqueViolation "api_keys")
  else .error (.uniqueViolation "api_keys")

end KeyStore

end AnchorMind.Admin.KeyLifecycle
