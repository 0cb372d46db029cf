import AnchorMind.Admin.KeyLifecycle
import AnchorMind.Kernel.Transition

/-!
# Rotations and revocation of API keys

The store starts with keys from before the secrets table; keys are created,
rotated, revoked, and switched on and off in any order and with any times.  Beside
the store a run notes, for each hash a rotation replaced, the end of that
rotation's grace.
-/

namespace AnchorMind.Admin.KeyRotations

open List Function

open Kernel.KeyedTable Kernel.Transition Admin.KeyLifecycle Admin.KeyLifecycle.KeyStore

variable {store after : KeyStore} {key : ApiKey} {secret : Secret}

theorem findKey_eq_some (hkey : key ∈ store.keys) : store.findKey key.id = some key := by
  cases hfound : store.findKey key.id with
  | none =>
    have hnone := find?_eq_none.mp hfound key hkey
    exact absurd (decide_eq_true rfl) hnone
  | some found =>
    have hid : found.id = key.id := by simpa using find?_some hfound
    exact congrArg some (Table.eq_of_key_eq (mem_of_find?_eq_some hfound) hkey hid)

variable {keyId : String}

theorem of_findKey (hfound : store.findKey keyId = some key) : key ∈ store.keys /\ key.id = keyId :=
  ⟨mem_of_find?_eq_some hfound, by simpa using find?_some hfound⟩

variable {keyHash : String}

theorem of_findSecret (hfound : store.findSecret keyHash = some secret) :
    secret ∈ store.secrets /\ secret.keyHash = keyHash :=
  ⟨mem_of_find?_eq_some hfound, by simpa using find?_some hfound⟩

theorem findSecret_eq_none (hfound : store.findSecret keyHash = none)
    (hsecret : secret ∈ store.secrets) : secret.keyHash ≠ keyHash := fun hsame =>
  find?_eq_none.mp hfound secret hsecret (decide_eq_true hsame)

variable {usage : String -> Nat} {row : CredentialRow}

theorem lookupByHash_cases (hrow : store.lookupByHash usage keyHash = some row) :
    row.key ∈ store.keys /\
      ((∃ secret, store.findSecret keyHash = some secret /\ row.key.id = secret.keyId /\
          row.secretSource = .secret /\ row.secretStatus = some secret.status /\
          row.secretValidUntil = secret.validUntil) \/
        (store.findSecret keyHash = none /\ row.key.keyHash = keyHash /\
          row.secretSource = .legacy)) := by
  unfold lookupByHash at hrow
  split at hrow
  · rename_i secret hsecret
    obtain ⟨key, hkey, rfl⟩ := Option.map_eq_some_iff.mp hrow
    obtain ⟨hmem, hid⟩ := of_findKey hkey
    exact ⟨hmem, Or.inl ⟨secret, hsecret, hid, rfl, rfl, rfl⟩⟩
  · rename_i hnone
    obtain ⟨key, hkey, rfl⟩ := Option.map_eq_some_iff.mp hrow
    have hhash : key.keyHash = keyHash := by simpa using find?_some hkey
    exact ⟨mem_of_find?_eq_some hkey, Or.inr ⟨hnone, hhash, rfl⟩⟩

def ended (keyId : String) (limit : Int) (secret : Secret) : Secret :=
  if secret.keyId = keyId /\ secret.status = .active then
    { secret with validUntil := some (capTime secret.validUntil limit) }
  else secret

def closed (keyId : String) (secret : Secret) : Secret :=
  if secret.keyId = keyId then { secret with status := .revoked } else secret

variable {limit : Int}

@[simp]
theorem ended_keyHash : (ended keyId limit secret).keyHash = secret.keyHash := by
  unfold ended
  split <;> rfl

@[simp]
theorem ended_keyId : (ended keyId limit secret).keyId = secret.keyId := by
  unfold ended
  split <;> rfl

@[simp]
theorem ended_status : (ended keyId limit secret).status = secret.status := by
  unfold ended
  split <;> rfl

@[simp]
theorem closed_keyHash : (closed keyId secret).keyHash = secret.keyHash := by
  unfold closed
  split <;> rfl

@[simp]
theorem closed_keyId : (closed keyId secret).keyId = secret.keyId := by
  unfold closed
  split <;> rfl

@[simp]
theorem closed_validUntil : (closed keyId secret).validUntil = secret.validUntil := by
  unfold closed
  split <;> rfl

theorem capTime_le (validUntil : Option Int) (limit : Int) : capTime validUntil limit ≤ limit := by
  unfold capTime
  split
  · exact Int.le_refl _
  · split <;> omega

theorem capTime_le_self (current limit : Int) : capTime (some current) limit ≤ current := by
  unfold capTime
  simp only
  split <;> omega

variable {table : SecretTable}

theorem mem_capped :
    secret ∈ table.apply (capSecrets keyId limit) <->
      ∃ old ∈ table, secret = ended keyId limit old := by
  rw [Table.mem_apply]
  refine exists_congr fun old => and_congr_right fun _ => ?_
  unfold ended
  by_cases hselect : old.keyId = keyId /\ old.status = .active
  · simp [capSecrets, hselect]
  · have hunselected : (capSecrets keyId limit).select old = false := by
      simpa [capSecrets] using hselect
    rw [if_neg hselect, hunselected]
    simp

theorem mem_closed :
    secret ∈ table.apply (revokeSecrets keyId) <->
      ∃ old ∈ table, secret = closed keyId old := by
  rw [Table.mem_apply]
  refine exists_congr fun old => and_congr_right fun _ => ?_
  unfold closed
  by_cases hkey : old.keyId = keyId
  · by_cases hrevoked : old.status = .revoked
    · have hsame : { old with status := .revoked } = old := by rw [← hrevoked]
      rw [if_pos hkey, hsame]
      simp [revokeSecrets, hkey, hrevoked]
    · simp [revokeSecrets, hkey, hrevoked]
  · simp [revokeSecrets, hkey]

theorem mem_updateKey {image : ApiKey -> ApiKey} {hid : ∀ key, (image key).id = key.id}
    {hhash : (∀ key, (image key).keyHash = key.keyHash) \/
      ∀ key old, old ∈ store.keys -> old.keyHash ≠ (image key).keyHash} {row : ApiKey} :
    row ∈ (store.updateKey keyId image hid hhash).keys <->
      ∃ old ∈ store.keys,
        ((old.id = keyId /\ row = image old) \/ (old.id ≠ keyId /\ row = old)) := by
  change row ∈ store.keys.apply (keyUpdate keyId image hid) <-> _
  rw [Table.mem_apply]
  simp [keyUpdate]

structure Rotated (store after : KeyStore) (key : ApiKey) (material : KeyMaterial)
    (limit dbNow : Int) : Prop where
  mem : key ∈ store.keys
  live : key.revokedAt = none
  freshKeys : ∀ old ∈ store.keys, old.keyHash ≠ material.hash
  freshSecrets : ∀ old ∈ store.secrets, old.keyHash ≠ material.hash
  keys : ∀ row ∈ after.keys,
    (row ∈ store.keys /\ row.id ≠ key.id) \/
      row = key.withHash material
  secrets : ∀ secret ∈ after.secrets,
    secret = Secret.mk material.hash key.id material.keyPrefix dbNow none .active \/
      ∃ old, (old ∈ store.secrets \/ old = secretOf key) /\ secret = ended key.id limit old
  kept : ∀ old ∈ store.secrets, ended key.id limit old ∈ after.secrets
  moved : (∀ old ∈ store.secrets, old.keyHash ≠ key.keyHash) ->
    ended key.id limit (secretOf key) ∈ after.secrets
  others : ∀ row ∈ store.keys, row.id ≠ key.id -> row ∈ after.keys

theorem mem_migrate {hkey : key ∈ store.keys} :
    secret ∈ (store.migrate key hkey).secrets <->
      secret ∈ store.secrets \/
        (secret = secretOf key /\ ∀ old ∈ store.secrets, old.keyHash ≠ key.keyHash) := by
  unfold migrate
  by_cases hfresh : ∀ old ∈ store.secrets, old.keyHash ≠ (secretOf key).keyHash
  · simp only [dif_pos hfresh]
    rw [Table.mem_insert]
    exact or_congr_right (iff_self_and.mpr fun _ => hfresh)
  · simp only [dif_neg hfresh]
    refine ⟨Or.inl, ?_⟩
    rintro (hold | ⟨_, hnone⟩)
    · exact hold
    · exact absurd hnone hfresh

variable {dbNow : Int} {material : KeyMaterial}

theorem rotateApiKey_ok {graceHours now : Int} {rotation : Rotation}
    (hrotate : store.rotateApiKey keyId graceHours now material dbNow = .ok (after, rotation)) :
    ∃ key, store.findKey keyId = some key /\
      Rotated store after key material (rotationValidUntil now graceHours) dbNow /\
      rotation.previousValidUntil = rotationValidUntil now graceHours := by
  unfold rotateApiKey at hrotate
  split at hrotate
  · cases hrotate
  · rename_i key hfound
    split at hrotate
    · cases hrotate
    · rename_i hlive
      simp only at hrotate
      split at hrotate
      · rename_i hsecret
        split at hrotate
        · rename_i hhash
          cases hrotate
          have hkey := (of_findKey hfound).1
          refine ⟨key, hfound, ⟨hkey, by simpa using hlive, hhash, ?_, ?_, ?_, ?_, ?_, ?_⟩, rfl⟩
          · intro old hold
            have hcapped := hsecret (ended key.id (rotationValidUntil now graceHours) old)
              (mem_capped.mpr ⟨old, mem_migrate.mpr (.inl hold), rfl⟩)
            rwa [ended_keyHash] at hcapped
          · intro row hrow
            obtain ⟨old, hold, ⟨hid, rfl⟩ | ⟨hid, rfl⟩⟩ := mem_updateKey.mp hrow
            · rw [Table.eq_of_key_eq hold hkey hid]
              exact .inr rfl
            · exact Or.inl ⟨hold, hid⟩
          · intro secret hmem
            change secret ∈ Table.insert _ _ hsecret trivial at hmem
            rw [Table.mem_insert] at hmem
            rcases hmem with hcapped | hnew
            · obtain ⟨old, hold, hended⟩ := mem_capped.mp hcapped
              exact Or.inr ⟨old, (mem_migrate.mp hold).imp (fun h => h) And.left, hended⟩
            · exact .inl hnew
          · intro old hold
            change _ ∈ Table.insert _ _ hsecret trivial
            rw [Table.mem_insert]
            exact .inl (mem_capped.mpr ⟨old, mem_migrate.mpr (.inl hold), rfl⟩)
          · intro hnone
            change _ ∈ Table.insert _ _ hsecret trivial
            rw [Table.mem_insert]
            exact .inl (mem_capped.mpr ⟨_, mem_migrate.mpr (Or.inr ⟨rfl, hnone⟩), rfl⟩)
          · intro row hrow hid
            exact mem_updateKey.mpr ⟨row, hrow, Or.inr ⟨hid, rfl⟩⟩
        · cases hrotate
      · cases hrotate

def marked (keyId reason actor : String) (dbNow : Int) (row : ApiKey) : ApiKey :=
  if row.id = keyId then row.revoke reason actor dbNow else row

variable {reason actor : String}

theorem revokeApiKey_ok {revocation : Revocation}
    (hrevoke : store.revokeApiKey keyId reason actor dbNow = .ok (after, revocation)) :
    (∀ row, row ∈ after.keys <->
      ∃ old ∈ store.keys, row = marked keyId reason actor dbNow old) /\
    ∀ secret, secret ∈ after.secrets <->
      ∃ old ∈ store.secrets, secret = closed keyId old := by
  unfold revokeApiKey at hrevoke
  split at hrevoke
  · cases hrevoke
  · rename_i key hfound
    split at hrevoke
    · cases hrevoke
    · cases hrevoke
      rw [(of_findKey hfound).2]
      refine ⟨fun row => ?_, fun secret => mem_closed⟩
      change row ∈ (store.updateKey keyId (ApiKey.revoke reason actor dbNow)
        (ApiKey.revoke_id reason actor dbNow)
        (.inl (ApiKey.revoke_keyHash reason actor dbNow))).keys <-> _
      rw [mem_updateKey]
      refine exists_congr fun old => and_congr_right fun _ => ?_
      unfold marked
      by_cases hid : old.id = keyId <;> simp [hid]

def switched (keyId : String) (status : KeyStatus) (row : ApiKey) : ApiKey :=
  if row.id = keyId then row.withStatus status else row

variable {status : KeyStatus}

theorem updateApiKeyStatus_ok (hupdate : store.updateApiKeyStatus keyId status = .ok after) :
    (∀ row, row ∈ after.keys <->
      ∃ old ∈ store.keys, row = switched keyId status old) /\
    after.secrets = store.secrets := by
  unfold updateApiKeyStatus at hupdate
  split at hupdate
  · cases hupdate
  · rename_i key hfound
    split at hupdate
    · cases hupdate
    · cases hupdate
      rw [(of_findKey hfound).2]
      refine ⟨fun row => ?_, rfl⟩
      rw [mem_updateKey]
      refine exists_congr fun old => and_congr_right fun _ => ?_
      unfold switched
      by_cases hid : old.id = keyId <;> simp [hid]

theorem createApiKey_ok {id name : String} {dailyLimit : Nat} {expiresAt : Option Int}
    (hcreate : store.createApiKey id name dailyLimit expiresAt material dbNow = .ok after) :
    ∃ key, key.revokedAt = none /\
      (∀ old ∈ store.keys, old.id ≠ key.id /\ old.keyHash ≠ key.keyHash) /\
      (∀ old ∈ store.secrets, old.keyHash ≠ key.keyHash) /\
      (∀ row, row ∈ after.keys <-> row ∈ store.keys \/ row = key) /\
      ∀ secret, secret ∈ after.secrets <-> secret ∈ store.secrets \/ secret = secretOf key := by
  unfold createApiKey at hcreate
  simp only at hcreate
  split at hcreate
  · rename_i hid
    split at hcreate
    · rename_i hhash
      split at hcreate
      · rename_i hsecret
        cases hcreate
        refine ⟨newKey id name dailyLimit expiresAt material dbNow, rfl,
          fun old hold => ⟨hid old hold, hhash old hold⟩, hsecret, ?_, ?_⟩
        · intro row
          change row ∈ store.keys.insert _ hid trivial <-> _
          rw [Table.mem_insert]
        · intro secret
          change secret ∈ store.secrets.insert _ hsecret trivial <-> _
          rw [Table.mem_insert]
      · cases hcreate
    · cases hcreate
  · cases hcreate

structure State where
  store : KeyStore
  /-- For each hash a rotation replaced, the end of that rotation's grace. -/
  replaced : String -> Option Int

inductive Label where
  | create (id name : String) (dailyLimit : Nat) (expiresAt : Option Int) (material : KeyMaterial)
      (dbNow : Int)
  | rotate (keyId : String) (graceHours now : Int) (material : KeyMaterial) (dbNow : Int)
  | revoke (keyId reason actor : String) (dbNow : Int)
  | updateStatus (keyId : String) (status : KeyStatus)

def noteReplaced (state : State) (keyId : String) (rotation : Rotation) : String -> Option Int :=
  match state.store.findKey keyId with
  | none => state.replaced
  | some key => update state.replaced key.keyHash (some rotation.previousValidUntil)

/-- One call; a refused one leaves everything as it is. -/
def keyStep (state : State) : Label -> State
  | .create id name dailyLimit expiresAt material dbNow =>
    match state.store.createApiKey id name dailyLimit expiresAt material dbNow with
    | .ok store => { state with store := store }
    | .error _ => state
  | .rotate keyId graceHours now material dbNow =>
    match state.store.rotateApiKey keyId graceHours now material dbNow with
    | .ok (store, rotation) => { store := store, replaced := noteReplaced state keyId rotation }
    | .error _ => state
  | .revoke keyId reason actor dbNow =>
    match state.store.revokeApiKey keyId reason actor dbNow with
    | .ok (store, _) => { state with store := store }
    | .error _ => state
  | .updateStatus keyId status =>
    match state.store.updateApiKeyStatus keyId status with
    | .ok store => { state with store := store }
    | .error _ => state

def Start (state : State) : Prop :=
  (∀ secret, secret ∉ state.store.secrets) /\
    (∀ key ∈ state.store.keys, key.revokedAt = none) /\
    ∀ keyHash, state.replaced keyHash = none

def keySystem : System State Label where
  start := Start
  step := fun before label after => keyStep before label = after

structure Sound (state : State) : Prop where
  owner : ∀ key secret, key ∈ state.store.keys -> secret ∈ state.store.secrets ->
    secret.keyHash = key.keyHash -> secret.keyId = key.id
  current : ∀ key secret, key ∈ state.store.keys -> key.revokedAt = none ->
    secret ∈ state.store.secrets -> secret.keyId = key.id ->
      (secret.status = .active /\ secret.validUntil = none <-> secret.keyHash = key.keyHash)
  retired : ∀ keyHash limit, state.replaced keyHash = some limit ->
    ∃ secret ∈ state.store.secrets, secret.keyHash = keyHash /\
      (secret.status = .revoked \/ ∃ ending, secret.validUntil = some ending /\ ending ≤ limit)

structure Onward (before after : KeyStore) : Prop where
  secrets : ∀ secret ∈ before.secrets, ∃ later ∈ after.secrets,
    later.keyHash = secret.keyHash /\ later.keyId = secret.keyId /\
      ∀ ending, secret.validUntil = some ending ->
        ∃ earlier, later.validUntil = some earlier /\ earlier ≤ ending
  revoked : ∀ key ∈ before.keys, key.revokedAt.isSome = true ->
    ∃ later ∈ after.keys, later.id = key.id /\ later.keyHash = key.keyHash /\
      later.revokedAt.isSome = true

theorem Onward.refl (store : KeyStore) : Onward store store := by
  constructor
  · intro secret hsecret
    exact ⟨secret, hsecret, rfl, rfl, fun ending hending => ⟨ending, hending, Int.le_refl _⟩⟩
  · intro key hkey hrevoked
    exact ⟨key, hkey, rfl, rfl, hrevoked⟩

theorem Onward.trans {first middle last : KeyStore} (hfirst : Onward first middle)
    (hlast : Onward middle last) : Onward first last := by
  constructor
  · intro secret hsecret
    obtain ⟨between, hbetween, hhash, hkeyId, hends⟩ := hfirst.secrets secret hsecret
    obtain ⟨later, hlater, hhash', hkeyId', hends'⟩ := hlast.secrets between hbetween
    refine ⟨later, hlater, hhash'.trans hhash, hkeyId'.trans hkeyId, fun ending hending => ?_⟩
    obtain ⟨earlier, hearlier, hle⟩ := hends ending hending
    obtain ⟨earliest, hearliest, hle'⟩ := hends' earlier hearlier
    exact ⟨earliest, hearliest, Int.le_trans hle' hle⟩
  · intro key hkey hrevoked
    obtain ⟨between, hbetween, hid, hhash, hstill⟩ := hfirst.revoked key hkey hrevoked
    obtain ⟨later, hlater, hid', hhash', hlast'⟩ := hlast.revoked between hbetween hstill
    exact ⟨later, hlater, hid'.trans hid, hhash'.trans hhash, hlast'⟩

theorem ended_of_ne (hne : secret.keyId ≠ keyId) : ended keyId limit secret = secret :=
  if_neg fun hsame => hne hsame.1

theorem ended_validUntil (hkey : secret.keyId = keyId) (hactive : secret.status = .active) :
    (ended keyId limit secret).validUntil = some (capTime secret.validUntil limit) := by
  rw [ended, if_pos ⟨hkey, hactive⟩]

theorem ended_le {ending : Int} (hending : secret.validUntil = some ending) :
    ∃ earlier, (ended keyId limit secret).validUntil = some earlier /\ earlier ≤ ending := by
  unfold ended
  split
  · rw [hending]
    exact ⟨_, rfl, capTime_le_self ending limit⟩
  · exact ⟨ending, hending, Int.le_refl _⟩

variable {state : State}

theorem Sound.rotate (hsound : Sound state)
    (hrotated : Rotated state.store after key material limit dbNow) :
    Sound { store := after
            replaced := update state.replaced key.keyHash (some limit) } := by
  have hown : ∀ old, old ∈ state.store.secrets \/ old = secretOf key ->
      old.keyHash = key.keyHash -> old.keyId = key.id := by
    rintro old (hold | rfl) hsame
    · exact hsound.owner key old hrotated.mem hold hsame
    · rfl
  have hfresh : ∀ old, old ∈ state.store.secrets \/ old = secretOf key ->
      old.keyHash ≠ material.hash := by
    rintro old (hold | rfl)
    · exact hrotated.freshSecrets old hold
    · exact hrotated.freshKeys key hrotated.mem
  refine ⟨?_, ?_, ?_⟩
  · intro row secret hrow hsecret hsame
    rcases hrotated.keys row hrow with ⟨hold, hid⟩ | rfl
    · rcases hrotated.secrets secret hsecret with rfl | ⟨old, holdSecret, rfl⟩
      · exact absurd hsame.symm (hrotated.freshKeys row hold)
      · rw [ended_keyHash] at hsame
        rw [ended_keyId]
        rcases holdSecret with hin | rfl
        · exact hsound.owner row old hold hin hsame
        · rw [state.store.hashUnique row key hold hrotated.mem hsame.symm] at hid
          exact absurd rfl hid
    · rcases hrotated.secrets secret hsecret with rfl | ⟨old, holdSecret, rfl⟩
      · rfl
      · rw [ended_keyHash] at hsame
        exact absurd hsame (hfresh old holdSecret)
  · intro row secret hrow hlive hsecret hkeyId
    rcases hrotated.keys row hrow with ⟨hold, hid⟩ | rfl
    · rcases hrotated.secrets secret hsecret with rfl | ⟨old, holdSecret, rfl⟩
      · exact absurd hkeyId.symm hid
      · rw [ended_keyId] at hkeyId
        have hother : old.keyId ≠ key.id := hkeyId ▸ hid
        rw [ended_of_ne hother]
        rcases holdSecret with hin | rfl
        · exact hsound.current row old hold hlive hin hkeyId
        · exact absurd rfl hother
    · rcases hrotated.secrets secret hsecret with rfl | ⟨old, holdSecret, rfl⟩
      · exact iff_of_true ⟨rfl, rfl⟩ rfl
      · rw [ended_keyId, ApiKey.withHash_id] at hkeyId
        refine iff_of_false ?_ ?_
        · rintro ⟨hactive, hopen⟩
          rw [ended_status] at hactive
          rw [ended_validUntil hkeyId hactive] at hopen
          cases hopen
        · rw [ended_keyHash]
          exact hfresh old holdSecret
  · intro keyHash ending hreplaced
    change update state.replaced key.keyHash (some limit) keyHash = some ending at hreplaced
    by_cases hsame : keyHash = key.keyHash
    · subst hsame
      rw [update_self] at hreplaced
      cases hreplaced
      -- The replaced hash has a row, from before or moved by this rotation.
      have hrow : ∃ old, (old ∈ state.store.secrets \/ old = secretOf key) /\
          old.keyHash = key.keyHash /\ ended key.id limit old ∈ after.secrets := by
        by_cases hnone : ∀ old ∈ state.store.secrets, old.keyHash ≠ key.keyHash
        · exact ⟨secretOf key, .inr rfl, rfl, hrotated.moved hnone⟩
        · push Not at hnone
          obtain ⟨old, hold, hhash⟩ := hnone
          exact ⟨old, .inl hold, hhash, hrotated.kept old hold⟩
      obtain ⟨old, hold, hhash, hafter⟩ := hrow
      refine ⟨_, hafter, by rw [ended_keyHash, hhash], ?_⟩
      cases hstatus : old.status with
      | revoked => exact .inl (by rw [ended_status, hstatus])
      | active => exact Or.inr ⟨_, ended_validUntil (hown old hold hhash) hstatus, capTime_le _ _⟩
    · rw [update_of_ne hsame] at hreplaced
      obtain ⟨old, hold, hhash, hretired⟩ := hsound.retired keyHash ending hreplaced
      refine ⟨_, hrotated.kept old hold, by rw [ended_keyHash, hhash], ?_⟩
      rcases hretired with hrevoked | ⟨current, hcurrent, hle⟩
      · exact .inl (by rw [ended_status, hrevoked])
      · obtain ⟨earlier, hearlier, hle'⟩ := ended_le hcurrent
        exact Or.inr ⟨earlier, hearlier, Int.le_trans hle' hle⟩

theorem Onward.rotate (hrotated : Rotated store after key material limit dbNow) :
    Onward store after := by
  constructor
  · intro secret hsecret
    exact ⟨_, hrotated.kept secret hsecret, ended_keyHash, ended_keyId,
      fun ending hending => ended_le hending⟩
  · intro row hrow hrevoked
    refine ⟨row, hrotated.others row hrow ?_, rfl, rfl, hrevoked⟩
    intro hid
    rw [Table.eq_of_key_eq hrow hrotated.mem hid, hrotated.live] at hrevoked
    cases hrevoked

theorem marked_id : (marked keyId reason actor dbNow key).id = key.id := by
  unfold marked
  split <;> rfl

theorem marked_keyHash : (marked keyId reason actor dbNow key).keyHash = key.keyHash := by
  unfold marked
  split <;> rfl

theorem marked_live (hlive : (marked keyId reason actor dbNow key).revokedAt = none) :
    key.id ≠ keyId /\ key.revokedAt = none := by
  unfold marked at hlive
  split at hlive
  · cases hlive
  · rename_i hne
    exact ⟨hne, hlive⟩

theorem closed_of_ne (hne : secret.keyId ≠ keyId) : closed keyId secret = secret :=
  if_neg hne

theorem closed_status (hrevoked : secret.status = .revoked) :
    (closed keyId secret).status = .revoked := by
  unfold closed
  split
  · rfl
  · exact hrevoked

theorem Sound.revoke (hsound : Sound state)
    (hkeys : ∀ row, row ∈ after.keys <->
      ∃ old ∈ state.store.keys, row = marked keyId reason actor dbNow old)
    (hsecrets : ∀ secret, secret ∈ after.secrets <->
      ∃ old ∈ state.store.secrets, secret = closed keyId old) :
    Sound { state with store := after } := by
  refine ⟨?_, ?_, ?_⟩
  · intro row secret hrow hsecret hsame
    obtain ⟨oldKey, holdKey, rfl⟩ := (hkeys row).mp hrow
    obtain ⟨old, hold, rfl⟩ := (hsecrets secret).mp hsecret
    rw [closed_keyHash, marked_keyHash] at hsame
    rw [closed_keyId, marked_id]
    exact hsound.owner oldKey old holdKey hold hsame
  · intro row secret hrow hlive hsecret hkeyId
    obtain ⟨oldKey, holdKey, rfl⟩ := (hkeys row).mp hrow
    obtain ⟨old, hold, rfl⟩ := (hsecrets secret).mp hsecret
    obtain ⟨hne, holdLive⟩ := marked_live hlive
    rw [closed_keyId, marked_id] at hkeyId
    rw [closed_of_ne (hkeyId ▸ hne), marked_keyHash]
    exact hsound.current oldKey old holdKey holdLive hold hkeyId
  · intro keyHash limit hreplaced
    obtain ⟨old, hold, hhash, hretired⟩ := hsound.retired keyHash limit hreplaced
    refine ⟨_, (hsecrets _).mpr ⟨old, hold, rfl⟩, by rw [closed_keyHash, hhash], ?_⟩
    rw [closed_validUntil]
    exact hretired.imp (fun hrevoked => closed_status hrevoked) fun hends => hends

theorem Onward.revoke
    (hkeys : ∀ row, row ∈ after.keys <->
      ∃ old ∈ store.keys, row = marked keyId reason actor dbNow old)
    (hsecrets : ∀ secret, secret ∈ after.secrets <->
      ∃ old ∈ store.secrets, secret = closed keyId old) : Onward store after := by
  constructor
  · intro secret hsecret
    refine ⟨_, (hsecrets _).mpr ⟨secret, hsecret, rfl⟩, closed_keyHash, closed_keyId,
      fun ending hending => ⟨ending, ?_, Int.le_refl _⟩⟩
    rw [closed_validUntil, hending]
  · intro row hrow hrevoked
    refine ⟨_, (hkeys _).mpr ⟨row, hrow, rfl⟩, marked_id, marked_keyHash, ?_⟩
    unfold marked
    split
    · rfl
    · exact hrevoked

theorem switched_fields (keyId : String) (status : KeyStatus) (key : ApiKey) :
    (switched keyId status key).id = key.id /\
      (switched keyId status key).keyHash = key.keyHash /\
      (switched keyId status key).revokedAt = key.revokedAt := by
  unfold switched
  split <;> exact ⟨rfl, rfl, rfl⟩

theorem Sound.updateStatus (hsound : Sound state)
    (hkeys : ∀ row, row ∈ after.keys <->
      ∃ old ∈ state.store.keys, row = switched keyId status old)
    (hsecrets : after.secrets = state.store.secrets) : Sound { state with store := after } := by
  refine ⟨?_, ?_, ?_⟩
  · intro row secret hrow hsecret hsame
    obtain ⟨old, hold, rfl⟩ := (hkeys row).mp hrow
    obtain ⟨hid, hhash, _⟩ := switched_fields keyId status old
    rw [hhash] at hsame
    rw [hid]
    exact hsound.owner old secret hold (hsecrets ▸ hsecret) hsame
  · intro row secret hrow hlive hsecret hkeyId
    obtain ⟨old, hold, rfl⟩ := (hkeys row).mp hrow
    obtain ⟨hid, hhash, hrevoked⟩ := switched_fields keyId status old
    rw [hid] at hkeyId
    rw [hrevoked] at hlive
    rw [hhash]
    exact hsound.current old secret hold hlive (hsecrets ▸ hsecret) hkeyId
  · intro keyHash limit hreplaced
    obtain ⟨old, hold, hretired⟩ := hsound.retired keyHash limit hreplaced
    exact ⟨old, hsecrets ▸ hold, hretired⟩

theorem Onward.updateStatus
    (hkeys : ∀ row, row ∈ after.keys <-> ∃ old ∈ store.keys, row = switched keyId status old)
    (hsecrets : after.secrets = store.secrets) : Onward store after := by
  constructor
  · intro secret hsecret
    exact ⟨secret, hsecrets ▸ hsecret, rfl, rfl,
      fun ending hending => ⟨ending, hending, Int.le_refl _⟩⟩
  · intro row hrow hrevoked
    obtain ⟨hid, hhash, hsame⟩ := switched_fields keyId status row
    exact ⟨_, (hkeys _).mpr ⟨row, hrow, rfl⟩, hid, hhash, hsame ▸ hrevoked⟩

theorem Sound.create (hsound : Sound state) (hlive : key.revokedAt = none)
    (hnewKey : ∀ old ∈ state.store.keys, old.id ≠ key.id /\ old.keyHash ≠ key.keyHash)
    (hnewSecret : ∀ old ∈ state.store.secrets, old.keyHash ≠ key.keyHash)
    (hkeys : ∀ row, row ∈ after.keys <-> row ∈ state.store.keys \/ row = key)
    (hsecrets : ∀ secret, secret ∈ after.secrets <->
      secret ∈ state.store.secrets \/ secret = secretOf key) :
    Sound { state with store := after } := by
  refine ⟨?_, ?_, ?_⟩
  · intro row secret hrow hsecret hsame
    rcases (hkeys row).mp hrow with hold | rfl
    · rcases (hsecrets secret).mp hsecret with hin | rfl
      · exact hsound.owner row secret hold hin hsame
      · exact absurd hsame.symm (hnewKey row hold).2
    · rcases (hsecrets secret).mp hsecret with hin | rfl
      · exact absurd hsame (hnewSecret secret hin)
      · rfl
  · intro row secret hrow hrowLive hsecret hkeyId
    rcases (hkeys row).mp hrow with hold | rfl
    · rcases (hsecrets secret).mp hsecret with hin | rfl
      · exact hsound.current row secret hold hrowLive hin hkeyId
      · exact absurd hkeyId.symm (hnewKey row hold).1
    · rcases (hsecrets secret).mp hsecret with hin | rfl
      · obtain ⟨owner, howner, hid⟩ := state.store.secretOwner secret hin
        exact absurd (hid.trans hkeyId) (hnewKey owner howner).1
      · exact iff_of_true ⟨rfl, rfl⟩ rfl
  · intro keyHash limit hreplaced
    obtain ⟨old, hold, hretired⟩ := hsound.retired keyHash limit hreplaced
    exact ⟨old, (hsecrets old).mpr (.inl hold), hretired⟩

theorem Onward.create (hkeys : ∀ row, row ∈ after.keys <-> row ∈ store.keys \/ row = key)
    (hsecrets : ∀ secret, secret ∈ after.secrets <->
      secret ∈ store.secrets \/ secret = secretOf key) : Onward store after := by
  constructor
  · intro secret hsecret
    exact ⟨secret, (hsecrets secret).mpr (.inl hsecret), rfl, rfl,
      fun ending hending => ⟨ending, hending, Int.le_refl _⟩⟩
  · intro row hrow hrevoked
    exact ⟨row, (hkeys row).mpr (.inl hrow), rfl, rfl, hrevoked⟩

theorem Sound.start (hstart : Start state) : Sound state := by
  obtain ⟨hnone, _, hreplaced⟩ := hstart
  refine ⟨?_, ?_, ?_⟩
  · intro row secret _ hsecret
    exact absurd hsecret (hnone secret)
  · intro row secret _ _ hsecret
    exact absurd hsecret (hnone secret)
  · intro keyHash limit hlimit
    rw [hreplaced keyHash] at hlimit
    cases hlimit

theorem Sound.step (hsound : Sound state) (label : Label) :
    Sound (keyStep state label) /\ Onward state.store (keyStep state label).store := by
  cases label with
  | create id name dailyLimit expiresAt material dbNow =>
    simp only [keyStep]
    split
    · rename_i store hcreate
      obtain ⟨key, hlive, hnewKey, hnewSecret, hkeys, hsecrets⟩ := createApiKey_ok hcreate
      exact ⟨hsound.create hlive hnewKey hnewSecret hkeys hsecrets, .create hkeys hsecrets⟩
    · exact ⟨hsound, .refl _⟩
  | rotate keyId graceHours now material dbNow =>
    simp only [keyStep]
    split
    · rename_i store rotation hrotate
      obtain ⟨key, hfound, hrotated, huntil⟩ := rotateApiKey_ok hrotate
      refine ⟨?_, .rotate hrotated⟩
      have hnoted : noteReplaced state keyId rotation = update state.replaced
          key.keyHash (some (rotationValidUntil now graceHours)) := by
        simp only [noteReplaced, hfound, huntil]
      rw [hnoted]
      exact hsound.rotate hrotated
    · exact ⟨hsound, .refl _⟩
  | revoke keyId reason actor dbNow =>
    simp only [keyStep]
    split
    · rename_i store revocation hrevoke
      obtain ⟨hkeys, hsecrets⟩ := revokeApiKey_ok hrevoke
      exact ⟨hsound.revoke hkeys hsecrets, .revoke hkeys hsecrets⟩
    · exact ⟨hsound, .refl _⟩
  | updateStatus keyId status =>
    simp only [keyStep]
    split
    · rename_i store hupdate
      obtain ⟨hkeys, hsecrets⟩ := updateApiKeyStatus_ok hupdate
      exact ⟨hsound.updateStatus hkeys hsecrets, .updateStatus hkeys hsecrets⟩
    · exact ⟨hsound, .refl _⟩

theorem sound_of_reachable (hreach : keySystem.Reachable state) : Sound state := by
  have hstart : ∀ origin, keySystem.start origin -> Sound origin :=
    fun _ horigin => Sound.start horigin
  have hkeep : ∀ before label after, keySystem.Reachable before -> Sound before ->
      keySystem.step before label after -> Sound after := by
    rintro before label after _ hsound rfl
    exact (hsound.step label).1
  exact hreach.invariant hstart hkeep

theorem run_foldl (state : State) (labels : List Label) :
    keySystem.Run state labels (labels.foldl keyStep state) := by
  induction labels generalizing state with
  | nil => exact .nil state
  | cons label labels ih => exact .cons rfl (ih (keyStep state label))

section

variable (hsound : Sound state)
include hsound

theorem onward_of_run {labels : List Label} {later : State}
    (hrun : keySystem.Run state labels later) : Onward state.store later.store := by
  let Inv : State -> Prop := fun reached => Sound reached /\ Onward state.store reached.store
  have hkeep : ∀ before label after, Inv before -> keySystem.step before label after ->
      Inv after := by
    rintro before label after ⟨hbefore, honward⟩ rfl
    exact ⟨(hbefore.step label).1, honward.trans (hbefore.step label).2⟩
  have hlater : Inv later := hrun.preserves hkeep ⟨hsound, .refl _⟩
  exact hlater.2

def OpensForever (store : KeyStore) (key : ApiKey) (keyHash : String) : Prop :=
  ∃ row, store.lookupByHash (fun _ => 0) keyHash = some row /\ row.key.id = key.id /\
    (row.secretSource = .legacy \/
      (row.secretStatus = some .active /\ row.secretValidUntil = none))

def Belongs (store : KeyStore) (key : ApiKey) (keyHash : String) : Prop :=
  keyHash = key.keyHash \/
    ∃ secret ∈ store.secrets, secret.keyHash = keyHash /\ secret.keyId = key.id

theorem Sound.lookup_current (hkey : key ∈ state.store.keys) (hlive : key.revokedAt = none) :
    OpensForever state.store key key.keyHash := by
  cases hsecret : state.store.findSecret key.keyHash with
  | some secret =>
    obtain ⟨hmem, hhash⟩ := of_findSecret hsecret
    have hkeyId := hsound.owner key secret hkey hmem hhash
    have hopen := (hsound.current key secret hkey hlive hmem hkeyId).mpr hhash
    refine ⟨CredentialRow.mk key .secret (some secret.status) secret.validUntil 0, ?_, rfl,
      Or.inr ⟨congrArg some hopen.1, hopen.2⟩⟩
    simp only [lookupByHash, hsecret, hkeyId, findKey_eq_some hkey, Option.map_some]
  | none =>
    cases hfound : state.store.keys.rows.find? fun row => row.keyHash = key.keyHash with
    | none => exact absurd (decide_eq_true rfl) (find?_eq_none.mp hfound key hkey)
    | some found =>
      have hhash : found.keyHash = key.keyHash := by simpa using find?_some hfound
      have hsame : found = key :=
        state.store.hashUnique found key (mem_of_find?_eq_some hfound) hkey hhash
      refine ⟨CredentialRow.mk key .legacy none none 0, ?_, rfl, .inl rfl⟩
      simp only [lookupByHash, hsecret, hfound, hsame, Option.map_some]

theorem Sound.opensForever_iff (hkey : key ∈ state.store.keys) (hlive : key.revokedAt = none) :
    OpensForever state.store key keyHash <-> keyHash = key.keyHash := by
  constructor
  · rintro ⟨row, hrow, hid, hopen⟩
    obtain ⟨hmem, ⟨secret, hsecret, hkeyId, hsource, hstatus, huntil⟩ | ⟨_, hhash, _⟩⟩ :=
      lookupByHash_cases hrow
    · obtain ⟨hsecretMem, hhash⟩ := of_findSecret hsecret
      rcases hopen with hlegacy | ⟨hactive, hforever⟩
      · rw [hsource] at hlegacy
        cases hlegacy
      · rw [hstatus] at hactive
        rw [huntil] at hforever
        have hcurrent := (hsound.current key secret hkey hlive hsecretMem
          (hkeyId.symm.trans hid)).mp ⟨Option.some.inj hactive, hforever⟩
        exact hhash.symm.trans hcurrent
    · rw [Table.eq_of_key_eq hmem hkey hid] at hhash
      exact hhash.symm
  · rintro rfl
    exact hsound.lookup_current hkey hlive

theorem Sound.replaced_invalid {now : Int} (hreplaced : state.replaced keyHash = some limit)
    (hpassed : limit ≤ now) (hrow : state.store.lookupByHash usage keyHash = some row) :
    evaluateKeyCredential row now ≠ none := by
  obtain ⟨secret, hsecret, hhash, hretired⟩ := hsound.retired keyHash limit hreplaced
  obtain ⟨_, ⟨found, hfound, _, hsource, hstatus, huntil⟩ | ⟨hnone, _⟩⟩ := lookupByHash_cases hrow
  · obtain ⟨hmem, hfoundHash⟩ := of_findSecret hfound
    have hsame : found = secret := Table.eq_of_key_eq hmem hsecret (hfoundHash.trans hhash.symm)
    subst hsame
    refine evaluate_of_retired hsource ?_
    rcases hretired with hrevoked | ⟨ending, hending, hle⟩
    · left
      rw [hstatus, hrevoked]
      decide
    · right
      rw [huntil, hending]
      exact decide_eq_true (Int.le_trans hle hpassed)
  · exact absurd hhash (findSecret_eq_none hnone hsecret)

end

theorem Sound.revoked_invalid {later : State} (hlater : Sound later)
    (honward : Onward state.store later.store) (hkey : key ∈ state.store.keys)
    (hrevoked : key.revokedAt.isSome = true) (hbelongs : Belongs state.store key keyHash)
    (hrow : later.store.lookupByHash usage keyHash = some row) (now : Int) :
    evaluateKeyCredential row now = some .revoked := by
  obtain ⟨still, hstill, hid, hhash, hstillRevoked⟩ := honward.revoked key hkey hrevoked
  refine evaluate_of_revoked now ?_
  suffices hsame : row.key = still by rw [hsame]; exact hstillRevoked
  obtain ⟨hmem, ⟨found, hfound, hrowId, _⟩ | ⟨hnone, hrowHash, _⟩⟩ := lookupByHash_cases hrow
  · obtain ⟨hfoundMem, hfoundHash⟩ := of_findSecret hfound
    refine Table.eq_of_key_eq hmem hstill (hrowId.trans ?_)
    rcases hbelongs with rfl | ⟨secret, hsecret, hsecretHash, hkeyId⟩
    · exact hlater.owner still found hstill hfoundMem (hfoundHash.trans hhash.symm)
    · obtain ⟨kept, hkept, hkeptHash, hkeptId, _⟩ := honward.secrets secret hsecret
      have hsame : found = kept := Table.eq_of_key_eq hfoundMem hkept
        (hfoundHash.trans (hkeptHash.trans hsecretHash).symm)
      rw [hsame, hkeptId, hkeyId, hid]
  · rcases hbelongs with rfl | ⟨secret, hsecret, hsecretHash, _⟩
    · exact later.store.hashUnique _ _ hmem hstill (hrowHash.trans hhash.symm)
    · obtain ⟨kept, hkept, hkeptHash, _⟩ := honward.secrets secret hsecret
      exact absurd (hkeptHash.trans hsecretHash) (findSecret_eq_none hnone hkept)

structure KeysKept (state : State) : Prop where
  /-- Before its revocation a key has one secret without an end time, its current hash. -/
  oneOpen : ∀ key ∈ state.store.keys, key.revokedAt = none -> ∀ keyHash,
    OpensForever state.store key keyHash <-> keyHash = key.keyHash
  /-- An end time never moves later. -/
  endsKept : ∀ labels later, keySystem.Run state labels later ->
    ∀ secret ending, secret ∈ state.store.secrets -> secret.validUntil = some ending ->
      ∃ kept earlier, kept ∈ later.store.secrets /\ kept.keyHash = secret.keyHash /\
        kept.validUntil = some earlier /\ earlier ≤ ending
  /-- A replaced hash is not valid once the grace of its rotation is over. -/
  graceKept : ∀ keyHash limit, state.replaced keyHash = some limit ->
    ∀ now usage row, limit ≤ now -> state.store.lookupByHash usage keyHash = some row ->
      evaluateKeyCredential row now ≠ none
  /-- After its revocation no secret of a key is valid again. -/
  revokedKept : ∀ key ∈ state.store.keys, key.revokedAt.isSome = true ->
    ∀ labels later, keySystem.Run state labels later ->
      ∀ keyHash, Belongs state.store key keyHash ->
        ∀ now usage row, later.store.lookupByHash usage keyHash = some row ->
          evaluateKeyCredential row now ≠ none

theorem keys_kept (hreach : keySystem.Reachable state) : KeysKept state := by
  have hsound := sound_of_reachable hreach
  refine ⟨?_, ?_, ?_, ?_⟩
  · intro key hkey hlive keyHash
    exact hsound.opensForever_iff hkey hlive
  · intro labels later hrun secret ending hsecret hending
    obtain ⟨kept, hkept, hhash, _, hends⟩ := (onward_of_run hsound hrun).secrets secret hsecret
    obtain ⟨earlier, hearlier, hle⟩ := hends ending hending
    exact ⟨kept, earlier, hkept, hhash, hearlier, hle⟩
  · intro keyHash limit hreplaced now usage row hpassed hrow
    exact hsound.replaced_invalid hreplaced hpassed hrow
  · intro key hkey hrevoked labels later hrun keyHash hbelongs now usage row hrow
    rw [Sound.revoked_invalid (sound_of_reachable (hreach.run hrun)) (onward_of_run hsound hrun)
      hkey hrevoked hbelongs hrow now]
    nofun

/-! ## A rotation and a revocation

A key from before the secrets table is rotated with a day of grace, rotated again
by a clock that lags behind with an hour of grace, and revoked. -/

def legacyKey : ApiKey := newKey "k1" "ci" 10000 none (KeyMaterial.mk "" "h0" "mmcp_ci_") 0

def legacyStore : KeyStore where
  keys := Table.empty.insert legacyKey (fun old hold =>
    absurd hold (Table.not_mem_empty old)) trivial
  secrets := Table.empty
  hashUnique := by
    intro left right hleft hright _
    rw [mem_singleton.mp hleft, mem_singleton.mp hright]
  secretOwner := fun secret hsecret => absurd hsecret (Table.not_mem_empty secret)

def legacyState : State where
  store := legacyStore
  replaced := fun _ => none

theorem legacyState_start : keySystem.start legacyState := by
  refine ⟨fun secret => Table.not_mem_empty secret, ?_, fun _ => rfl⟩
  intro key hkey
  rw [mem_singleton.mp hkey]
  rfl

def rotations : List Label :=
  [.rotate "k1" 24 100000000 (KeyMaterial.mk "r1" "h1" "mmcp_ci_") 100000000,
    .rotate "k1" 1 90000000 (KeyMaterial.mk "r2" "h2" "mmcp_ci_") 100000001]

def rotatedState : State := rotations.foldl keyStep legacyState

def revokedState : State := keyStep rotatedState (.revoke "k1" "leaked" "admin" 100000002)

def revokedKey : ApiKey :=
  { legacyKey with
    keyHash := "h2"
    status := .inactive
    revokedAt := some 100000002
    revokedBy := some "admin"
    revokeReason := some "leaked" }

theorem rotatedState_reachable : keySystem.Reachable rotatedState :=
  (System.Reachable.ofStart legacyState_start).run (run_foldl legacyState rotations)

/-- Both end times are the lagging rotation's, and the current hash has none. -/
theorem keys_kept_rotated :
    rotatedState.store.secrets.rows.map (fun secret => (secret.keyHash, secret.validUntil)) =
        [("h0", some 93600000), ("h1", some 93600000), ("h2", none)] /\
      KeysKept rotatedState :=
  ⟨by decide +kernel, keys_kept rotatedState_reachable⟩

/-- A revoked key has no active secret at all. -/
theorem no_secret_after_revocation :
    ¬ ∀ state, keySystem.Reachable state -> ∀ key ∈ state.store.keys,
      ∀ keyHash, OpensForever state.store key keyHash <-> keyHash = key.keyHash := by
  intro halways
  have hreach : keySystem.Reachable revokedState :=
    rotatedState_reachable.step (show keySystem.step rotatedState _ revokedState from rfl)
  have hrows : revokedState.store.keys.rows = [revokedKey] := by decide +kernel
  have hkey : revokedKey ∈ revokedState.store.keys := by
    change revokedKey ∈ revokedState.store.keys.rows
    rw [hrows]
    exact mem_singleton_self revokedKey
  obtain ⟨row, hrow, _, hopen⟩ := (halways revokedState hreach revokedKey hkey "h2").mpr rfl
  have hlookup : (revokedState.store.lookupByHash (fun _ => 0) "h2").map
      (fun row => (row.secretSource, row.secretStatus)) = some (.secret, some .revoked) := by
    decide +kernel
  rw [hrow] at hlookup
  obtain ⟨hsource, hstatus⟩ := Prod.mk.inj (Option.some.inj hlookup)
  rcases hopen with hlegacy | ⟨hactive, _⟩
  · rw [hsource] at hlegacy
    cases hlegacy
  · rw [hstatus] at hactive
    cases hactive

end AnchorMind.Admin.KeyRotations
