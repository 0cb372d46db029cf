import AnchorMind.Kernel.SingleUse
import AnchorMind.Oauth.Server

/-!
# Codes and refresh tokens are exchanged once

Codes and refresh tokens are tickets of the token requests: reading one claims it,
deleting it spends it, and the response redeems it.  A read that finds a grant which
another request has read and not yet deleted breaks the discipline, and so does a
deletion that Redis does not carry out.
-/

namespace AnchorMind.Oauth

open Kernel.Transition Kernel.SingleUse List

def Exchange.claim (exchange : Exchange) : Grant × Bool :=
  match exchange.grant with
  | .code name => (.code name, true)
  | .refresh name => (.refresh name, false)

/-- The grant a request has read and not yet given up, and whether it has been spent. -/
def Phase.claim : Phase -> Option (Grant × Bool)
  | .received _ => none
  | .resolved _ _ => none
  | .judging _ _ token _ => some (.refresh token, false)
  | .holding _ _ code _ => some (.code code, false)
  | .saving exchange => some exchange.claim
  | .savingRefresh exchange => some exchange.claim
  | .deleting exchange => some exchange.claim
  | .succeeded => none
  | .failed _ => none

def TokenParams.presented (params : TokenParams) : Option Grant :=
  if params.grantType = some "refresh_token" then (truthy params.refreshToken).map .refresh
  else if params.grantType = some "authorization_code" then (truthy params.code).map .code
  else none

namespace Server

def stored (server : Server) : Grant -> Bool
  | .code name => (server.codes name).isSome
  | .refresh name =>
    match server.tokens name with
    | some data => decide (data.type = .refresh)
    | none => false

def claimed (server : Server) (grant : Grant) : Bool :=
  server.requests.any fun phase => decide (phase.claim.map Prod.fst = some grant)

def readsAlone (server : Server) : Event -> Bool
  | .read request _ =>
    match server.requests[request]? with
    | some (.resolved params _) =>
      match params.presented with
      | some grant => !(server.stored grant && server.claimed grant)
      | none => true
    | _ => true
  | .delete _ deleted => deleted
  | _ => true

def office (server : Server) : Office Nat Grant where
  valid := fun grant => server.stored grant = true
  known := fun grant => grant.name ∈ server.drawn
  claim := fun request => server.requests[request]?.bind Phase.claim
  redeemed := server.exchanged

end Server

variable {settings : Settings} {before middle after server : Server} {request : Nat}

structure StoreChange (before after : Server) : Prop where
  extends_office : Extends before.office after.office
  requests_eq : after.requests = before.requests
  exchanged_eq : after.exchanged = before.exchanged

namespace StoreChange

theorem refl (hsound : Sound before.office) : StoreChange before before :=
  ⟨.refl hsound, rfl, rfl⟩

theorem trans (hfirst : StoreChange before middle) (hsecond : StoreChange middle after) :
    StoreChange before after :=
  ⟨hfirst.extends_office.trans hsecond.extends_office,
    hsecond.requests_eq.trans hfirst.requests_eq,
    hsecond.exchanged_eq.trans hfirst.exchanged_eq⟩

section

variable (hchange : StoreChange before server)
include hchange

theorem eraseCode (name : String) : StoreChange before (server.eraseCode name) := by
  refine hchange.trans ⟨⟨?_, ?_, fun _ hknown => hknown⟩, rfl, rfl⟩
  all_goals
    intro grant hvalid
    have hold : server.office.valid grant := by
      cases grant with
      | code other =>
        rcases Classical.em (other = name) with rfl | hne
        · simp [Server.office, Server.stored, Server.eraseCode] at hvalid
        · simpa [Server.office, Server.stored, Server.eraseCode, hne] using hvalid
      | refresh other => exact hvalid
  · exact .inl hold
  · exact hchange.extends_office.valid_known grant hold

theorem eraseToken (name : String) : StoreChange before (server.eraseToken name) := by
  refine hchange.trans ⟨⟨?_, ?_, fun _ hknown => hknown⟩, rfl, rfl⟩
  all_goals
    intro grant hvalid
    have hold : server.office.valid grant := by
      cases grant with
      | code other => exact hvalid
      | refresh other =>
        rcases Classical.em (other = name) with rfl | hne
        · simp [Server.office, Server.stored, Server.eraseToken] at hvalid
        · simpa [Server.office, Server.stored, Server.eraseToken, hne] using hvalid
  · exact .inl hold
  · exact hchange.extends_office.valid_known grant hold

theorem putCode {name : String} (data : CodeData) (saved : Bool) (hnew : name ∉ server.drawn) :
    StoreChange before (server.putCode name data saved) := by
  have hcases : ∀ grant, (server.putCode name data saved).office.valid grant ->
      server.office.valid grant \/ grant.name = name := by
    intro grant hvalid
    cases grant with
    | code other =>
      rcases Classical.em (other = name) with rfl | hne
      · exact .inr rfl
      · left
        cases saved <;> simpa [Server.office, Server.stored, Server.putCode, hne] using hvalid
    | refresh other => exact .inl hvalid
  refine hchange.trans ⟨⟨?_, ?_, ?_⟩, rfl, rfl⟩
  · intro grant hvalid
    rcases hcases grant hvalid with hold | hname
    · exact .inl hold
    · right
      intro hknown
      exact hnew (hname ▸ hknown)
  · intro grant hvalid
    rcases hcases grant hvalid with hold | hname
    · exact mem_append_left _ (hchange.extends_office.valid_known grant hold)
    · exact mem_append_right _ (mem_singleton.mpr hname)
  · intro grant hknown
    exact mem_append_left _ hknown

theorem putToken (settings : Settings) (type : TokenType) (name : String) (exchange : Exchange)
    (saved : Bool) (hnew : name ∉ server.drawn) :
    StoreChange before (server.putToken settings type name exchange saved) := by
  have hcases : ∀ grant,
      (server.putToken settings type name exchange saved).office.valid grant ->
        server.office.valid grant \/ grant.name = name := by
    intro grant hvalid
    cases grant with
    | code other => exact .inl hvalid
    | refresh other =>
      rcases Classical.em (other = name) with rfl | hne
      · exact .inr rfl
      · left
        cases saved <;> simpa [Server.office, Server.stored, Server.putToken, hne] using hvalid
  refine hchange.trans ⟨⟨?_, ?_, ?_⟩, rfl, rfl⟩
  · intro grant hvalid
    rcases hcases grant hvalid with hold | hname
    · exact .inl hold
    · right
      intro hknown
      exact hnew (hname ▸ hknown)
  · intro grant hvalid
    rcases hcases grant hvalid with hold | hname
    · exact mem_append_left _ (hchange.extends_office.valid_known grant hold)
    · exact mem_append_right _ (mem_singleton.mpr hname)
  · intro grant hknown
    exact mem_append_left _ hknown

variable {old : Phase}

theorem claim_enter (hphase : before.requests[request]? = some old) (phase : Phase) :
    (server.enter request phase).office.claim =
      Function.update before.office.claim request phase.claim := by
  obtain ⟨hlength, _⟩ := List.getElem?_eq_some_iff.mp hphase
  funext other
  simp only [Server.office, Server.enter, hchange.requests_eq]
  rcases Classical.em (other = request) with rfl | hne
  · rw [getElem?_set_self hlength, Function.update_self]
    rfl
  · rw [getElem?_set_ne (Ne.symm hne), Function.update_of_ne hne]

theorem extends_enter (phase : Phase) : Extends before.office (server.enter request phase).office :=
  ⟨hchange.extends_office.valid, hchange.extends_office.valid_known,
    hchange.extends_office.known⟩

variable {phase : Phase}

theorem release (hsound : Sound before.office) (hphase : before.requests[request]? = some old)
    (hnone : phase.claim = none) : Sound (server.enter request phase).office := by
  refine hsound.release (hchange.extends_enter phase) request ?_ hchange.exchanged_eq
  rw [hchange.claim_enter hphase, hnone]

theorem hold (hsound : Sound before.office) {grant : Grant} (own spent : Bool)
    (hphase : before.requests[request]? = some old) (hown : old.claim = some (grant, own))
    (hclaim : phase.claim = some (grant, spent))
    (hspent : spent = true -> own = true \/ server.stored grant = false) :
    Sound (server.enter request phase).office := by
  refine hsound.hold (hchange.extends_enter phase) request grant own spent ?_ ?_
    hchange.exchanged_eq ?_
  · simp [Server.office, hphase, hown]
  · rw [hchange.claim_enter hphase, hclaim]
  · intro htrue
    rcases hspent htrue with hold | hgone
    · exact .inl hold
    · right
      simpa [Server.office, Server.enter, Server.stored] using hgone

theorem take (hsound : Sound before.office) {grant : Grant} (spent : Bool)
    (hphase : before.requests[request]? = some old) (hstored : before.stored grant = true)
    (hunclaimed : before.claimed grant = false) (hclaim : phase.claim = some (grant, spent))
    (hspent : spent = true -> server.stored grant = false) :
    Sound (server.enter request phase).office := by
  refine hsound.take (hchange.extends_enter phase) request grant spent ?_
    hchange.exchanged_eq hstored ?_ ?_
  · rw [hchange.claim_enter hphase, hclaim]
  · intro other own hother
    simp only [Server.office, Option.bind_eq_some_iff] at hother
    obtain ⟨phase, hget, hown⟩ := hother
    have hmem : phase ∈ before.requests := mem_of_getElem? hget
    have hall := any_eq_false.mp hunclaimed phase hmem
    simp [hown] at hall
  · intro htrue
    have hgone := hspent htrue
    simpa [Server.office, Server.enter, Server.stored] using hgone

theorem succeed (hsound : Sound before.office) {exchange : Exchange} (own : Bool)
    (hphase : before.requests[request]? = some old) (hown : old.claim = some (exchange.grant, own))
    (hgone : server.stored exchange.grant = false) :
    Sound (server.succeed request exchange).office := by
  refine hsound.redeem ?_ request exchange.grant own ?_ ?_ ?_ ?_
  · exact ⟨hchange.extends_office.valid, hchange.extends_office.valid_known,
      hchange.extends_office.known⟩
  · simp [Server.office, hphase, hown]
  · have hclaim := hchange.claim_enter hphase .succeeded
    exact hclaim
  · have hexchanged := hchange.exchanged_eq
    simp [Server.office, Server.succeed, hexchanged]
  · simpa [Server.office, Server.succeed, Server.enter, Server.stored] using hgone

end

end StoreChange

theorem resolveSecret_eq (server : Server) (request : Nat) (params : TokenParams) (found : Bool) :
    ∃ secretKeyId verified,
      server.resolveSecret request params found =
        { server.enter request (.resolved params secretKeyId) with verified := verified } := by
  unfold Server.resolveSecret
  split
  · split
    · exact ⟨_, _, rfl⟩
    · exact ⟨none, server.verified, rfl⟩
  · exact ⟨none, server.verified, rfl⟩

theorem stored_refresh {token : String} {data : TokenData} (hdata : server.tokens token = some data)
    (htype : data.type = .refresh) : server.stored (.refresh token) = true := by
  simp [Server.stored, hdata, htype]

variable {params : TokenParams} {secretKeyId : Option String} {old : Phase} {exchange : Exchange}

theorem redeemCode_grant {code : String} {data : CodeData} {now : Int}
    (hredeem : redeemCode settings params secretKeyId code data now = .ok exchange) :
    exchange.claim = (.code code, true) := by
  unfold redeemCode at hredeem
  split at hredeem
  · cases hredeem
  · split at hredeem
    · cases hredeem
    · split at hredeem
      · cases hredeem
      · split at hredeem
        · cases hredeem
        · cases hredeem
          rfl

section

variable (hsound : Sound before.office)
include hsound

theorem afterChecks_sound (hchange : StoreChange before server) {code : String} {data : CodeData}
    {now : Int} (hphase : before.requests[request]? = some old)
    (hgone : server.stored (.code code) = false)
    (hmay : old.claim = some (.code code, false) \/
      before.stored (.code code) = true /\ before.claimed (.code code) = false) :
    Sound (server.afterChecks request
      (redeemCode settings params secretKeyId code data now)).office := by
  cases hchecked : redeemCode settings params secretKeyId code data now with
  | error failure => exact hchange.release hsound hphase rfl
  | ok exchange =>
    have hclaim : (Phase.saving exchange).claim = some (.code code, true) :=
      congrArg some (redeemCode_grant hchecked)
    rcases hmay with hheld | ⟨hstored, hunclaimed⟩
    · exact hchange.hold hsound _ _ hphase hheld hclaim fun _ => .inr hgone
    · exact hchange.take hsound true hphase hstored hunclaimed hclaim fun _ => hgone

variable {found : Bool}

theorem readRefresh_sound (hphase : before.requests[request]? = some old)
    (halone : ∀ token, truthy params.refreshToken = some token ->
      before.stored (.refresh token) = true -> before.claimed (.refresh token) = false) :
    Sound (before.readRefresh request params secretKeyId found).office := by
  have hsame := StoreChange.refl hsound
  unfold Server.readRefresh
  split
  · exact hsame.release hsound hphase rfl
  · rename_i token htoken
    split
    · exact hsame.release hsound hphase rfl
    · rename_i data hdata
      split
      · exact hsame.release hsound hphase rfl
      · rename_i htype
        split
        · exact (hsame.eraseToken token).release hsound hphase rfl
        · have hfound : before.tokens token = some data := by
            cases found with
            | true => exact hdata
            | false => cases hdata
          have hstored := stored_refresh hfound (not_not.mp htype)
          exact hsame.take hsound false hphase hstored (halone token htoken hstored)
            rfl nofun

theorem readCode_sound (hphase : before.requests[request]? = some old)
    (halone : ∀ code, truthy params.code = some code ->
      before.stored (.code code) = true -> before.claimed (.code code) = false) :
    Sound (before.readCode settings request params secretKeyId found).office := by
  have hsame := StoreChange.refl hsound
  unfold Server.readCode
  split
  · exact hsame.release hsound hphase rfl
  · exact hsame.release hsound hphase rfl
  · rename_i code verifier hcode hverifier
    split
    · exact hsame.release hsound hphase rfl
    · rename_i data hdata
      have hfound : before.codes code = some data := by
        cases found with
        | true => exact hdata
        | false => cases hdata
      have hstored : before.stored (.code code) = true := by simp [Server.stored, hfound]
      have hunclaimed := halone code hcode hstored
      split
      · exact hsame.take hsound false hphase hstored hunclaimed rfl fun hspent => by
          cases hspent
      · refine afterChecks_sound hsound (hsame.eraseCode code) hphase ?_
          (.inr ⟨hstored, hunclaimed⟩)
        simp [Server.stored, Server.eraseCode]

theorem readGrant_sound (hphase : before.requests[request]? = some (.resolved params secretKeyId))
    (halone : before.readsAlone (.read request found) = true) (seen : Bool) :
    Sound (before.readGrant settings request params secretKeyId seen).office := by
  have hfree : ∀ grant, params.presented = some grant -> before.stored grant = true ->
      before.claimed grant = false := by
    intro grant hgrant hstored
    simpa [Server.readsAlone, hphase, hgrant, hstored] using halone
  unfold Server.readGrant
  split
  · rename_i htype
    refine readRefresh_sound hsound hphase fun token htoken => hfree (.refresh token) ?_
    simp [TokenParams.presented, htype, htoken]
  · split
    · rename_i hother htype
      refine readCode_sound hsound hphase fun code hcode => hfree (.code code) ?_
      simp [TokenParams.presented, htype, hcode]
    · exact (StoreChange.refl hsound).release hsound hphase rfl

theorem judgeRefresh_sound {token : String} {data : TokenData}
    (hphase : before.requests[request]? = some (.judging params secretKeyId token data))
    (retired : Bool) :
    Sound (before.judgeRefresh request params secretKeyId token data retired).office := by
  have hsame := StoreChange.refl hsound
  unfold Server.judgeRefresh
  split
  · exact hsame.release hsound hphase rfl
  · exact hsame.hold hsound false false hphase rfl rfl fun hspent => by
      cases hspent

theorem discard_succeed_sound (hchange : StoreChange before server)
    (hphase : before.requests[request]? = some old) (hown : old.claim = some exchange.claim) :
    Sound ((server.discard exchange.grant).succeed request exchange).office := by
  unfold Exchange.claim at hown
  cases hgrant : exchange.grant with
  | refresh token =>
    rw [hgrant] at hown
    refine (hchange.eraseToken token).succeed hsound false hphase ?_ ?_
    · rw [hown, hgrant]
    · simp [hgrant, Server.stored, Server.eraseToken]
  | code name =>
    rw [hgrant] at hown
    have hinvalid : Not (before.office.valid (.code name)) :=
      hsound.spent_invalid request (.code name) (by simp [Server.office, hphase, hown])
    have hknown : before.office.known (.code name) :=
      hsound.claimed_known request (.code name) true (by simp [Server.office, hphase, hown])
    have hgone := hchange.extends_office.invalid hknown hinvalid
    refine hchange.succeed hsound true hphase ?_ ?_
    · rw [hown, hgrant]
    · rw [hgrant]
      exact Bool.eq_false_iff.mpr hgone

theorem step_sound {event : Event} (hstep : before.step settings event = some after)
    (halone : before.readsAlone event = true) : Sound after.office := by
  have hsame := StoreChange.refl hsound
  cases event with
  | advance elapsed =>
    cases hstep
    exact hsound
  | rekey keyOfSecret =>
    cases hstep
    exact hsound
  | expireCode name =>
    cases hstep
    exact hsound.extend (hsame.eraseCode name).extends_office rfl rfl
  | expireToken name =>
    cases hstep
    exact hsound.extend (hsame.eraseToken name).extends_office rfl rfl
  | authorize params lookups code saved =>
    simp only [Server.step] at hstep
    split at hstep
    · cases hstep
      exact hsound
    · rename_i data _
      split at hstep
      · cases hstep
      · rename_i hnew
        cases hstep
        exact hsound.extend (hsame.putCode data _ hnew).extends_office rfl rfl
  | receive params =>
    cases hstep
    refine hsound.shrink ⟨hsame.extends_office.valid, hsame.extends_office.valid_known,
      hsame.extends_office.known⟩ ?_ rfl
    intro other found hfound
    simp only [Server.office] at hfound ⊢
    rcases Nat.lt_or_ge other before.requests.length with hin | hout
    · rwa [getElem?_append_left hin] at hfound
    · rw [getElem?_append_right hout] at hfound
      cases hplace : other - before.requests.length with
      | zero => simp [hplace, Phase.claim] at hfound
      | succ place => simp [hplace] at hfound
  | resolve request found =>
    simp only [Server.step] at hstep
    split at hstep
    · rename_i params hphase
      obtain ⟨secretKeyId, verified, heq⟩ :=
        resolveSecret_eq before request params found
      rw [heq] at hstep
      cases hstep
      have hresolved : Sound (before.enter request (.resolved params secretKeyId)).office :=
        hsame.release hsound hphase rfl
      exact hresolved
    · cases hstep
  | read request found =>
    simp only [Server.step] at hstep
    split at hstep
    · rename_i params secretKeyId hphase
      cases hstep
      exact readGrant_sound hsound hphase halone _
    · cases hstep
  | consume request consumed =>
    simp only [Server.step] at hstep
    split at hstep
    · rename_i params secretKeyId code data hphase
      split at hstep
      · cases hstep
        refine afterChecks_sound hsound (hsame.eraseCode code) hphase ?_ (.inl rfl)
        simp [Server.stored, Server.eraseCode]
      · cases hstep
        exact hsame.release hsound hphase rfl
    · cases hstep
  | judge request retired =>
    simp only [Server.step] at hstep
    split at hstep
    · rename_i params secretKeyId token data hphase
      cases hstep
      exact judgeRefresh_sound hsound hphase retired
    · cases hstep
  | save request token saved =>
    simp only [Server.step] at hstep
    split at hstep
    · rename_i exchange _ hphase
      split at hstep
      · cases hstep
      · rename_i hnew
        cases hstep
        exact (hsame.putToken settings .access _ exchange saved hnew).hold hsound _ _ hphase rfl
          rfl .inl
    · cases hstep
  | saveRefresh request token saved =>
    simp only [Server.step] at hstep
    split at hstep
    · rename_i exchange hphase
      split at hstep
      · cases hstep
      · rename_i hnew
        cases hstep
        have hput := hsame.putToken settings .refresh _ exchange saved hnew
        cases hgrant : exchange.grant with
        | code name =>
          have hdone := discard_succeed_sound hsound hput hphase rfl
          simpa [Server.afterSaves, hgrant, Server.discard] using hdone
        | refresh name =>
          have hheld : Sound ((before.putToken settings .refresh token exchange saved).enter
              request (.deleting exchange)).office :=
            hput.hold hsound _ _ hphase rfl rfl .inl
          simpa [Server.afterSaves, hgrant] using hheld
    · cases hstep
  | delete request deleted =>
    simp only [Server.step] at hstep
    split at hstep
    · rename_i exchange hphase
      cases hstep
      rw [show deleted = true from halone, if_pos rfl]
      exact discard_succeed_sound hsound hsame hphase rfl
    · cases hstep
  | issue request access refresh =>
    simp only [Server.step] at hstep
    split at hstep
    · rename_i exchange _ hphase
      split at hstep
      · cases hstep
      · rename_i hnew
        cases hstep
        simp only [not_or] at hnew
        have hfirst := hsame.putToken settings .access _ exchange true hnew.1
        have hsecond := hfirst.putToken settings .refresh refresh exchange true (by
          simp only [Server.putToken, mem_append, mem_singleton, not_or]
          exact ⟨hnew.2.1, Ne.symm hnew.2.2⟩)
        exact discard_succeed_sound hsound hsecond hphase rfl
    · cases hstep

end

theorem initial_sound (now : Int) (keyOfSecret : String -> Option String) :
    Sound (Server.initial now keyOfSecret).office := by
  constructor
  · rintro (name | name) hvalid <;> cases hvalid
  · intro request grant spent hclaim
    cases hclaim
  · intro grant hmem
    cases hmem
  · intro left right grant first second hleft
    cases hleft
  · intro request grant hclaim
    cases hclaim
  · intro grant hmem
    cases hmem
  · intro grant hmem
    cases hmem
  · exact nodup_nil

/--
In either mode, in every run in which requests read grants alone and deletions are
carried out, each code and each refresh token is exchanged at most once.
-/
theorem exchanged_once (settings : Settings) {server : Server}
    (hreach : ((system settings).restrict
      fun before event => before.readsAlone event = true).Reachable server) :
    server.exchanged.Nodup := by
  obtain ⟨origin, events, ⟨now, keyOfSecret, rfl⟩, hrun⟩ := hreach
  let SoundOffice : Server -> Prop := fun server => Sound server.office
  have hsound : SoundOffice server := by
    refine hrun.preserves ?_ (initial_sound now keyOfSecret)
    intro before event after hsound hstep
    exact step_sound hsound hstep.1 hstep.2
  exact hsound.once

/-- A deployment whose clients call back on their own machine. -/
def localSettings (mode : Mode) : Settings where
  mode := mode
  accessKey := none
  codeTtlMs := 600000
  tokenTtlMs := 3600000
  refreshTtlMs := 604800000
  isAllowedRedirectUri := fun uri => decide (uri = "http://localhost/cb")
  challengeOf := fun _ => "E9Melhoa2OwvFrEMTJguCHaoeK1t8URWbuGJSstw-cM"

def authorizeLocal : Event :=
  .authorize
    { responseType := some "code"
      clientId := some "desktop"
      redirectUri := some "http://localhost/cb"
      codeChallenge := some "E9Melhoa2OwvFrEMTJguCHaoeK1t8URWbuGJSstw-cM"
      codeChallengeMethod := some "S256" }
    { clientIsKey := some false, client := none, keyIsValid := fun _ => false } "code" true

def codeRequest : Event :=
  .receive
    { grantType := some "authorization_code"
      code := some "code"
      redirectUri := some "http://localhost/cb"
      codeVerifier := some "dBjftJeZ4CVP-mB92K27uhbUJU1p1r_wW1gFWFOEjXk" }

def refreshRequest : Event :=
  .receive { grantType := some "refresh_token", refreshToken := some "refresh1" }

def oneAfterTheOther : List Event :=
  [authorizeLocal, codeRequest, .resolve 0 true, .read 0 true, .issue 0 "access1" "refresh1",
    refreshRequest, .resolve 1 true, .read 1 true, .judge 1 false, .issue 1 "access2" "refresh2",
    refreshRequest, .resolve 2 true, .read 2 true]

theorem exchanged_once_oneAfterTheOther :
    ∃ server : Server,
      server.exchanged = [.code "code", .refresh "refresh1"] /\ server.exchanged.Nodup := by
  have hfollow : (System.follow (fun before event =>
        if Server.readsAlone before event = true then
          Server.step (localSettings .memory) before event
        else none) (Server.initial 0 fun _ => none) oneAfterTheOther).map Server.exchanged =
      some [.code "code", .refresh "refresh1"] := by
    decide +kernel
  obtain ⟨server, hlast, hseen⟩ := Option.map_eq_some_iff.mp hfollow
  have hrun : ((system (localSettings .memory)).restrict
      fun before event => before.readsAlone event = true).Run
        (Server.initial 0 fun _ => none) oneAfterTheOther server :=
    .of_follow_restrict (fun _ _ _ hstep => hstep) hlast
  exact ⟨server, hseen, exchanged_once _ ⟨_, _, ⟨0, _, rfl⟩, hrun⟩⟩

def refreshTogether : List Event :=
  [authorizeLocal, codeRequest, .resolve 0 true, .read 0 true, .issue 0 "access1" "refresh1",
    refreshRequest, refreshRequest, .resolve 1 true, .resolve 2 true, .read 1 true, .read 2 true,
    .judge 1 false, .issue 1 "access2" "refresh2", .judge 2 false,
    .issue 2 "access3" "refresh3"]

def codeTogether : List Event :=
  [authorizeLocal, codeRequest, codeRequest, .resolve 0 true, .resolve 1 true, .read 0 true,
    .read 1 true, .consume 0 true, .consume 1 true, .save 0 "access1" true,
    .save 1 "access2" true, .saveRefresh 0 "refresh1" true, .saveRefresh 1 "refresh2" true]

/-- Both requests obtain new tokens: for the refresh token in memory, for the code in Redis. -/
theorem exchanged_twice :
    (∃ server : Server, (system (localSettings .memory)).Reachable server /\
        server.exchanged = [.code "code", .refresh "refresh1", .refresh "refresh1"]) /\
      ∃ server : Server, (system (localSettings .redis)).Reachable server /\
        server.exchanged = [.code "code", .code "code"] := by
  constructor
  · have hfollow : (System.follow (Server.step (localSettings .memory))
        (Server.initial 0 fun _ => none) refreshTogether).map Server.exchanged =
          some [.code "code", .refresh "refresh1", .refresh "refresh1"] := by
      decide +kernel
    obtain ⟨server, hlast, hseen⟩ := Option.map_eq_some_iff.mp hfollow
    exact ⟨server, ⟨_, _, ⟨0, _, rfl⟩, .of_follow (fun _ _ _ hstep => hstep) hlast⟩, hseen⟩
  · have hfollow : (System.follow (Server.step (localSettings .redis))
        (Server.initial 0 fun _ => none) codeTogether).map Server.exchanged =
          some [.code "code", .code "code"] := by
      decide +kernel
    obtain ⟨server, hlast, hseen⟩ := Option.map_eq_some_iff.mp hfollow
    exact ⟨server, ⟨_, _, ⟨0, _, rfl⟩, .of_follow (fun _ _ _ hstep => hstep) hlast⟩, hseen⟩

end AnchorMind.Oauth
