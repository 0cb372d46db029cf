import Mathlib.Logic.Relation
import AnchorMind.Oauth.Server

/-!
# Where a token's key comes from

A token bound to a key is issued to a request that presented a secret of the key, or
descends from such a token through refreshes.  A code passes a key on only if the request
that redeems it presents the same key.
-/

namespace AnchorMind.Oauth

open Kernel.Transition List

namespace Server

def Presents (server : Server) (keyId : String) (exchange : Exchange) : Prop :=
  ∃ secret, exchange.secret = some secret /\ (secret, keyId) ∈ server.verified

structure Refreshes (server : Server) (parent child : Issue) : Prop where
  parent_mem : parent ∈ server.issues
  child_mem : child ∈ server.issues
  parent_type : parent.type = .refresh
  grant_eq : child.exchange.grant = .refresh parent.token

def Lineage (server : Server) (keyId : String) (issue : Issue) : Prop :=
  ∃ root ∈ server.issues, server.Presents keyId root.exchange /\
    Relation.ReflTransGen server.Refreshes root issue

def Holds (server : Server) (params : TokenParams) (secretKeyId : Option String) : Prop :=
  ∀ keyId, secretKeyId = some keyId ->
    ∃ secret, params.clientSecret = some secret /\ (secret, keyId) ∈ server.verified

def Inherits (server : Server) (token : String) (boundKeyId : Option String) : Prop :=
  ∀ keyId, boundKeyId = some keyId ->
    ∃ parent ∈ server.issues, parent.type = .refresh /\ parent.token = token /\
      server.Lineage keyId parent

def Backed (server : Server) (exchange : Exchange) : Prop :=
  ∀ keyId, exchange.boundKeyId = some keyId ->
    server.Presents keyId exchange \/
      ∃ parent ∈ server.issues, parent.type = .refresh /\
        exchange.grant = .refresh parent.token /\ server.Lineage keyId parent

def Justified (server : Server) : Phase -> Prop
  | .received _ => True
  | .resolved params secretKeyId => server.Holds params secretKeyId
  | .judging params secretKeyId token data =>
    server.Holds params secretKeyId /\ server.Inherits token data.boundKeyId
  | .holding params secretKeyId _ data =>
    server.Holds params secretKeyId /\ (data.boundByClient = false -> data.boundKeyId = none)
  | .saving exchange => server.Backed exchange
  | .savingRefresh exchange => server.Backed exchange
  | .deleting exchange => server.Backed exchange
  | .succeeded => True
  | .failed _ => True

structure Rooted (server : Server) : Prop where
  codes : ∀ name data, server.codes name = some data ->
    data.boundByClient = false -> data.boundKeyId = none
  tokens : ∀ name data, server.tokens name = some data ->
    ∃ issue ∈ server.issues, issue.token = name /\ issue.type = data.type /\
      issue.exchange.boundKeyId = data.boundKeyId
  issues : ∀ issue ∈ server.issues, ∀ keyId,
    issue.exchange.boundKeyId = some keyId -> server.Lineage keyId issue
  requests : ∀ phase ∈ server.requests, server.Justified phase

structure Grows (before after : Server) : Prop where
  issues : ∀ issue ∈ before.issues, issue ∈ after.issues
  verified : ∀ entry ∈ before.verified, entry ∈ after.verified

end Server

variable {settings : Settings} {before after server : Server} {request : Nat}

namespace Server.Grows

section

variable (hgrows : Grows before after)
include hgrows

variable {exchange : Exchange}

theorem presents {keyId : String} (hpresents : before.Presents keyId exchange) :
    after.Presents keyId exchange := by
  obtain ⟨secret, hsecret, hverified⟩ := hpresents
  exact ⟨secret, hsecret, hgrows.verified _ hverified⟩

theorem lineage {keyId : String} {issue : Issue} (hlineage : before.Lineage keyId issue) :
    after.Lineage keyId issue := by
  obtain ⟨root, hroot, hpresents, hchain⟩ := hlineage
  refine ⟨root, hgrows.issues root hroot, hgrows.presents hpresents, ?_⟩
  refine Relation.ReflTransGen.mono ?_ root issue hchain
  intro parent child hrefresh
  exact ⟨hgrows.issues _ hrefresh.parent_mem, hgrows.issues _ hrefresh.child_mem,
    hrefresh.parent_type, hrefresh.grant_eq⟩

theorem holds {params : TokenParams} {secretKeyId : Option String}
    (hholds : before.Holds params secretKeyId) : after.Holds params secretKeyId := by
  intro keyId hkey
  obtain ⟨secret, hsecret, hverified⟩ := hholds keyId hkey
  exact ⟨secret, hsecret, hgrows.verified _ hverified⟩

theorem inherits {token : String} {boundKeyId : Option String}
    (hinherits : before.Inherits token boundKeyId) : after.Inherits token boundKeyId := by
  intro keyId hkey
  obtain ⟨parent, hmem, htype, htoken, hlineage⟩ := hinherits keyId hkey
  exact ⟨parent, hgrows.issues parent hmem, htype, htoken, hgrows.lineage hlineage⟩

theorem backed (hbacked : before.Backed exchange) : after.Backed exchange := by
  intro keyId hkey
  rcases hbacked keyId hkey with hpresents | ⟨parent, hmem, htype, hgrant, hlineage⟩
  · exact .inl (hgrows.presents hpresents)
  · exact .inr ⟨parent, hgrows.issues parent hmem, htype, hgrant, hgrows.lineage hlineage⟩

theorem justified {phase : Phase} (hjustified : before.Justified phase) :
    after.Justified phase := by
  cases phase with
  | received params => trivial
  | resolved params secretKeyId => exact hgrows.holds hjustified
  | judging params secretKeyId token data =>
    exact ⟨hgrows.holds hjustified.1, hgrows.inherits hjustified.2⟩
  | holding params secretKeyId code data => exact ⟨hgrows.holds hjustified.1, hjustified.2⟩
  | saving exchange => exact hgrows.backed hjustified
  | savingRefresh exchange => exact hgrows.backed hjustified
  | deleting exchange => exact hgrows.backed hjustified
  | succeeded => trivial
  | failed failure => trivial

end

end Server.Grows

theorem truthy_eq_some {value : Option String} {text : String}
    (htruthy : truthy value = some text) : value = some text :=
  (Option.filter_eq_some_iff.mp htruthy).1

variable {secretKeyId : Option String} {keyId : String}

theorem effectiveBoundId_cases {boundKeyId : Option String}
    (heffective : effectiveBoundId secretKeyId boundKeyId = some keyId) :
    secretKeyId = some keyId \/ boundKeyId = some keyId := by
  unfold effectiveBoundId at heffective
  rcases Option.or_eq_some_iff.mp heffective with hsecret | ⟨_, hbound⟩
  · exact .inl (truthy_eq_some hsecret)
  · exact .inr (truthy_eq_some hbound)

variable {now : Int} {data : CodeData}

theorem handleAuthorize_bound {lookups : AuthorizeLookups} {params : AuthorizeParams}
    (hok : handleAuthorize settings lookups params now = .ok data)
    (hclient : data.boundByClient = false) : data.boundKeyId = none := by
  have hdata : ∃ verdict redirectUri codeChallenge,
      data = codeDataOf settings params verdict redirectUri codeChallenge now := by
    unfold handleAuthorize at hok
    split at hok
    · cases hok
    · split at hok
      · cases hok
      · cases hok
      · rename_i redirectUri codeChallenge _ _
        split at hok
        · cases hok
        · cases hverdict : identifyClient settings lookups params.clientId redirectUri with
          | error failure =>
            rw [hverdict] at hok
            cases hok
          | ok verdict =>
            rw [hverdict] at hok
            cases hredirect : redirectAllowed settings verdict redirectUri with
            | error failure =>
              simp only [bind, Except.bind, hredirect] at hok
              cases hok
            | ok allowed =>
              simp only [bind, Except.bind, hredirect] at hok
              cases hok
              exact ⟨verdict, redirectUri, codeChallenge, rfl⟩
  obtain ⟨verdict, redirectUri, codeChallenge, rfl⟩ := hdata
  cases hbound : verdict.boundKeyId with
  | none => simp [codeDataOf, hbound, truthy]
  | some keyId => simp [codeDataOf, hbound] at hclient

variable {params : TokenParams}

theorem exchangeRefresh_backed {token : String} {data : TokenData}
    (hholds : server.Holds params secretKeyId) (hinherits : server.Inherits token data.boundKeyId) :
    server.Backed (exchangeRefresh params secretKeyId token data) := by
  intro keyId hkey
  rcases effectiveBoundId_cases hkey with hsecret | hbound
  · exact .inl (hholds keyId hsecret)
  · obtain ⟨parent, hmem, htype, htoken, hlineage⟩ := hinherits keyId hbound
    exact .inr ⟨parent, hmem, htype, congrArg Grant.refresh htoken.symm, hlineage⟩

variable {code : String} {exchange : Exchange}

theorem redeemCode_backed (hholds : server.Holds params secretKeyId)
    (hbound : data.boundByClient = false -> data.boundKeyId = none)
    (hok : redeemCode settings params secretKeyId code data now = .ok exchange) :
    server.Backed exchange := by
  unfold redeemCode at hok
  split at hok
  · cases hok
  · split at hok
    · cases hok
    · split at hok
      · cases hok
      · split at hok
        · cases hok
        · rename_i hclient
          cases hok
          intro keyId hkey
          left
          refine hholds keyId ?_
          rcases effectiveBoundId_cases hkey with hsecret | hcode
          · exact hsecret
          · cases hby : data.boundByClient with
            | false =>
              rw [hbound hby] at hcode
              cases hcode
            | true =>
              have hsame : secretKeyId = data.boundKeyId := by
                by_contra hne
                exact hclient ⟨hby, hne⟩
              rw [hsame, hcode]

namespace Server.Rooted

/-- What the server had stays rooted; only what is new has to be shown. -/
theorem carry (hrooted : before.Rooted) (hgrows : Grows before after)
    (hcodes : ∀ name data, after.codes name = some data ->
      before.codes name = some data \/ (data.boundByClient = false -> data.boundKeyId = none))
    (htokens : ∀ name data, after.tokens name = some data ->
      before.tokens name = some data \/
        ∃ issue ∈ after.issues, issue.token = name /\ issue.type = data.type /\
          issue.exchange.boundKeyId = data.boundKeyId)
    (hissues : ∀ issue ∈ after.issues, issue ∈ before.issues \/
      ∀ keyId, issue.exchange.boundKeyId = some keyId -> after.Lineage keyId issue)
    (hrequests : ∀ phase ∈ after.requests, phase ∈ before.requests \/ after.Justified phase) :
    after.Rooted where
  codes := by
    intro name data hdata
    rcases hcodes name data hdata with hold | hnew
    · exact hrooted.codes name data hold
    · exact hnew
  tokens := by
    intro name data hdata
    rcases htokens name data hdata with hold | hnew
    · obtain ⟨issue, hmem, hissue⟩ := hrooted.tokens name data hold
      exact ⟨issue, hgrows.issues issue hmem, hissue⟩
    · exact hnew
  issues := by
    intro issue hmem keyId hkey
    rcases hissues issue hmem with hold | hnew
    · exact hgrows.lineage (hrooted.issues issue hold keyId hkey)
    · exact hnew keyId hkey
  requests := by
    intro phase hmem
    rcases hrequests phase hmem with hold | hnew
    · exact hgrows.justified (hrooted.requests phase hold)
    · exact hnew

section

variable (hrooted : server.Rooted)
include hrooted

theorem justified {phase : Phase} (hphase : server.requests[request]? = some phase) :
    server.Justified phase :=
  hrooted.requests phase (mem_of_getElem? hphase)

theorem enter {phase : Phase} (hphase : server.Justified phase) :
    (server.enter request phase).Rooted := by
  have hgrows : Grows server (server.enter request phase) := ⟨fun _ => id, fun _ => id⟩
  refine hrooted.carry hgrows (fun _ _ => .inl) (fun _ _ => .inl) (fun _ => .inl) ?_
  intro other hother
  rcases mem_or_eq_of_mem_set hother with hold | rfl
  · exact .inl hold
  · exact .inr (hgrows.justified hphase)

theorem fail (failure : Failure) : (server.enter request (.failed failure)).Rooted :=
  hrooted.enter trivial

theorem eraseCode (name : String) : (server.eraseCode name).Rooted := by
  refine hrooted.carry ⟨fun _ => id, fun _ => id⟩ ?_ (fun _ _ => .inl) (fun _ => .inl)
    fun _ => .inl
  intro other data hdata
  left
  rcases Classical.em (other = name) with rfl | hne
  · simp [Server.eraseCode] at hdata
  · simpa [Server.eraseCode, hne] using hdata

theorem eraseToken (name : String) : (server.eraseToken name).Rooted := by
  refine hrooted.carry ⟨fun _ => id, fun _ => id⟩ (fun _ _ => .inl) ?_ (fun _ => .inl)
    fun _ => .inl
  intro other data hdata
  left
  rcases Classical.em (other = name) with rfl | hne
  · simp [Server.eraseToken] at hdata
  · simpa [Server.eraseToken, hne] using hdata

theorem discard (grant : Grant) : (server.discard grant).Rooted := by
  cases grant with
  | code name => exact hrooted
  | refresh name => exact hrooted.eraseToken name

theorem succeed (exchange : Exchange) : (server.succeed request exchange).Rooted := by
  have hentered : (server.enter request .succeeded).Rooted := hrooted.enter trivial
  exact hentered.carry ⟨fun _ => id, fun _ => id⟩ (fun _ _ => .inl) (fun _ _ => .inl)
    (fun _ => .inl) fun _ => .inl

theorem putCode {data : CodeData} (name : String) (saved : Bool)
    (hdata : data.boundByClient = false -> data.boundKeyId = none) :
    (server.putCode name data saved).Rooted := by
  refine hrooted.carry ⟨fun _ => id, fun _ => id⟩ ?_ (fun _ _ => .inl) (fun _ => .inl)
    fun _ => .inl
  intro other found hfound
  cases saved with
  | false => exact .inl hfound
  | true =>
    rcases Classical.em (other = name) with rfl | hne
    · obtain rfl : data = found := by simpa [Server.putCode] using hfound
      exact .inr hdata
    · exact .inl (by simpa [Server.putCode, hne] using hfound)

theorem verify (secret keyId : String) :
    Rooted { server with verified := server.verified ++ [(secret, keyId)] } :=
  hrooted.carry ⟨fun _ => id, fun _ => mem_append_left _⟩ (fun _ _ => .inl)
    (fun _ _ => .inl) (fun _ => .inl) fun _ => .inl

end

end Server.Rooted

theorem putToken_grows (server : Server) (settings : Settings) (type : TokenType) (name : String)
    (exchange : Exchange) (saved : Bool) :
    server.Grows (server.putToken settings type name exchange saved) where
  issues := fun _ => mem_append_left _
  verified := fun _ => id

theorem putToken_lineage {type : TokenType} {name : String} {saved : Bool}
    (hbacked : server.Backed exchange) (hkey : exchange.boundKeyId = some keyId) :
    (server.putToken settings type name exchange saved).Lineage keyId
      { token := name, type := type, exchange := exchange } := by
  have hgrows := putToken_grows server settings type name exchange saved
  have hnew : { token := name, type := type, exchange := exchange } ∈
      (server.putToken settings type name exchange saved).issues :=
    mem_append_right _ (mem_singleton.mpr rfl)
  rcases hbacked keyId hkey with hpresents | ⟨parent, hmem, htype, hgrant, hlineage⟩
  · exact ⟨_, hnew, hgrows.presents hpresents, .refl⟩
  · obtain ⟨root, hroot, hpresents, hchain⟩ := hgrows.lineage hlineage
    exact ⟨root, hroot, hpresents,
      hchain.tail ⟨hgrows.issues parent hmem, hnew, htype, hgrant⟩⟩

theorem Server.Rooted.putToken (hrooted : server.Rooted) (settings : Settings) (type : TokenType)
    (name : String) (saved : Bool) (hbacked : server.Backed exchange) :
    (server.putToken settings type name exchange saved).Rooted := by
  refine hrooted.carry (putToken_grows server settings type name exchange saved)
    (fun _ _ => .inl) ?_ ?_ fun _ => .inl
  · intro other data hdata
    cases saved with
    | false => exact .inl hdata
    | true =>
      rcases Classical.em (other = name) with rfl | hne
      · obtain rfl : exchange.tokenData settings type server.now = data := by
          simpa [Server.putToken] using hdata
        exact .inr ⟨_, mem_append_right _ (mem_singleton.mpr rfl), rfl, rfl, rfl⟩
      · exact .inl (by simpa [Server.putToken, hne] using hdata)
  · intro issue hmem
    rcases mem_append.mp hmem with hold | hnew
    · exact .inl hold
    · obtain rfl := mem_singleton.mp hnew
      exact .inr fun keyId hkey => putToken_lineage hbacked hkey

theorem resolveSecret_rooted (hrooted : server.Rooted) (params : TokenParams) (found : Bool) :
    (server.resolveSecret request params found).Rooted := by
  have hnone : (server.enter request (.resolved params none)).Rooted :=
    hrooted.enter fun keyId hkey => by cases hkey
  unfold Server.resolveSecret
  split
  · rename_i secret hsecret
    split
    · rename_i keyId _
      have hholds : Server.Holds { server with verified := server.verified ++ [(secret, keyId)] }
          params (some keyId) := by
        intro found hfound
        cases hfound
        exact ⟨secret, truthy_eq_some hsecret,
          mem_append_right _ (mem_singleton.mpr rfl)⟩
      have hverified := hrooted.verify secret keyId
      exact hverified.enter hholds
    · exact hnone
  · exact hnone

variable {found : Bool}

theorem readRefresh_rooted (hrooted : server.Rooted) (hholds : server.Holds params secretKeyId) :
    (server.readRefresh request params secretKeyId found).Rooted := by
  unfold Server.readRefresh
  split
  · exact hrooted.fail _
  · rename_i token _
    split
    · exact hrooted.fail _
    · rename_i data hdata
      split
      · exact hrooted.fail _
      · rename_i htype
        split
        · exact (hrooted.eraseToken token).fail _
        · have hstored : server.tokens token = some data := by
            cases found with
            | true => exact hdata
            | false => cases hdata
          refine hrooted.enter ⟨hholds, ?_⟩
          intro keyId hkey
          obtain ⟨issue, hmem, hname, hissue, hbound⟩ := hrooted.tokens token data hstored
          refine ⟨issue, hmem, ?_, hname, hrooted.issues issue hmem keyId (hbound.trans hkey)⟩
          rw [hissue]
          exact not_not.mp htype

theorem afterChecks_rooted (hrooted : server.Rooted) (hholds : server.Holds params secretKeyId)
    (hbound : data.boundByClient = false -> data.boundKeyId = none) :
    (server.afterChecks request
      (redeemCode settings params secretKeyId code data now)).Rooted := by
  cases hchecked : redeemCode settings params secretKeyId code data now with
  | error failure => exact hrooted.fail failure
  | ok exchange => exact hrooted.enter (redeemCode_backed hholds hbound hchecked)

theorem readCode_rooted (hrooted : server.Rooted) (hholds : server.Holds params secretKeyId) :
    (server.readCode settings request params secretKeyId found).Rooted := by
  unfold Server.readCode
  split
  · exact hrooted.fail _
  · exact hrooted.fail _
  · rename_i code _ _ _
    split
    · exact hrooted.fail _
    · rename_i data hdata
      have hstored : server.codes code = some data := by
        cases found with
        | true => exact hdata
        | false => cases hdata
      have hbound := hrooted.codes code data hstored
      split
      · exact hrooted.enter ⟨hholds, hbound⟩
      · exact afterChecks_rooted (hrooted.eraseCode code) hholds hbound

theorem readGrant_rooted (hrooted : server.Rooted) (hholds : server.Holds params secretKeyId) :
    (server.readGrant settings request params secretKeyId found).Rooted := by
  unfold Server.readGrant
  split
  · exact readRefresh_rooted hrooted hholds
  · split
    · exact readCode_rooted hrooted hholds
    · exact hrooted.fail _

theorem judgeRefresh_rooted (hrooted : server.Rooted) {token : String} {data : TokenData}
    {retired : Bool} (hholds : server.Holds params secretKeyId)
    (hinherits : server.Inherits token data.boundKeyId) :
    (server.judgeRefresh request params secretKeyId token data retired).Rooted := by
  unfold Server.judgeRefresh
  split
  · exact hrooted.fail _
  · exact hrooted.enter (exchangeRefresh_backed hholds hinherits)

theorem step_rooted {event : Event} (hrooted : before.Rooted)
    (hstep : before.step settings event = some after) : after.Rooted := by
  cases event with
  | advance elapsed =>
    cases hstep
    exact hrooted.carry ⟨fun _ => id, fun _ => id⟩ (fun _ _ => .inl) (fun _ _ => .inl)
      (fun _ => .inl) fun _ => .inl
  | rekey keyOfSecret =>
    cases hstep
    exact hrooted.carry ⟨fun _ => id, fun _ => id⟩ (fun _ _ => .inl) (fun _ _ => .inl)
      (fun _ => .inl) fun _ => .inl
  | expireCode name =>
    cases hstep
    exact hrooted.eraseCode name
  | expireToken name =>
    cases hstep
    exact hrooted.eraseToken name
  | authorize params lookups code saved =>
    simp only [Server.step] at hstep
    split at hstep
    · cases hstep
      exact hrooted
    · rename_i data hdata
      split at hstep
      · cases hstep
      · cases hstep
        exact hrooted.putCode code _ (handleAuthorize_bound hdata)
  | receive params =>
    cases hstep
    refine hrooted.carry ⟨fun _ => id, fun _ => id⟩ (fun _ _ => .inl) (fun _ _ => .inl)
      (fun _ => .inl) ?_
    intro phase hmem
    rcases mem_append.mp hmem with hold | hnew
    · exact .inl hold
    · obtain rfl := mem_singleton.mp hnew
      exact .inr trivial
  | resolve request found =>
    simp only [Server.step] at hstep
    split at hstep
    · cases hstep
      exact resolveSecret_rooted hrooted _ found
    · cases hstep
  | read request found =>
    simp only [Server.step] at hstep
    split at hstep
    · rename_i params secretKeyId hphase
      cases hstep
      exact readGrant_rooted hrooted (hrooted.justified hphase)
    · cases hstep
  | consume request consumed =>
    simp only [Server.step] at hstep
    split at hstep
    · rename_i params secretKeyId code data hphase
      obtain ⟨hholds, hbound⟩ := hrooted.justified hphase
      split at hstep
      · cases hstep
        exact afterChecks_rooted (hrooted.eraseCode code) hholds hbound
      · cases hstep
        exact hrooted.fail _
    · cases hstep
  | judge request retired =>
    simp only [Server.step] at hstep
    split at hstep
    · rename_i params secretKeyId token data hphase
      obtain ⟨hholds, hinherits⟩ := hrooted.justified hphase
      cases hstep
      exact judgeRefresh_rooted hrooted hholds hinherits
    · cases hstep
  | save request token saved =>
    simp only [Server.step] at hstep
    split at hstep
    · rename_i exchange _ hphase
      have hbacked : before.Backed exchange := hrooted.justified hphase
      split at hstep
      · cases hstep
      · cases hstep
        exact (hrooted.putToken settings .access token saved hbacked).enter
          ((putToken_grows before settings .access token exchange saved).backed hbacked)
    · cases hstep
  | saveRefresh request token saved =>
    simp only [Server.step] at hstep
    split at hstep
    · rename_i exchange hphase
      have hbacked : before.Backed exchange := hrooted.justified hphase
      split at hstep
      · cases hstep
      · cases hstep
        have hput := hrooted.putToken settings .refresh token saved hbacked
        unfold Server.afterSaves
        split
        · exact hput.succeed exchange
        · exact hput.enter
            ((putToken_grows before settings .refresh token exchange saved).backed hbacked)
    · cases hstep
  | delete request deleted =>
    simp only [Server.step] at hstep
    split at hstep
    · rename_i exchange hphase
      cases hstep
      cases deleted with
      | true => exact (hrooted.discard exchange.grant).succeed exchange
      | false => exact hrooted.succeed exchange
    · cases hstep
  | issue request access refresh =>
    simp only [Server.step] at hstep
    split at hstep
    · rename_i exchange _ hphase
      have hbacked : before.Backed exchange := hrooted.justified hphase
      split at hstep
      · cases hstep
      · cases hstep
        have hfirst := hrooted.putToken settings .access access true hbacked
        have hsecond := hfirst.putToken settings .refresh refresh true
          ((putToken_grows before settings .access access exchange true).backed hbacked)
        exact (hsecond.discard exchange.grant).succeed exchange
    · cases hstep

theorem initial_rooted (now : Int) (keyOfSecret : String -> Option String) :
    (Server.initial now keyOfSecret).Rooted where
  codes := fun _ _ hdata => by cases hdata
  tokens := fun _ _ hdata => by cases hdata
  issues := fun _ hmem => by cases hmem
  requests := fun _ hmem => by cases hmem

theorem afterChecks_verified (checked : Except Failure Exchange) :
    (server.afterChecks request checked).verified = server.verified := by
  cases checked <;> rfl

theorem readGrant_verified (params : TokenParams) (secretKeyId : Option String) (found : Bool) :
    (server.readGrant settings request params secretKeyId found).verified = server.verified := by
  unfold Server.readGrant Server.readRefresh Server.readCode
  repeat' split
  all_goals first | rfl | exact afterChecks_verified _

theorem judgeRefresh_verified (params : TokenParams) (secretKeyId : Option String) (token : String)
    (data : TokenData) (retired : Bool) :
    (server.judgeRefresh request params secretKeyId token data retired).verified =
      server.verified := by
  unfold Server.judgeRefresh
  split <;> rfl

theorem discard_verified (grant : Grant) : (server.discard grant).verified = server.verified := by
  cases grant <;> rfl

variable {secret : String}

theorem resolveSecret_verified
    (hmem : (secret, keyId) ∈ (server.resolveSecret request params found).verified) :
    (secret, keyId) ∈ server.verified \/ server.keyOfSecret secret = some keyId := by
  unfold Server.resolveSecret at hmem
  split at hmem
  · split at hmem
    · rename_i owner howner
      rcases mem_append.mp hmem with hold | hnew
      · exact .inl hold
      · obtain ⟨rfl, rfl⟩ := Prod.mk.inj (mem_singleton.mp hnew)
        cases found with
        | true => exact .inr howner
        | false => cases howner
    · exact .inl hmem
  · exact .inl hmem

theorem step_verified {event : Event} (hstep : before.step settings event = some after)
    (hmem : (secret, keyId) ∈ after.verified) :
    (secret, keyId) ∈ before.verified \/ before.keyOfSecret secret = some keyId := by
  cases event with
  | advance elapsed =>
    cases hstep
    exact .inl hmem
  | rekey keyOfSecret =>
    cases hstep
    exact .inl hmem
  | expireCode name =>
    cases hstep
    exact .inl hmem
  | expireToken name =>
    cases hstep
    exact .inl hmem
  | authorize params lookups code saved =>
    simp only [Server.step] at hstep
    split at hstep
    · cases hstep
      exact .inl hmem
    · split at hstep
      · cases hstep
      · cases hstep
        exact .inl hmem
  | receive params =>
    cases hstep
    exact .inl hmem
  | resolve request found =>
    simp only [Server.step] at hstep
    split at hstep
    · cases hstep
      exact resolveSecret_verified hmem
    · cases hstep
  | read request found =>
    simp only [Server.step] at hstep
    split at hstep
    · cases hstep
      rw [readGrant_verified] at hmem
      exact .inl hmem
    · cases hstep
  | consume request consumed =>
    simp only [Server.step] at hstep
    split at hstep
    · split at hstep
      · cases hstep
        rw [afterChecks_verified] at hmem
        exact .inl hmem
      · cases hstep
        exact .inl hmem
    · cases hstep
  | judge request retired =>
    simp only [Server.step] at hstep
    split at hstep
    · cases hstep
      rw [judgeRefresh_verified] at hmem
      exact .inl hmem
    · cases hstep
  | save request token saved =>
    simp only [Server.step] at hstep
    split at hstep
    · split at hstep
      · cases hstep
      · cases hstep
        exact .inl hmem
    · cases hstep
  | saveRefresh request token saved =>
    simp only [Server.step] at hstep
    split at hstep
    · split at hstep
      · cases hstep
      · cases hstep
        unfold Server.afterSaves at hmem
        split at hmem <;> exact .inl hmem
    · cases hstep
  | delete request deleted =>
    simp only [Server.step] at hstep
    split at hstep
    · rename_i exchange hphase
      cases hstep
      left
      cases deleted with
      | true =>
        have hdiscarded : (secret, keyId) ∈ (before.discard exchange.grant).verified := hmem
        rwa [discard_verified] at hdiscarded
      | false => exact hmem
    · cases hstep
  | issue request access refresh =>
    simp only [Server.step] at hstep
    split at hstep
    · rename_i exchange _ hphase
      split at hstep
      · cases hstep
      · cases hstep
        left
        have hdiscarded : (secret, keyId) ∈ (((before.putToken settings .access access exchange
            true).putToken settings .refresh refresh exchange true).discard
              exchange.grant).verified := hmem
        rwa [discard_verified] at hdiscarded
    · cases hstep

theorem run_verified {first last : Server} {events : List Event}
    (hrun : (system settings).Run first events last) (hmem : (secret, keyId) ∈ last.verified) :
    (secret, keyId) ∈ first.verified \/
      ∃ front back middle, events = front ++ back /\
        (system settings).Run first front middle /\ (system settings).Run middle back last /\
          middle.keyOfSecret secret = some keyId := by
  induction hrun with
  | nil state => exact .inl hmem
  | @cons first next last event events hstep hrest ih =>
    rcases ih hmem with hnext | ⟨front, back, middle, rfl, hfront, hback, hkey⟩
    · rcases step_verified hstep hnext with hold | hkey
      · exact .inl hold
      · exact .inr ⟨[], event :: events, first, rfl, .nil first, .cons hstep hrest, hkey⟩
    · exact .inr ⟨event :: front, back, middle, rfl, .cons hstep hfront, hback, hkey⟩

theorem presents_of_lineage_code {issue : Issue} (hlineage : server.Lineage keyId issue)
    (hgrant : issue.exchange.grant = .code code) : server.Presents keyId issue.exchange := by
  obtain ⟨root, _, hpresents, hchain⟩ := hlineage
  cases hchain with
  | refl => exact hpresents
  | tail _ hlast =>
    rw [hlast.grant_eq] at hgrant
    cases hgrant

/--
In either mode and in every run, a token bound to a key was issued to a request that
presented a secret of the key, or descends through refreshes from such a token; a token
got for a code was itself issued to such a request.  The key store named the key for that
secret during the run.
-/
theorem bound_token_lineage (settings : Settings) (now : Int)
    (keyOfSecret : String -> Option String) {server : Server} {events : List Event}
    (hrun : (system settings).Run (.initial now keyOfSecret) events server) (keyId : String) :
    (∀ issue ∈ server.issues, issue.exchange.boundKeyId = some keyId ->
        server.Lineage keyId issue /\
          ∀ code, issue.exchange.grant = .code code ->
            server.Presents keyId issue.exchange) /\
      (∀ name data, server.tokens name = some data -> data.boundKeyId = some keyId ->
        ∃ issue ∈ server.issues, issue.token = name /\ issue.type = data.type /\
          issue.exchange.boundKeyId = some keyId) /\
      ∀ secret, (secret, keyId) ∈ server.verified ->
        ∃ front back middle, events = front ++ back /\
          (system settings).Run (.initial now keyOfSecret) front middle /\
            (system settings).Run middle back server /\
              middle.keyOfSecret secret = some keyId := by
  have hkeep : ∀ before event after, Server.Rooted before ->
      (system settings).step before event after -> Server.Rooted after :=
    fun before event after hrooted hstep => step_rooted hrooted hstep
  have hrooted : server.Rooted := hrun.preserves hkeep (initial_rooted now keyOfSecret)
  refine ⟨?_, ?_, ?_⟩
  · intro issue hmem hkey
    have hlineage := hrooted.issues issue hmem keyId hkey
    exact ⟨hlineage, fun code hgrant => presents_of_lineage_code hlineage hgrant⟩
  · intro name data hdata hkey
    obtain ⟨issue, hmem, hname, htype, hbound⟩ := hrooted.tokens name data hdata
    exact ⟨issue, hmem, hname, htype, hbound.trans hkey⟩
  · intro secret hmem
    rcases run_verified hrun hmem with hnone | hduring
    · cases hnone
    · exact hduring

/-- A client registered under a key's id redeems a code with the key's secret, and
refreshes without it. -/
def boundClient : List Event :=
  [.authorize
      { responseType := some "code"
        clientId := some "desktop_0f8fad5b"
        redirectUri := some "http://localhost/cb"
        codeChallenge := some "E9Melhoa2OwvFrEMTJguCHaoeK1t8URWbuGJSstw-cM"
        codeChallengeMethod := some "S256" }
      { clientIsKey := some false
        client := some
          { clientName := some "apikey:0f8fad5b-d9cb-469f-a165-70867728950e"
            redirectUris := ["http://localhost/cb"] }
        keyIsValid := fun _ => true } "code" true,
    .receive
      { grantType := some "authorization_code"
        code := some "code"
        redirectUri := some "http://localhost/cb"
        codeVerifier := some "dBjftJeZ4CVP-mB92K27uhbUJU1p1r_wW1gFWFOEjXk"
        clientSecret := some "secret" },
    .resolve 0 true, .read 0 true, .issue 0 "access1" "refresh1",
    .receive { grantType := some "refresh_token", refreshToken := some "refresh1" },
    .resolve 1 true, .read 1 true, .judge 1 false, .issue 1 "access2" "refresh2"]

def boundSettings : Settings where
  mode := .memory
  accessKey := none
  codeTtlMs := 600000
  tokenTtlMs := 3600000
  refreshTtlMs := 604800000
  isAllowedRedirectUri := fun _ => false
  challengeOf := fun _ => "E9Melhoa2OwvFrEMTJguCHaoeK1t8URWbuGJSstw-cM"

def boundKeyOfSecret (secret : String) : Option String :=
  if secret = "secret" then some "0f8fad5b-d9cb-469f-a165-70867728950e" else none

theorem bound_token_lineage_boundClient :
    ∃ (server : Server) (issue : Issue), issue ∈ server.issues /\ issue.token = "access2" /\
      issue.exchange.grant = .refresh "refresh1" /\
        server.Lineage "0f8fad5b-d9cb-469f-a165-70867728950e" issue := by
  have hfollow : (System.follow (Server.step boundSettings)
      (Server.initial 0 boundKeyOfSecret) boundClient).map (fun server =>
        server.issues.any fun issue => decide (issue.token = "access2" /\
          issue.exchange.grant = .refresh "refresh1" /\
            issue.exchange.boundKeyId = some "0f8fad5b-d9cb-469f-a165-70867728950e")) =
      some true := by
    decide +kernel
  obtain ⟨server, hlast, hseen⟩ := Option.map_eq_some_iff.mp hfollow
  obtain ⟨issue, hmem, hissue⟩ := any_eq_true.mp hseen
  obtain ⟨htoken, hgrant, hkey⟩ := of_decide_eq_true hissue
  have hrun : (system boundSettings).Run (.initial 0 boundKeyOfSecret) boundClient server :=
    .of_follow (fun _ _ _ hstep => hstep) hlast
  have hlineage :=
    (bound_token_lineage boundSettings 0 boundKeyOfSecret hrun _).1 issue hmem hkey
  exact ⟨server, issue, hmem, htoken, hgrant, hlineage.1⟩

end AnchorMind.Oauth
