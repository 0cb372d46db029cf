import Mathlib.Logic.Function.Basic
import AnchorMind.Kernel.Transition

/-!
# The OAuth server

`/authorize` stores a code; `/token` exchanges a code, or a refresh token, for an access and a
refresh token.  Codes and tokens live in Redis or in maps of the process.  A token request
moves from one `await` to the next, and other requests run in between.  A run also records
which grants were exchanged and which tokens were issued for whom.
-/

namespace AnchorMind.Oauth

open Kernel.Transition Function

inductive Mode where
  | redis
  | memory
  deriving DecidableEq

structure Settings where
  mode : Mode
  accessKey : Option String
  codeTtlMs : Int
  tokenTtlMs : Int
  refreshTtlMs : Int
  isAllowedRedirectUri : String -> Bool
  challengeOf : String -> String

structure CodeData where
  clientId : Option String
  redirectUri : String
  codeChallenge : String
  scope : String
  state : Option String
  isApiKey : Bool
  boundKeyId : Option String
  boundByClient : Bool
  resource : Option String
  createdAt : Int
  expiresAt : Int
  deriving DecidableEq

inductive TokenType where
  | access
  | refresh
  deriving DecidableEq

structure TokenData where
  type : TokenType
  clientId : Option String
  scope : String
  isApiKey : Bool
  boundKeyId : Option String
  resource : Option String
  createdAt : Int
  expiresAt : Int
  deriving DecidableEq

structure Failure where
  error : String
  description : String
  deriving DecidableEq

/-- A string parameter that JavaScript takes as true. -/
def truthy (value : Option String) : Option String :=
  value.filter fun text => decide (text ≠ "")

structure AuthorizeParams where
  responseType : Option String
  clientId : Option String
  redirectUri : Option String
  codeChallenge : Option String
  codeChallengeMethod : Option String
  state : Option String := none
  scope : Option String := none
  resource : Option String := none

structure OAuthClient where
  clientName : Option String
  redirectUris : List String

/-- What the key store and the client table answer; a lookup that throws answers `none`. -/
structure AuthorizeLookups where
  clientIsKey : Option Bool
  client : Option OAuthClient
  keyIsValid : String -> Bool

def isHexOrDash (char : Char) : Bool :=
  ('0' ≤ char && char ≤ '9') || ('a' ≤ char.toLower && char.toLower ≤ 'f') || char = '-'

/-- `/^apikey:([0-9a-f-]{36})$/i` -/
def markedKeyId (clientName : String) : Option String :=
  let chars := clientName.toList
  let rest := chars.drop 7
  if (chars.take 7).map Char.toLower = "apikey:".toList ∧ rest.length =
    36 ∧ rest.all isHexOrDash then
    some (String.ofList rest)
  else none

def expectedSuffix (keyId : String) : List Char :=
  ('_' :: (keyId.toList.filter fun char => decide (char ≠ '-')).take 8).map Char.toLower

def registeredKeyId (lookups : AuthorizeLookups) (clientId : Option String)
    (client : OAuthClient) : Option String :=
  match markedKeyId (client.clientName.getD "") with
  | none => none
  | some keyId =>
    if (expectedSuffix keyId).isSuffixOf ((clientId.getD "undefined").toList.map Char.toLower) &&
        lookups.keyIsValid keyId then
      some keyId
    else none

structure ClientVerdict where
  client : Option OAuthClient
  isApiKey : Bool
  boundKeyId : Option String

def isAccessKey (settings : Settings) (clientId : Option String) : Bool :=
  match truthy settings.accessKey with
  | some accessKey => decide (clientId.getD "" = accessKey)
  | none => false

def identifyClient (settings : Settings) (lookups : AuthorizeLookups) (clientId : Option String)
    (redirectUri : String) : Except Failure ClientVerdict :=
  if isAccessKey settings clientId then .ok ⟨none, false, none⟩
  else if lookups.clientIsKey = some true then .ok ⟨none, true, none⟩
  else
    match lookups.client with
    | some client =>
      let bound := registeredKeyId lookups clientId client
      .ok ⟨some client, bound.isSome, bound⟩
    | none =>
      if settings.isAllowedRedirectUri redirectUri then .ok ⟨none, false, none⟩
      else .error ⟨"invalid_client", "Invalid client_id"⟩

def redirectAllowed (settings : Settings) (verdict : ClientVerdict) (redirectUri : String) :
    Except Failure Unit :=
  match verdict.client with
  | some client =>
    if client.redirectUris.contains redirectUri then .ok ()
    else .error ⟨"invalid_request", "redirect_uri not registered for this client"⟩
  | none =>
    if settings.isAllowedRedirectUri redirectUri then .ok ()
    else .error ⟨"invalid_request", "redirect_uri is not allowed"⟩

def codeDataOf (settings : Settings) (params : AuthorizeParams) (verdict : ClientVerdict)
    (redirectUri codeChallenge : String) (now : Int) : CodeData where
  clientId := params.clientId
  redirectUri := redirectUri
  codeChallenge := codeChallenge
  scope := (truthy params.scope).getD "mcp"
  state := params.state
  isApiKey := verdict.isApiKey
  boundKeyId := truthy verdict.boundKeyId
  boundByClient := verdict.boundKeyId.isSome
  resource := truthy params.resource
  createdAt := now
  expiresAt := now + settings.codeTtlMs

/-- The data of the code `handleAuthorize` stores. -/
def handleAuthorize (settings : Settings) (lookups : AuthorizeLookups)
    (params : AuthorizeParams) (now : Int) : Except Failure CodeData :=
  if params.responseType ≠ some "code" then
    .error ⟨"unsupported_response_type", "Only 'code' response type is supported"⟩
  else
    match truthy params.redirectUri, truthy params.codeChallenge with
    | none, _ => .error ⟨"invalid_request", "redirect_uri is required"⟩
    | some _, none => .error ⟨"invalid_request", "code_challenge is required (PKCE)"⟩
    | some redirectUri, some codeChallenge =>
      if params.codeChallengeMethod ≠ some "S256" then
        .error ⟨"invalid_request", "Only S256 code_challenge_method is supported"⟩
      else do
        let verdict <- identifyClient settings lookups params.clientId redirectUri
        redirectAllowed settings verdict redirectUri
        .ok (codeDataOf settings params verdict redirectUri codeChallenge now)

structure TokenParams where
  grantType : Option String
  code : Option String := none
  redirectUri : Option String := none
  codeVerifier : Option String := none
  refreshToken : Option String := none
  clientSecret : Option String := none
  resource : Option String := none
  deriving DecidableEq

/-- What a token request exchanges. -/
inductive Grant where
  | code (name : String)
  | refresh (name : String)
  deriving DecidableEq

def Grant.name : Grant -> String
  | .code name => name
  | .refresh name => name

/-- What the new tokens carry, with the secret the request presented and the key it was
found to belong to. -/
structure Exchange where
  grant : Grant
  clientId : Option String
  scope : String
  isApiKey : Bool
  boundKeyId : Option String
  resource : Option String
  secret : Option String
  secretKeyId : Option String
  deriving DecidableEq

/-- `secretBoundKeyId || data.bound_key_id || null` -/
def effectiveBoundId (secretKeyId boundKeyId : Option String) : Option String :=
  (truthy secretKeyId).or (truthy boundKeyId)

def exchangeRefresh (params : TokenParams) (secretKeyId : Option String) (token : String)
    (data : TokenData) : Exchange where
  grant := .refresh token
  clientId := data.clientId
  scope := data.scope
  isApiKey := (effectiveBoundId secretKeyId data.boundKeyId).isSome || data.isApiKey
  boundKeyId := effectiveBoundId secretKeyId data.boundKeyId
  resource := (truthy params.resource).or (truthy data.resource)
  secret := params.clientSecret
  secretKeyId := secretKeyId

def exchangeCode (params : TokenParams) (secretKeyId : Option String) (code : String)
    (data : CodeData) : Exchange where
  grant := .code code
  clientId := data.clientId
  scope := data.scope
  isApiKey := (effectiveBoundId secretKeyId data.boundKeyId).isSome || data.isApiKey
  boundKeyId := effectiveBoundId secretKeyId data.boundKeyId
  resource := (truthy params.resource).or (truthy data.resource)
  secret := params.clientSecret
  secretKeyId := secretKeyId

def redeemCode (settings : Settings) (params : TokenParams) (secretKeyId : Option String)
    (code : String) (data : CodeData) (now : Int) : Except Failure Exchange :=
  if data.expiresAt < now then .error ⟨"invalid_grant", "Authorization code expired"⟩
  else if some data.redirectUri ≠ params.redirectUri then
    .error ⟨"invalid_grant", "redirect_uri mismatch"⟩
  else if settings.challengeOf (params.codeVerifier.getD "") ≠ data.codeChallenge then
    .error ⟨"invalid_grant", "code_verifier validation failed"⟩
  else if data.boundByClient = true ∧ secretKeyId ≠ data.boundKeyId then
    .error ⟨"invalid_client", "client authentication required"⟩
  else .ok (exchangeCode params secretKeyId code data)

def Exchange.tokenData (exchange : Exchange) (settings : Settings) (type : TokenType)
    (now : Int) : TokenData where
  type := type
  clientId := exchange.clientId
  scope := exchange.scope
  isApiKey := exchange.isApiKey
  boundKeyId := exchange.boundKeyId
  resource := exchange.resource
  createdAt := now
  expiresAt := now + match type with
    | .access => settings.tokenTtlMs
    | .refresh => settings.refreshTtlMs

inductive Phase where
  | received (params : TokenParams)
  | resolved (params : TokenParams) (secretKeyId : Option String)
  | judging (params : TokenParams) (secretKeyId : Option String) (token : String)
      (data : TokenData)
  | holding (params : TokenParams) (secretKeyId : Option String) (code : String)
      (data : CodeData)
  | saving (exchange : Exchange)
  | savingRefresh (exchange : Exchange)
  | deleting (exchange : Exchange)
  | succeeded
  | failed (failure : Failure)
  deriving DecidableEq

structure Issue where
  token : String
  type : TokenType
  exchange : Exchange
  deriving DecidableEq

structure Server where
  now : Int
  keyOfSecret : String -> Option String
  codes : String -> Option CodeData
  tokens : String -> Option TokenData
  requests : List Phase
  drawn : List String
  exchanged : List Grant
  issues : List Issue
  verified : List (String × String)

inductive Event where
  | advance (elapsed : Nat)
  | rekey (keyOfSecret : String -> Option String)
  | expireCode (name : String)
  | expireToken (name : String)
  | authorize (params : AuthorizeParams) (lookups : AuthorizeLookups) (code : String)
      (saved : Bool)
  | receive (params : TokenParams)
  | resolve (request : Nat) (found : Bool)
  | read (request : Nat) (found : Bool)
  | consume (request : Nat) (consumed : Bool)
  | judge (request : Nat) (retired : Bool)
  | save (request : Nat) (token : String) (saved : Bool)
  | saveRefresh (request : Nat) (token : String) (saved : Bool)
  | delete (request : Nat) (deleted : Bool)
  | issue (request : Nat) (access refresh : String)

namespace Server

def initial (now : Int) (keyOfSecret : String -> Option String) : Server where
  now := now
  keyOfSecret := keyOfSecret
  codes := fun _ => none
  tokens := fun _ => none
  requests := []
  drawn := []
  exchanged := []
  issues := []
  verified := []

def enter (server : Server) (request : Nat) (phase : Phase) : Server :=
  { server with requests := server.requests.set request phase }

def eraseCode (server : Server) (name : String) : Server :=
  { server with codes := update server.codes name none }

def eraseToken (server : Server) (name : String) : Server :=
  { server with tokens := update server.tokens name none }

def putCode (server : Server) (name : String) (data : CodeData) (saved : Bool) : Server :=
  { server with
    codes := if saved then update server.codes name (some data) else server.codes
    drawn := server.drawn ++ [name] }

def putToken (server : Server) (settings : Settings) (type : TokenType) (name : String)
    (exchange : Exchange) (saved : Bool) : Server :=
  { server with
    tokens :=
      if saved then
        update server.tokens name (some (exchange.tokenData settings type server.now))
      else server.tokens
    drawn := server.drawn ++ [name]
    issues := server.issues ++ [{ token := name, type := type, exchange := exchange }] }

/-- The response with the new tokens. -/
def succeed (server : Server) (request : Nat) (exchange : Exchange) : Server :=
  { server.enter request .succeeded with
    exchanged := server.exchanged ++ [exchange.grant] }

/-- `resolveSecretBoundKeyId`; a failed lookup finds no key. -/
def resolveSecret (server : Server) (request : Nat) (params : TokenParams) (found : Bool) :
    Server :=
  match truthy params.clientSecret with
  | some secret =>
    match (if found then server.keyOfSecret secret else none) with
    | some keyId =>
      { server.enter request (.resolved params (some keyId)) with
        verified := server.verified ++ [(secret, keyId)] }
    | none => server.enter request (.resolved params none)
  | none => server.enter request (.resolved params none)

def readRefresh (server : Server) (request : Nat) (params : TokenParams)
    (secretKeyId : Option String) (found : Bool) : Server :=
  match truthy params.refreshToken with
  | none => server.enter request (.failed ⟨"invalid_request", "refresh_token is required"⟩)
  | some token =>
    match (if found then server.tokens token else none) with
    | none => server.enter request (.failed ⟨"invalid_grant", "Invalid refresh token"⟩)
    | some data =>
      if data.type ≠ .refresh then
        server.enter request (.failed ⟨"invalid_grant", "Invalid refresh token"⟩)
      else if data.expiresAt < server.now then
        (server.eraseToken token).enter request
          (.failed ⟨"invalid_grant", "Refresh token expired"⟩)
      else server.enter request (.judging params secretKeyId token data)

def afterChecks (server : Server) (request : Nat) (checked : Except Failure Exchange) : Server :=
  match checked with
  | .ok exchange => server.enter request (.saving exchange)
  | .error failure => server.enter request (.failed failure)

def readCode (server : Server) (settings : Settings) (request : Nat) (params : TokenParams)
    (secretKeyId : Option String) (found : Bool) : Server :=
  match truthy params.code, truthy params.codeVerifier with
  | none, _ => server.enter request (.failed ⟨"invalid_request", "code is required"⟩)
  | some _, none =>
    server.enter request (.failed ⟨"invalid_request", "code_verifier is required (PKCE)"⟩)
  | some code, some _ =>
    match (if found then server.codes code else none) with
    | none => server.enter request (.failed ⟨"invalid_grant", "Invalid authorization code"⟩)
    | some data =>
      match settings.mode with
      | .redis => server.enter request (.holding params secretKeyId code data)
      | .memory =>
        (server.eraseCode code).afterChecks request
          (redeemCode settings params secretKeyId code data server.now)

def readGrant (server : Server) (settings : Settings) (request : Nat) (params : TokenParams)
    (secretKeyId : Option String) (found : Bool) : Server :=
  if params.grantType = some "refresh_token" then
    server.readRefresh request params secretKeyId found
  else if params.grantType = some "authorization_code" then
    server.readCode settings request params secretKeyId found
  else
    server.enter request (.failed ⟨"unsupported_grant_type",
      "Only authorization_code and refresh_token are supported"⟩)

/-- `refreshBindingRetired` looks at the key only for a binding the request did not renew. -/
def judgeRefresh (server : Server) (request : Nat) (params : TokenParams)
    (secretKeyId : Option String) (token : String) (data : TokenData) (retired : Bool) : Server :=
  if retired && (truthy secretKeyId).isNone && (truthy data.boundKeyId).isSome then
    server.enter request
      (.failed ⟨"invalid_grant", "Refresh token was issued before the key was rotated"⟩)
  else server.enter request (.saving (exchangeRefresh params secretKeyId token data))

def afterSaves (server : Server) (request : Nat) (exchange : Exchange) : Server :=
  match exchange.grant with
  | .code _ => server.succeed request exchange
  | .refresh _ => server.enter request (.deleting exchange)

def discard (server : Server) : Grant -> Server
  | .code _ => server
  | .refresh token => server.eraseToken token

def finds (settings : Settings) (found : Bool) : Bool :=
  match settings.mode with
  | .redis => found
  | .memory => true

def step (settings : Settings) (server : Server) : Event -> Option Server
  | .advance elapsed => some { server with now := server.now + elapsed }
  | .rekey keyOfSecret => some { server with keyOfSecret := keyOfSecret }
  | .expireCode name => some (server.eraseCode name)
  | .expireToken name => some (server.eraseToken name)
  | .authorize params lookups code saved =>
    match handleAuthorize settings lookups params server.now with
    | .error _ => some server
    | .ok data =>
      if code ∈ server.drawn then none
      else some (server.putCode code data (finds settings saved))
  | .receive params => some { server with requests := server.requests ++ [.received params] }
  | .resolve request found =>
    match server.requests[request]? with
    | some (.received params) => some (server.resolveSecret request params found)
    | _ => none
  | .read request found =>
    match server.requests[request]? with
    | some (.resolved params secretKeyId) =>
      some (server.readGrant settings request params secretKeyId (finds settings found))
    | _ => none
  | .consume request consumed =>
    match server.requests[request]? with
    | some (.holding params secretKeyId code data) =>
      if consumed then
        some ((server.eraseCode code).afterChecks request
          (redeemCode settings params secretKeyId code data server.now))
      else
        some (server.enter request
          (.failed ⟨"invalid_grant", "Invalid authorization code"⟩))
    | _ => none
  | .judge request retired =>
    match server.requests[request]? with
    | some (.judging params secretKeyId token data) =>
      some (server.judgeRefresh request params secretKeyId token data retired)
    | _ => none
  | .save request token saved =>
    match settings.mode, server.requests[request]? with
    | .redis, some (.saving exchange) =>
      if token ∈ server.drawn then none
      else
        some ((server.putToken settings .access token exchange saved).enter request
          (.savingRefresh exchange))
    | _, _ => none
  | .saveRefresh request token saved =>
    match server.requests[request]? with
    | some (.savingRefresh exchange) =>
      if token ∈ server.drawn then none
      else
        some ((server.putToken settings .refresh token exchange saved).afterSaves request
          exchange)
    | _ => none
  | .delete request deleted =>
    match server.requests[request]? with
    | some (.deleting exchange) =>
      let left := if deleted then server.discard exchange.grant else server
      some (left.succeed request exchange)
    | _ => none
  | .issue request access refresh =>
    match settings.mode, server.requests[request]? with
    | .memory, some (.saving exchange) =>
      if access ∈ server.drawn ∨ refresh ∈ server.drawn ∨ access = refresh then none
      else
        let stored := (server.putToken settings .access access exchange true).putToken
          settings .refresh refresh exchange true
        some ((stored.discard exchange.grant).succeed request exchange)
    | _, _ => none

end Server

def system (settings : Settings) : System Server Event where
  start := fun server => exists now keyOfSecret, server = .initial now keyOfSecret
  step := fun before event after => before.step settings event = some after

end AnchorMind.Oauth
