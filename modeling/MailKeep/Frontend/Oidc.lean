import MailKeep.Frontend.OidcState
import MailKeep.Program.Machine
import MailKeep.Users.Requests

/-! Single sign-on: the client that is discovered when it is needed, and the two ends of the authorization code flow. -/
namespace MailKeep
open Program

structure OidcConfig where
  discoveryUrl : Option String
  clientId : Option String
  clientSecret : Option String
  buttonLabel : Option String

def OidcConfig.DEFAULT_BUTTON_LABEL : String := "Sign in with SSO"

def OidcConfig.label (config : OidcConfig) : String := config.buttonLabel.getD DEFAULT_BUTTON_LABEL

inductive OidcInitError
  | invalidDiscoveryUrl (message : String)
  | invalidRedirectUrl (message : String)
  | discoveryFailed (message : String)
  | httpClientFailed (message : String)

/-- `metadata` is what the provider has answered to the discovery, and `store` the client's own map of flows. -/
structure OidcClient where
  metadata : String
  clientId : String
  clientSecret : String
  redirect : String
  store : Nat

structure IdTokenClaims where
  email : Option String

/-- What the server takes from the library: the two URL parsers, the authorization URL of a flow, and which claims the
verifier reads from an ID token that it accepts for a nonce. -/
structure OidcLibrary where
  issuerUrl : String → Except String String
  redirectUrl : String → Except String String
  authorizeUrl : OidcClient → (csrf nonce pkceChallenge : String) → String
  Accepts : OidcClient → (idToken nonce : String) → IdTokenClaims → Prop

def WELL_KNOWN_SUFFIX : String := "/.well-known/openid-configuration"

def stripSuffix (suffix s : String) : Option String :=
  if suffix.toList.isSuffixOf s.toList then some (String.ofList (s.toList.take (s.length - suffix.length))) else none

def trimEndMatches (c : Char) (s : String) : String := String.ofList (s.toList.reverse.dropWhile (· == c)).reverse

/-- What `OidcClient::new` has before it asks the provider. -/
structure OidcEndpoints where
  issuer : String
  clientId : String
  clientSecret : String
  redirect : String

def OidcConfig.endpoints (lib : OidcLibrary) (config : OidcConfig) (baseUrl : String) :
    Except OidcInitError OidcEndpoints := do
  let discoveryUrl ← config.discoveryUrl.elim (throw (.invalidDiscoveryUrl "missing discovery_url")) pure
  let clientId ← config.clientId.elim (throw (.invalidDiscoveryUrl "missing client_id")) pure
  let clientSecret ← config.clientSecret.elim (throw (.invalidDiscoveryUrl "missing client_secret")) pure
  let issuer ← (lib.issuerUrl ((stripSuffix WELL_KNOWN_SUFFIX discoveryUrl).getD discoveryUrl)).mapError
    OidcInitError.invalidDiscoveryUrl
  let redirect ← (lib.redirectUrl (trimEndMatches '/' baseUrl ++ "/auth/oidc/callback")).mapError
    OidcInitError.invalidRedirectUrl
  return ⟨issuer, clientId, clientSecret, redirect⟩

def RETRY_COOLDOWN : Nat := 30000000000

def shouldAttempt (failedSince : Option Instant) (now : Instant) : Bool :=
  match failedSince with
  | none => true
  | some since => decide (RETRY_COOLDOWN ≤ now.durationSince since)

structure CellState where
  client : Option OidcClient
  failedSince : Option Instant

structure FlowDraw where
  pkceChallenge : String
  pkceVerifier : String
  csrf : String
  nonce : String

inductive AttemptEnd
  | answered
  | failed
  | dropped
deriving DecidableEq

/-- A request to the provider: when it was sent, and when and how it ended. -/
structure DiscoveryAttempt where
  sent : Instant
  ended : Option (Instant × AttemptEnd)

structure StartedFlow where
  store : Nat
  state : String
  entry : StateEntry

/-- The cell behind its lock, the flows of each client and the users. The rest is history: the requests for discovery
newest first, the states drawn, the flows started, the states taken, what the provider gave for which verifier, the rows
found by their address, and the logins in order. -/
structure SsoServer where
  now : Instant
  cell : CellState
  locked : Bool
  stores : List StateStore
  users : Users
  attempts : List DiscoveryAttempt
  drawn : List String
  starts : List StartedFlow
  takes : List String
  exchanges : List (String × String)
  found : List User
  logins : List UserId

def SsoServer.boot (now : Instant) (users : Users) : SsoServer :=
  ⟨now, ⟨none, none⟩, false, [], users, [], [], [], [], [], [], []⟩

inductive SsoOp
  | lockCell
  | now
  | buildHttpClient
  | sendDiscovery (issuer : String)
  | receiveDiscovery
  | newStore
  | setCell (cell : CellState)
  | unlockCell
  | draw
  | storeState (store : Nat) (now : Instant) (state nonce pkceVerifier : String)
  | takeState (store : Nat) (now : Instant) (state : String)
  | exchangeCode (client : OidcClient) (code pkceVerifier : String)
  | claims (client : OidcClient) (idToken nonce : String)
  | isValidEmail (email : EmailAddress)
  | loginUser (id : UserId)

/-- No answer to the discovery means that the request is dropped while it waits. -/
abbrev SsoOp.Value : SsoOp → Type
  | lockCell => CellState
  | now => Instant
  | buildHttpClient => Except String Unit
  | receiveDiscovery => Option (Except String String)
  | newStore => Nat
  | draw => FlowDraw
  | takeState _ _ _ => Option StateEntry
  | exchangeCode _ _ _ => Except String (Option String)
  | claims _ _ _ => Except String IdTokenClaims
  | isValidEmail _ => Except Error (Option User)
  | sendDiscovery _ | setCell _ | unlockCell | storeState _ _ _ _ _ | loginUser _ => Unit

/-- A look at the users table may fail, and finds one of the rows it may find. -/
abbrev SsoOp.Choice : SsoOp → Type
  | buildHttpClient => Except String Unit
  | receiveDiscovery => Option (Except String String)
  | draw => FlowDraw
  | exchangeCode _ _ _ => Except String (Option String)
  | claims _ _ _ => Except String IdTokenClaims
  | isValidEmail _ => Except DbErr Nat
  | lockCell | now | newStore | takeState _ _ _ | sendDiscovery _ | setCell _ | unlockCell | storeState _ _ _ _ _
  | loginUser _ => Unit

abbrev ssoSignature : Signature := ⟨SsoOp, SsoOp.Value⟩

namespace SsoServer

def storeAt (s : SsoServer) (store : Nat) : StateStore := s.stores[store]?.getD fun _ => none

def attemptEnd : Option (Except String String) → AttemptEnd
  | none => .dropped
  | some (.ok _) => .answered
  | some (.error _) => .failed

/-- The last request has ended. A request that is dropped lets go of the lock. -/
def received (s : SsoServer) (answer : Option (Except String String)) : SsoServer :=
  { s with
    attempts := s.attempts.modifyHead fun a => { a with ended := some (s.now, attemptEnd answer) }
    locked := answer.isSome && s.locked }

def start (s : SsoServer) (store : Nat) (now : Instant) (state nonce pkceVerifier : String) : SsoServer :=
  { s with
    stores := s.stores.set store (MailKeep.storeState now state nonce pkceVerifier (s.storeAt store))
    starts := s.starts ++ [⟨store, state, ⟨nonce, pkceVerifier, now⟩⟩] }

def take (s : SsoServer) (store : Nat) (now : Instant) (state : String) : SsoServer :=
  { s with
    stores := s.stores.set store (MailKeep.takeState now state (s.storeAt store)).2
    takes := s.takes ++ [state] }

def exchanged (s : SsoServer) (pkceVerifier : String) : Except String (Option String) → SsoServer
  | .ok (some idToken) => { s with exchanges := s.exchanges ++ [(pkceVerifier, idToken)] }
  | _ => s

def isValidEmail (s : SsoServer) (email : EmailAddress) : Except DbErr Nat → Except Error (Option User) × SsoServer
  | .error e => (.error (.repositoryError (handleDberr e)), s)
  | .ok pick =>
    let user := UserRepository.one pick (s.users.rows.filter (·.emailAddress = email))
    (.ok user, { s with found := user.toList ++ s.found })

end SsoServer

abbrev sso : Machine where
  toSignature := ssoSignature
  State := SsoServer
  Choice := SsoOp.Choice
  exec
    | .lockCell, _, s => (s.cell, { s with locked := true })
    | .now, _, s => (s.now, s)
    | .buildHttpClient, r, s => (r, s)
    | .sendDiscovery _, _, s => ((), { s with attempts := ⟨s.now, none⟩ :: s.attempts })
    | .receiveDiscovery, r, s => (r, s.received r)
    | .newStore, _, s => (s.stores.length, { s with stores := s.stores ++ [fun _ => none] })
    | .setCell cell, _, s => ((), { s with cell := cell })
    | .unlockCell, _, s => ((), { s with locked := false })
    | .draw, d, s => (d, { s with drawn := d.csrf :: s.drawn })
    | .storeState store now state nonce pkceVerifier, _, s => ((), s.start store now state nonce pkceVerifier)
    | .takeState store now state, _, s => ((takeState now state (s.storeAt store)).1, s.take store now state)
    | .exchangeCode _ _ pkceVerifier, r, s => (r, s.exchanged pkceVerifier r)
    | .claims _ _ _, r, s => (r, s)
    | .isValidEmail email, c, s => s.isValidEmail email c
    | .loginUser id, _, s => ((), { s with logins := s.logins ++ [id] })

inductive Dropped
  | dropped

abbrev SsoAction (α : Type) := Action ssoSignature Dropped α

namespace Sso

def perform (o : SsoOp) : SsoAction o.Value := .mk (.call o fun r => .ret (.ok r))

def receiveDiscovery : SsoAction (Except String String) := .mk (.call SsoOp.receiveDiscovery fun
  | some answer => .ret (.ok answer)
  | none => .ret (.error .dropped))

variable (lib : OidcLibrary) (config : OidcConfig) (baseUrl : String)

/-- `OidcClient::new`. -/
def newClient : SsoAction (Except OidcInitError OidcClient) :=
  match config.endpoints lib baseUrl with
  | .error e => return .error e
  | .ok endpoints => do
    match ← perform .buildHttpClient with
    | .error e => return .error (.httpClientFailed e)
    | .ok () =>
      perform (.sendDiscovery endpoints.issuer)
      match ← receiveDiscovery with
      | .error e => return .error (.discoveryFailed e)
      | .ok metadata =>
        let store ← perform .newStore
        return .ok ⟨metadata, endpoints.clientId, endpoints.clientSecret, endpoints.redirect, store⟩

def ensureClient : SsoAction (Option OidcClient) := do
  let cell ← perform .lockCell
  match cell.client with
  | some client =>
    perform .unlockCell
    return some client
  | none =>
    if shouldAttempt cell.failedSince (← perform .now) then
      match ← newClient lib config baseUrl with
      | .ok client =>
        perform (.setCell ⟨some client, none⟩)
        perform .unlockCell
        return some client
      | .error _ =>
        perform (.setCell { cell with failedSince := some (← perform .now) })
        perform .unlockCell
        return none
    else
      perform .unlockCell
      return none

end Sso

structure CallbackQuery where
  code : Option String
  state : Option String
  error : Option String
  errorDescription : Option String

inductive SsoReply
  | label (text : Option String)
  | redirect (location : String)
deriving DecidableEq

def failureRedirect : SsoReply := .redirect "/?login_failed=1"

namespace Sso
variable (lib : OidcLibrary) (config : OidcConfig) (baseUrl : String)

def getSsoConfig : SsoAction SsoReply := do
  let client ← ensureClient lib config baseUrl
  return .label (client.map fun _ => config.label)

def startHandler : SsoAction SsoReply := do
  match ← ensureClient lib config baseUrl with
  | none => return failureRedirect
  | some client =>
    let draw ← perform .draw
    let now ← perform .now
    perform (.storeState client.store now draw.csrf draw.nonce draw.pkceVerifier)
    return .redirect (lib.authorizeUrl client draw.csrf draw.nonce draw.pkceChallenge)

/-- The part of the callback that comes after the exchange: the ID token, its address and the user. -/
def logIn (client : OidcClient) (entry : StateEntry) (idToken : String) : SsoAction SsoReply := do
  match ← perform (.claims client idToken entry.nonce) with
  | .error _ => return failureRedirect
  | .ok claims =>
    match claims.email with
    | none => return failureRedirect
    | some emailClaim =>
      match EmailAddress.new emailClaim with
      | .error _ => return failureRedirect
      | .ok email =>
        match ← perform (.isValidEmail email) with
        | .error _ => return failureRedirect
        | .ok none => return failureRedirect
        | .ok (some user) =>
          perform (.loginUser user.id)
          return .redirect "/"

def redeem (client : OidcClient) (entry : StateEntry) (query : CallbackQuery) : SsoAction SsoReply :=
  if query.error.isSome then return failureRedirect
  else match query.code with
    | none => return failureRedirect
    | some code => do
      match ← perform .buildHttpClient with
      | .error _ => return failureRedirect
      | .ok () =>
        match ← perform (.exchangeCode client code entry.pkceVerifier) with
        | .error _ => return failureRedirect
        | .ok none => return failureRedirect
        | .ok (some idToken) => logIn client entry idToken

def callbackHandler (query : CallbackQuery) : SsoAction SsoReply := do
  match ← ensureClient lib config baseUrl with
  | none => return failureRedirect
  | some client =>
    match query.state with
    | none => return failureRedirect
    | some state =>
      let now ← perform .now
      match ← perform (.takeState client.store now state) with
      | none => return failureRedirect
      | some entry => redeem client entry query

end Sso

/-- What the outside may do: time passes and the users change. -/
inductive SsoOutside : SsoServer → SsoServer → Prop
  | mk {s : SsoServer} (later : Instant) (users : Users) (forward : s.now ≤ later) :
      SsoOutside s { s with now := later, users := users }

def SsoServer.Fresh (s : SsoServer) (d : FlowDraw) : Prop := d.csrf ∉ s.drawn

/-- Any number of requests. The lock is waited for, the verifier has accepted the claims it returns, and `may` says what
may be drawn. -/
def ssoSystem (ι : Type) (lib : OidcLibrary) (config : OidcConfig) (baseUrl : String)
    (may : SsoServer → FlowDraw → Prop) : System sso ι (Except Dropped SsoReply) where
  allowed
    | s, .lockCell, _ => s.locked = false
    | s, .draw, d => may s d
    | _, .claims client idToken nonce, .ok claims => lib.Accepts client idToken nonce claims
    | _, _, _ => True
  root _ _ p := p = (Sso.getSsoConfig lib config baseUrl).run ∨ p = (Sso.startHandler lib config baseUrl).run ∨
    ∃ query, p = (Sso.callbackHandler lib config baseUrl query).run
  env := SsoOutside
  crash _ _ := False

end MailKeep
