import MailKeep.Frontend.Oidc
import MailKeep.Program.Mutex
import MailKeep.Program.Place
import Mathlib.Data.List.Chain

/-! The cell of the single sign-on client: one discovery at a time, a pause after each that fails, one client at last. -/
namespace MailKeep
open Program
namespace Sso

inductive CellPhase
  | looked (cell : CellState)
  | due (cell : CellState) (now : Instant)
  | asking
  | failed
  | stamped (now : Instant)
  | answered
  | made (store : Nat)
  | settled (client : Option OidcClient)

namespace CellPhase

def Timed : CellPhase → Prop
  | looked cell => cell.client = none
  | due _ _ | failed => True
  | asking | stamped _ | answered | made _ | settled _ => False

def clock (t : Instant) : CellPhase → CellPhase
  | looked cell => due cell t
  | _ => stamped t

end CellPhase

structure Admission where
  now : Instant
  state : String
  entry : StateEntry

inductive FlowPlace
  | idle
  | drawn (draw : FlowDraw)
  | timed (draw : FlowDraw) (now : Instant)
  | clocked (now : Instant)
  | taken (a : Admission)
  | exchanged (a : Admission) (idToken : String)
  | claimed (a : Admission) (idToken : String) (client : OidcClient) (claims : IdTokenClaims)
  | found (a : Admission) (idToken : String) (client : OidcClient) (claims : IdTokenClaims) (user : User)

namespace FlowPlace

def clock (t : Instant) : FlowPlace → FlowPlace
  | idle => clocked t
  | drawn draw => timed draw t
  | place => place

def exchange : FlowPlace → Except String (Option String) → FlowPlace
  | taken a, .ok (some idToken) => exchanged a idToken
  | _, _ => idle

def claim (client : OidcClient) : FlowPlace → Except String IdTokenClaims → FlowPlace
  | exchanged a idToken, .ok claims => claimed a idToken client claims
  | _, _ => idle

def find : FlowPlace → Except Error (Option User) → FlowPlace
  | claimed a idToken client claims, .ok (some user) => found a idToken client claims user
  | _, _ => idle

end FlowPlace

structure Place where
  client : Option OidcClient
  phase : Option CellPhase
  flow : FlowPlace

namespace Place

def start : Place := ⟨none, none, .idle⟩

/-- The reading of the clock is for the lock's holder or for the flow. -/
def clock (place : Place) (t : Instant) : Place :=
  match place.phase with
  | some phase => { place with phase := some (phase.clock t) }
  | none => { place with flow := place.flow.clock t }

def unlock (place : Place) : Place :=
  { place with
    phase := none
    client := match place.phase with
      | some (.looked cell) => cell.client
      | some (.settled client) => client
      | _ => none }

end Place

variable {ι : Type} {lib : OidcLibrary} {config : OidcConfig} {baseUrl : String}

/-- Where each operation stands in the three handlers. -/
def handlers (ι : Type) : Discipline sso ι Place where
  start := .start
  ready _ place
    | .lockCell => place = .start
    | .now => ∀ phase, place.phase = some phase → phase.Timed
    | .sendDiscovery _ => ∃ cell now, place.phase = some (.due cell now) ∧ shouldAttempt cell.failedSince now = true
    | .receiveDiscovery => place.phase = some .asking
    | .newStore => place.phase = some .answered
    | .setCell cell =>
      (∃ now, place.phase = some (.stamped now) ∧ cell = ⟨none, some now⟩) ∨
        ∃ client, place.phase = some (.made client.store) ∧ cell = ⟨some client, none⟩
    | .unlockCell =>
      (∃ cell client, place.phase = some (.looked cell) ∧ cell.client = some client) ∨
        (∃ cell now, place.phase = some (.due cell now)) ∨ ∃ client, place.phase = some (.settled client)
    | .draw => place.flow = .idle
    | .storeState store now state nonce pkceVerifier =>
      ∃ client draw, place.client = some client ∧ place.flow = .timed draw now ∧ store = client.store ∧
        state = draw.csrf ∧ nonce = draw.nonce ∧ pkceVerifier = draw.pkceVerifier
    | .takeState _ now _ => place.flow = .clocked now
    | .exchangeCode _ _ pkceVerifier => ∃ a, place.flow = .taken a ∧ pkceVerifier = a.entry.pkceVerifier
    | .claims _ idToken nonce => ∃ a, place.flow = .exchanged a idToken ∧ nonce = a.entry.nonce
    | .isValidEmail email => ∃ a idToken client claims emailClaim, place.flow = .claimed a idToken client claims ∧
      claims.email = some emailClaim ∧ EmailAddress.new emailClaim = .ok email
    | .loginUser id => ∃ a idToken client claims user, place.flow = .found a idToken client claims user ∧ id = user.id
    | .buildHttpClient => True
  after place
    | .lockCell, cell => { place with phase := some (.looked cell) }
    | .now, t => place.clock t
    | .sendDiscovery _, _ => { place with phase := some .asking }
    | .receiveDiscovery, some (.ok _) => { place with phase := some .answered }
    | .receiveDiscovery, some (.error _) => { place with phase := some .failed }
    | .receiveDiscovery, none => { place with phase := none }
    | .newStore, store => { place with phase := some (.made store) }
    | .setCell cell, _ => { place with phase := some (.settled cell.client) }
    | .unlockCell, _ => place.unlock
    | .draw, draw => { place with flow := .drawn draw }
    | .storeState _ _ _ _ _, _ => { place with flow := .idle }
    | .takeState _ now state, some entry => { place with flow := .taken ⟨now, state, entry⟩ }
    | .takeState _ _ _, none => { place with flow := .idle }
    | .exchangeCode _ _ _, r => { place with flow := place.flow.exchange r }
    | .claims client _ _, r => { place with flow := place.flow.claim client r }
    | .isValidEmail _, r => { place with flow := place.flow.find r }
    | .loginUser _, _ => { place with flow := .idle }
    | .buildHttpClient, _ => place
  done place := place.phase = none

/-- A request is out of the cell with the client it has got, its flow not begun. -/
def Out (client : Option OidcClient) (place : Place) : Prop := place = ⟨client, none, .idle⟩

private theorem leads_newClient (i : ι) {place : Place} {cell : CellState} {now : Instant}
    (due : place.phase = some (.due cell now)) (attempt : shouldAttempt cell.failedSince now = true) :
    (handlers ι).Leads i (fun r after => match r with
      | .ok (.ok client) => after = { place with phase := some (.made client.store) }
      | .ok (.error _) => ∃ phase, after = { place with phase := some phase } ∧ phase.Timed ∧
        ∀ t, phase.clock t = .stamped t
      | .error _ => after.phase = none) place (newClient lib config baseUrl).run := by
  have early {e : OidcInitError} : ∃ phase, place = { place with phase := some phase } ∧ phase.Timed ∧
      ∀ t, phase.clock t = .stamped t := ⟨.due cell now, by rw [← due], trivial, fun _ => rfl⟩
  unfold newClient
  cases config.endpoints lib baseUrl with
  | error e => exact early (e := e)
  | ok endpoints =>
    refine ⟨trivial, fun built => ?_⟩
    cases built with
    | error e => exact early (e := .httpClientFailed e)
    | ok built =>
      refine ⟨⟨cell, now, due, attempt⟩, fun _ => ⟨rfl, fun answer => ?_⟩⟩
      match answer with
      | none => exact rfl
      | some (.error e) => exact ⟨.failed, rfl, trivial, fun _ => rfl⟩
      | some (.ok metadata) => exact ⟨rfl, fun store => rfl⟩

private theorem leads_ensureClient (i : ι) :
    (handlers ι).Leads i (fun r place => match r with
      | .ok client => Out client place
      | .error _ => place.phase = none) .start (ensureClient lib config baseUrl).run := by
  refine ⟨rfl, fun cell => ?_⟩
  obtain ⟨_ | client, failedSince⟩ := cell
  · refine ⟨fun phase looked => Option.some.inj looked ▸ rfl, fun now => ?_⟩
    change (handlers ι).Leads i _ ⟨none, some (.due ⟨none, failedSince⟩ now), .idle⟩
      (ExceptT.run (if shouldAttempt failedSince now = true then _ else _))
    by_cases attempt : shouldAttempt failedSince now = true
    · rw [if_pos attempt]
      refine .seq ((leads_newClient i rfl attempt).weaken ?_)
      intro r place ends
      rcases r with e | e | client
      · exact ends
      · obtain ⟨phase, rfl, timed, stamps⟩ := ends
        refine ⟨fun other same => Option.some.inj same ▸ timed, fun now => ?_⟩
        change (handlers ι).Leads i _ ⟨none, some (phase.clock now), .idle⟩ (.call (.setCell ⟨none, some now⟩) _)
        rw [stamps]
        exact ⟨.inl ⟨now, rfl, rfl⟩, fun _ => ⟨.inr (.inr ⟨none, rfl⟩), fun _ => rfl⟩⟩
      · rw [ends]
        exact ⟨.inr ⟨client, rfl, rfl⟩, fun _ => ⟨.inr (.inr ⟨_, rfl⟩), fun _ => rfl⟩⟩
    · rw [if_neg attempt]
      exact ⟨.inr (.inl ⟨⟨none, failedSince⟩, now, rfl⟩), fun _ => rfl⟩
  · exact ⟨.inl ⟨⟨some client, failedSince⟩, client, rfl, rfl⟩, fun _ => rfl⟩

private theorem fits_getSsoConfig (i : ι) : (handlers ι).Fits i .start (getSsoConfig lib config baseUrl).run := by
  refine Discipline.Leads.fits (.seq ((leads_ensureClient i).weaken ?_))
  intro r place ends
  cases r with
  | error e => exact ends
  | ok client =>
    rw [ends]
    exact rfl

private theorem fits_startHandler (i : ι) : (handlers ι).Fits i .start (startHandler lib config baseUrl).run := by
  refine Discipline.Leads.fits (.seq ((leads_ensureClient i).weaken ?_))
  intro r place ends
  match r with
  | .error e => exact ends
  | .ok none =>
    rw [ends]
    exact rfl
  | .ok (some client) =>
    rw [ends]
    refine ⟨rfl, fun draw => ⟨fun phase inside => (by cases inside), fun now => ?_⟩⟩
    exact ⟨⟨client, draw, rfl, rfl, rfl, rfl, rfl, rfl⟩, fun _ => rfl⟩

private theorem leads_logIn (i : ι) {place : Place} {client : OidcClient} {a : Admission} {idToken : String}
    (out : place.phase = none) (exchanged : place.flow = .exchanged a idToken) :
    (handlers ι).Leads i (fun _ place => place.phase = none) place (logIn client a.entry idToken).run := by
  refine ⟨⟨a, exchanged, rfl⟩, fun r => ?_⟩
  rcases r with e | claims
  · exact out
  obtain ⟨_ | emailClaim⟩ := claims
  · exact out
  dsimp only [Prog.bind, ExceptT.bindCont]
  cases valid : EmailAddress.new emailClaim with
  | error e => exact out
  | ok email =>
    have claimed : place.flow.claim client (.ok ⟨some emailClaim⟩) = .claimed a idToken client ⟨some emailClaim⟩ := by
      rw [exchanged]
      rfl
    refine ⟨⟨a, idToken, client, ⟨some emailClaim⟩, emailClaim, claimed, rfl, valid⟩, fun found => ?_⟩
    rcases found with e | _ | user
    · exact out
    · exact out
    · have known : (place.flow.claim client (.ok ⟨some emailClaim⟩)).find (.ok (some user)) =
          .found a idToken client ⟨some emailClaim⟩ user := by
        rw [claimed]
        rfl
      exact ⟨⟨a, idToken, client, ⟨some emailClaim⟩, user, known, rfl⟩, fun _ => out⟩

private theorem leads_redeem (i : ι) {place : Place} {client : OidcClient} {a : Admission} {query : CallbackQuery}
    (out : place.phase = none) (taken : place.flow = .taken a) :
    (handlers ι).Leads i (fun _ place => place.phase = none) place (redeem client a.entry query).run := by
  unfold redeem
  split
  · exact out
  · split
    · exact out
    · refine ⟨trivial, fun built => ?_⟩
      cases built with
      | error e => exact out
      | ok built =>
        refine ⟨⟨a, taken, rfl⟩, fun response => ?_⟩
        match response with
        | .error e => exact out
        | .ok none => exact out
        | .ok (some idToken) =>
          exact leads_logIn i out (congrArg (FlowPlace.exchange · (.ok (some idToken))) taken)

private theorem fits_callbackHandler (i : ι) (query : CallbackQuery) :
    (handlers ι).Fits i .start (callbackHandler lib config baseUrl query).run := by
  refine Discipline.Leads.fits (.seq ((leads_ensureClient i).weaken ?_))
  intro r place ends
  match r with
  | .error e => exact ends
  | .ok none =>
    rw [ends]
    exact rfl
  | .ok (some client) =>
    rw [ends]
    cases query.state with
    | none => exact rfl
    | some state =>
      refine ⟨fun phase inside => (by cases inside), fun now => ⟨rfl, fun found => ?_⟩⟩
      cases found with
      | none => exact rfl
      | some entry => exact leads_redeem i (a := ⟨now, state, entry⟩) rfl rfl

/-- A request for discovery is sent after the one before has ended without a client, and a while after it has failed. -/
def Spaced (later earlier : DiscoveryAttempt) : Prop :=
  ∃ t ended, earlier.ended = some (t, ended) ∧ ended ≠ .answered ∧ t ≤ later.sent ∧
    (ended = .failed → t + RETRY_COOLDOWN ≤ later.sent)

def EndedBy (time : Instant) (a : DiscoveryAttempt) : Prop :=
  ∃ t ended, a.ended = some (t, ended) ∧ ended ≠ .answered ∧ t ≤ time

def Noted (cell : CellState) (a : DiscoveryAttempt) : Prop :=
  ∀ t, a.ended = some (t, .failed) → ∃ since, cell.failedSince = some since ∧ t ≤ since

/-- While nobody holds the lock: no client and no store, the last failure noted, or one client and its store. -/
structure Resting (s : SsoServer) : Prop where
  spaced : s.attempts.IsChain Spaced
  without : s.cell.client = none →
    s.stores.length = 0 ∧ ∀ a ∈ s.attempts.head?, EndedBy s.now a ∧ Noted s.cell a
  one : ∀ client, s.cell.client = some client → client.store = 0 ∧ s.stores.length = 1

structure Searching (s : SsoServer) : Prop where
  spaced : s.attempts.IsChain Spaced
  client : s.cell.client = none
  stores : s.stores.length = 0

def CellPhase.Inside : CellPhase → SsoServer → Prop
  | looked cell, s => s.cell = cell ∧ Resting s
  | due cell now, s => s.cell = cell ∧ Resting s ∧ Searching s ∧ now ≤ s.now
  | asking, s | answered, s => Searching s
  | failed, s => Searching s ∧ ∀ a ∈ s.attempts.head?, EndedBy s.now a
  | stamped now, s => Searching s ∧ now ≤ s.now ∧ ∀ a ∈ s.attempts.head?, EndedBy now a
  | made store, s => s.attempts.IsChain Spaced ∧ s.cell.client = none ∧ store = 0 ∧ s.stores.length = 1
  | settled client, s => s.cell.client = client ∧ Resting s

def cellMutex : Mutex SsoServer CellPhase := ⟨SsoServer.locked, Resting, CellPhase.Inside⟩

theorem EndedBy.mono {time later : Instant} {a : DiscoveryAttempt} (h : EndedBy time a) (forward : time ≤ later) :
    EndedBy later a := by
  obtain ⟨t, ended, at_end, without, before⟩ := h
  exact ⟨t, ended, at_end, without, before.trans forward⟩

private theorem cooled {t since now later cooldown : Nat} (positive : 0 < cooldown) (after : t ≤ since)
    (pause : cooldown ≤ now - since) (read : now ≤ later) : t + cooldown ≤ later := by
  omega

/-- After the pause another request may be sent. -/
theorem EndedBy.spaced {s : SsoServer} {now : Instant} {a : DiscoveryAttempt} (h : EndedBy s.now a)
    (noted : Noted s.cell a) (attempt : shouldAttempt s.cell.failedSince now = true) (read : now ≤ s.now) :
    Spaced ⟨s.now, none⟩ a := by
  obtain ⟨t, ended, at_end, without, before⟩ := h
  refine ⟨t, ended, at_end, without, before, fun failed => ?_⟩
  subst failed
  obtain ⟨since, cached, after⟩ := noted t at_end
  rw [cached] at attempt
  exact cooled (by decide) after (of_decide_eq_true attempt) read

private theorem isChain_replaceHead {a b : DiscoveryAttempt} {attempts : List DiscoveryAttempt}
    (h : (a :: attempts).IsChain Spaced) (sent : b.sent = a.sent) : (b :: attempts).IsChain Spaced := by
  cases attempts with
  | nil => exact .singleton b
  | cons c attempts =>
    obtain ⟨spaced, rest⟩ := List.isChain_cons_cons.mp h
    refine List.isChain_cons_cons.mpr ⟨?_, rest⟩
    unfold Spaced at spaced ⊢
    rwa [sent]

private theorem isChain_modifyHead {attempts : List DiscoveryAttempt} (h : attempts.IsChain Spaced)
    (ended : Option (Instant × AttemptEnd)) :
    (attempts.modifyHead fun a => { a with ended := ended }).IsChain Spaced := by
  cases attempts with
  | nil => exact .nil
  | cons a attempts => exact isChain_replaceHead h rfl

private theorem ended_received {s : SsoServer} {answer : Option (Except String String)} :
    ∀ a ∈ (s.received answer).attempts.head?, a.ended = some (s.now, SsoServer.attemptEnd answer) := by
  intro a newest
  change a ∈ (s.attempts.modifyHead _).head? at newest
  cases there : s.attempts with
  | nil =>
    rw [there] at newest
    cases newest
  | cons b attempts =>
    rw [there] at newest
    cases newest
    rfl

structure Undisturbed (s t : SsoServer) : Prop where
  forward : s.now ≤ t.now
  cell : t.cell = s.cell
  locked : t.locked = s.locked
  attempts : t.attempts = s.attempts
  stores : t.stores.length = s.stores.length

namespace Undisturbed
variable {s t : SsoServer}

theorem resting (same : Undisturbed s t) (h : Resting s) : Resting t := by
  refine ⟨same.attempts ▸ h.spaced, ?_, ?_⟩
  · rw [same.cell, same.stores, same.attempts]
    intro none
    obtain ⟨empty, last⟩ := h.without none
    exact ⟨empty, fun a newest => ⟨(last a newest).1.mono same.forward, (last a newest).2⟩⟩
  · rw [same.cell, same.stores]
    exact h.one

theorem searching (same : Undisturbed s t) (h : Searching s) : Searching t :=
  ⟨same.attempts ▸ h.spaced, same.cell ▸ h.client, same.stores ▸ h.stores⟩

theorem inside (same : Undisturbed s t) (phase : CellPhase) (h : phase.Inside s) : phase.Inside t := by
  cases phase with
  | looked cell => exact ⟨same.cell.trans h.1, same.resting h.2⟩
  | due cell now =>
    obtain ⟨seen, resting, searching, read⟩ := h
    exact ⟨same.cell.trans seen, same.resting resting, same.searching searching, read.trans same.forward⟩
  | asking => exact same.searching h
  | answered => exact same.searching h
  | failed =>
    refine ⟨same.searching h.1, ?_⟩
    rw [same.attempts]
    exact fun a newest => (h.2 a newest).mono same.forward
  | stamped now =>
    obtain ⟨searching, read, last⟩ := h
    exact ⟨same.searching searching, read.trans same.forward, same.attempts ▸ last⟩
  | made store =>
    obtain ⟨spaced, none, first, one⟩ := h
    exact ⟨same.attempts ▸ spaced, same.cell ▸ none, first, same.stores ▸ one⟩
  | settled client => exact ⟨same.cell ▸ h.1, same.resting h.2⟩

end Undisturbed

/-- The lock protects the cell, and a client that a request has got is the cell's. -/
structure Celled (s : SsoServer) (places : ι → Place) : Prop where
  guarded : cellMutex.Guards s fun i => (places i).phase
  clients : ∀ i client, (places i).client = some client → s.cell.client = some client

namespace Celled
variable {s t : SsoServer} {places : ι → Place} {i : ι}

theorem boot (now : Instant) (users : Users) : Celled (.boot now users) fun _ : ι => Place.start where
  guarded := .free rfl (fun _ => rfl) ⟨.nil, fun _ => ⟨rfl, fun _ newest => by cases newest⟩, fun _ got => by cases got⟩
  clients _ _ got := by cases got

variable [DecidableEq ι]

theorem phase_update (place : Place) : (fun j => (Function.update places i place j).phase) =
    Function.update (fun j => (places j).phase) i place.phase :=
  Function.comp_update Place.phase places i place

/-- A step that has nothing to do with the cell. -/
theorem frame (h : Celled s places) (same : Undisturbed s t) {place : Place} (phase : place.phase = (places i).phase)
    (client : ∀ c, place.client = some c → (places i).client = some c) : Celled t (Function.update places i place) := by
  constructor
  · rw [phase_update, phase, Function.update_eq_self]
    exact h.guarded.frame same.locked same.resting same.inside
  · intro j c got
    rw [same.cell]
    by_cases own : j = i
    · subst own
      rw [Function.update_self] at got
      exact h.clients j c (client c got)
    · rw [Function.update_of_ne own] at got
      exact h.clients j c got

/-- A step of the lock's holder that has no client yet and gets none. -/
theorem move (h : Celled s places) {place : Place} {p q : CellPhase} (here : (places i).phase = some p)
    (phase : place.phase = some q) (locked : t.locked = s.locked) (client : place.client = (places i).client)
    (kept : p.Inside s → (t.cell = s.cell ∨ s.cell.client = none) ∧ q.Inside t) :
    Celled t (Function.update places i place) := by
  obtain ⟨-, -, inside⟩ := h.guarded.inside here
  obtain ⟨cell, holds⟩ := kept inside
  constructor
  · rw [phase_update, phase]
    exact h.guarded.move here locked fun _ => holds
  · intro j c got
    have before : s.cell.client = some c := by
      by_cases own : j = i
      · subst own
        rw [Function.update_self, client] at got
        exact h.clients j c got
      · rw [Function.update_of_ne own] at got
        exact h.clients j c got
    rcases cell with same | none
    · rw [same]
      exact before
    · rw [none] at before
      cases before

theorem leave (h : Celled s places) {place : Place} {p : CellPhase} (here : (places i).phase = some p)
    (phase : place.phase = none) (unlocked : t.locked = false) (cell : t.cell = s.cell)
    (kept : p.Inside s → Resting t ∧ ∀ c, place.client = some c → s.cell.client = some c) :
    Celled t (Function.update places i place) := by
  obtain ⟨-, -, inside⟩ := h.guarded.inside here
  obtain ⟨rest, clients⟩ := kept inside
  constructor
  · rw [phase_update, phase]
    exact h.guarded.leave here unlocked fun _ => rest
  · intro j c got
    rw [cell]
    by_cases own : j = i
    · subst own
      rw [Function.update_self] at got
      exact clients c got
    · rw [Function.update_of_ne own] at got
      exact h.clients j c got

/-- The first look at the cell. -/
theorem enter (h : Celled s places) (unlocked : s.locked = false) {place : Place}
    (phase : place.phase = some (.looked s.cell)) (client : ∀ c, place.client = some c → (places i).client = some c) :
    Celled { s with locked := true } (Function.update places i place) := by
  constructor
  · rw [phase_update, phase]
    refine h.guarded.enter unlocked rfl fun rest => ⟨rfl, rest.spaced, rest.without, rest.one⟩
  · intro j c got
    by_cases own : j = i
    · subst own
      rw [Function.update_self] at got
      exact h.clients j c (client c got)
    · rw [Function.update_of_ne own] at got
      exact h.clients j c got

theorem clock (h : Celled s places) (timed : ∀ phase, (places i).phase = some phase → phase.Timed) :
    Celled s (Function.update places i ((places i).clock s.now)) := by
  have same : Undisturbed s s := ⟨le_rfl, rfl, rfl, rfl, rfl⟩
  unfold Place.clock
  cases here : (places i).phase with
  | none => exact h.frame same here.symm fun c got => got
  | some phase =>
    refine h.move here rfl rfl rfl fun inside => ⟨.inl rfl, ?_⟩
    have may := timed phase here
    cases phase with
    | looked cell =>
      obtain ⟨rfl, rest⟩ := inside
      exact ⟨rfl, rest, ⟨rest.spaced, may, (rest.without may).1⟩, le_rfl⟩
    | due cell now =>
      obtain ⟨rfl, rest, searching, -⟩ := inside
      exact ⟨searching, le_rfl, fun a newest => ((rest.without searching.client).2 a newest).1⟩
    | failed => exact ⟨inside.1, le_rfl, inside.2⟩
    | asking | stamped | answered | made | settled => cases may

theorem sendDiscovery (h : Celled s places) {cell : CellState} {now : Instant}
    (due : (places i).phase = some (.due cell now)) (attempt : shouldAttempt cell.failedSince now = true) :
    Celled { s with attempts := ⟨s.now, none⟩ :: s.attempts }
      (Function.update places i { places i with phase := some .asking }) := by
  refine h.move due rfl rfl rfl fun inside => ⟨.inl rfl, ?_⟩
  obtain ⟨rfl, rest, searching, read⟩ := inside
  refine ⟨List.isChain_cons.mpr ⟨fun a newest => ?_, rest.spaced⟩, searching.client, searching.stores⟩
  obtain ⟨ended, noted⟩ := (rest.without searching.client).2 a newest
  exact ended.spaced noted attempt read

theorem receiveDiscovery (h : Celled s places) (asking : (places i).phase = some .asking)
    (answer : Option (Except String String)) : Celled (s.received answer)
      (Function.update places i ((handlers ι).after (places i) .receiveDiscovery answer)) := by
  match answer with
  | none =>
    refine h.leave asking rfl rfl rfl fun searching => ⟨⟨isChain_modifyHead searching.spaced _, fun _ => ?_, ?_⟩, ?_⟩
    · refine ⟨searching.stores, fun a newest => ⟨⟨s.now, _, ended_received a newest, nofun, le_rfl⟩, ?_⟩⟩
      intro t failed
      cases failed.symm.trans (ended_received a newest)
    · intro c got
      cases searching.client.symm.trans got
    · exact h.clients i
  | some (.ok metadata) =>
    exact h.move asking rfl rfl rfl fun searching =>
      ⟨.inl rfl, isChain_modifyHead searching.spaced _, searching.client, searching.stores⟩
  | some (.error e) =>
    refine h.move asking rfl rfl rfl fun searching => ⟨.inl rfl, ?_⟩
    exact ⟨⟨isChain_modifyHead searching.spaced _, searching.client, searching.stores⟩,
      fun a newest => ⟨s.now, _, ended_received a newest, nofun, le_rfl⟩⟩

theorem newStore (h : Celled s places) (answered : (places i).phase = some .answered) :
    Celled { s with stores := s.stores ++ [fun _ => none] }
      (Function.update places i { places i with phase := some (.made s.stores.length) }) := by
  refine h.move answered rfl rfl rfl fun searching => ⟨.inl rfl, ?_⟩
  refine ⟨searching.spaced, searching.client, searching.stores, ?_⟩
  rw [List.length_append, searching.stores]
  rfl

theorem setCell (h : Celled s places) {cell : CellState}
    (ready : (∃ now, (places i).phase = some (.stamped now) ∧ cell = ⟨none, some now⟩) ∨
      ∃ client, (places i).phase = some (.made client.store) ∧ cell = ⟨some client, none⟩) :
    Celled { s with cell := cell } (Function.update places i { places i with phase := some (.settled cell.client) }) := by
  rcases ready with ⟨now, stamped, rfl⟩ | ⟨client, made, rfl⟩
  · refine h.move stamped rfl rfl rfl fun inside => ?_
    obtain ⟨searching, read, last⟩ := inside
    refine ⟨.inr searching.client, rfl, searching.spaced, fun _ => ⟨searching.stores, fun a newest => ?_⟩, ?_⟩
    · refine ⟨(last a newest).mono read, fun t failed => ⟨now, rfl, ?_⟩⟩
      obtain ⟨t', ended, at_end, -, before⟩ := last a newest
      cases failed.symm.trans at_end
      exact before
    · intro c got
      cases got
  · refine h.move made rfl rfl rfl fun inside => ?_
    obtain ⟨spaced, none, first, one⟩ := inside
    refine ⟨.inr none, rfl, spaced, fun got => (by cases got), fun c got => ?_⟩
    cases got
    exact ⟨first, one⟩

theorem unlockCell (h : Celled s places) (ready : (handlers ι).ready i (places i) .unlockCell) :
    Celled { s with locked := false } (Function.update places i (places i).unlock) := by
  rcases ready with ⟨cell, client, looked, got⟩ | ⟨cell, now, due⟩ | ⟨client, settled⟩
  · refine h.leave looked rfl rfl rfl fun inside => ⟨⟨inside.2.spaced, inside.2.without, inside.2.one⟩, fun c own => ?_⟩
    obtain ⟨rfl, -⟩ := inside
    rw [Place.unlock, looked] at own
    exact own
  · refine h.leave due rfl rfl rfl fun inside => ?_
    obtain ⟨rfl, rest, -⟩ := inside
    refine ⟨⟨rest.spaced, rest.without, rest.one⟩, fun c own => ?_⟩
    rw [Place.unlock, due] at own
    cases own
  · refine h.leave settled rfl rfl rfl fun inside => ⟨⟨inside.2.spaced, inside.2.without, inside.2.one⟩, fun c own => ?_⟩
    rw [Place.unlock, settled] at own
    rw [inside.1]
    exact own

end Celled

/-- A request starts outside. -/
theorem Celled.begins [DecidableEq ι] {s : SsoServer} {places : ι → Place} {i : ι} (h : Celled s places)
    (idle : places i = (handlers ι).start ∨ (handlers ι).done (places i)) :
    Celled s (Function.update places i .start) := by
  have out : (places i).phase = none := by
    rcases idle with start | done
    · rw [start]
      rfl
    · exact done
  exact h.frame ⟨le_rfl, rfl, rfl, rfl, rfl⟩ out.symm fun c got => by cases got

theorem fits_root {may : SsoServer → FlowDraw → Prop} {s : SsoServer} {i : ι} {p : Prog ssoSignature (Except Dropped SsoReply)}
    (root : (ssoSystem ι lib config baseUrl may).root s i p) : (handlers ι).Fits i .start p := by
  rcases root with rfl | rfl | ⟨query, rfl⟩
  · exact fits_getSsoConfig i
  · exact fits_startHandler i
  · exact fits_callbackHandler i query

theorem keeps_celled [DecidableEq ι] {may : SsoServer → FlowDraw → Prop} :
    (handlers ι).Keeps (ssoSystem ι lib config baseUrl may) Celled where
  begins s places i p h root idle := ⟨.start, fits_root root, h.begins idle⟩
  op s places i o ch h ready ok := by
    have kept (t : SsoServer) (place : Place) (same : Undisturbed s t) (phase : place.phase = (places i).phase)
        (client : place.client = (places i).client) : Celled t (Function.update places i place) :=
      h.frame same phase fun c got => client ▸ got
    cases o with
    | lockCell => exact h.enter ok rfl fun c got => got
    | now => exact h.clock ready
    | sendDiscovery issuer =>
      obtain ⟨cell, now, due, attempt⟩ := ready
      exact h.sendDiscovery due attempt
    | receiveDiscovery => exact h.receiveDiscovery ready ch
    | newStore => exact h.newStore ready
    | setCell cell => exact h.setCell ready
    | unlockCell => exact h.unlockCell ready
    | buildHttpClient => exact kept s (places i) ⟨le_rfl, rfl, rfl, rfl, rfl⟩ rfl rfl
    | draw => exact kept _ _ ⟨le_rfl, rfl, rfl, rfl, rfl⟩ rfl rfl
    | storeState store now state nonce pkceVerifier => exact kept _ _ ⟨le_rfl, rfl, rfl, rfl, List.length_set ..⟩ rfl rfl
    | takeState store now state =>
      refine kept _ _ ⟨le_rfl, rfl, rfl, rfl, List.length_set ..⟩ ?_ ?_
      · cases (takeState now state (s.storeAt store)).1 <;> rfl
      · cases (takeState now state (s.storeAt store)).1 <;> rfl
    | exchangeCode client code pkceVerifier =>
      refine kept _ _ ?_ rfl rfl
      match ch with
      | .error e => exact ⟨le_rfl, rfl, rfl, rfl, rfl⟩
      | .ok none => exact ⟨le_rfl, rfl, rfl, rfl, rfl⟩
      | .ok (some idToken) => exact ⟨le_rfl, rfl, rfl, rfl, rfl⟩
    | claims client idToken nonce => exact kept _ _ ⟨le_rfl, rfl, rfl, rfl, rfl⟩ rfl rfl
    | isValidEmail email =>
      refine kept _ _ ?_ rfl rfl
      cases ch with
      | error e => exact ⟨le_rfl, rfl, rfl, rfl, rfl⟩
      | ok pick => exact ⟨le_rfl, rfl, rfl, rfl, rfl⟩
    | loginUser id => exact kept _ _ ⟨le_rfl, rfl, rfl, rfl, rfl⟩ rfl rfl
  env s t places h outside := by
    obtain ⟨later, users, forward⟩ := outside
    have same : Undisturbed s { s with now := later, users := users } := ⟨forward, rfl, rfl, rfl, rfl⟩
    exact ⟨h.guarded.frame rfl same.resting same.inside, h.clients⟩
  crash _ _ _ _ crashed := by cases crashed

/-- The requests sent so far are spaced, and no second client is made. -/
theorem Celled.spaced {s : SsoServer} {places : ι → Place} (h : Celled s places) :
    s.attempts.IsChain Spaced ∧ s.stores.length ≤ 1 := by
  have rested (rest : Resting s) : s.attempts.IsChain Spaced ∧ s.stores.length ≤ 1 := by
    refine ⟨rest.spaced, ?_⟩
    cases got : s.cell.client with
    | none => exact (rest.without got).1.le.trans (Nat.zero_le 1)
    | some client => exact Nat.le_of_eq (rest.one client got).2
  have searched (searching : Searching s) : s.attempts.IsChain Spaced ∧ s.stores.length ≤ 1 :=
    ⟨searching.spaced, searching.stores.le.trans (Nat.zero_le 1)⟩
  cases h.guarded with
  | free unlocked outside rest => exact rested rest
  | held i phase locked here alone inside =>
    cases phase with
    | looked cell => exact rested inside.2
    | due cell now => exact rested inside.2.1
    | asking => exact searched inside
    | failed => exact searched inside.1
    | stamped now => exact searched inside.1
    | answered => exact searched inside
    | made store => exact ⟨inside.1, Nat.le_of_eq inside.2.2.2⟩
    | settled client => exact rested inside.2

/-- However the requests interleave and whichever of them are dropped, the provider is asked again only after the last
request for discovery has ended without a client, and after the pause if it has failed; and one client is made at most. -/
theorem discovery_attempts_spaced [DecidableEq ι] {may : SsoServer → FlowDraw → Prop} {now : Instant} {users : Users}
    {c : Config sso ι (Except Dropped SsoReply)}
    (run : (ssoSystem ι lib config baseUrl may).Reaches (.idle (.boot now users)) c) :
    c.state.attempts.IsChain Spaced ∧ c.state.stores.length ≤ 1 := by
  obtain ⟨places, -, celled⟩ := keeps_celled.reaches ((handlers ι).linked_idle _) (Celled.boot now users) run
  exact celled.spaced

def anyUrl : OidcLibrary := ⟨.ok, .ok, fun client csrf _ _ => client.redirect ++ csrf, fun _ _ _ _ => True⟩

def kanidm : OidcConfig := ⟨some "https://idm.example.org", some "mailkeep", some "secret", none⟩

abbrev kanidmSystem : System sso Bool (Except Dropped SsoReply) :=
  ssoSystem Bool anyUrl kanidm "http://0.0.0.0:8080" SsoServer.Fresh

def unreachable : (o : SsoOp) → SsoOp.Choice o
  | .buildHttpClient => .ok ()
  | .receiveDiscovery => some (.error "connection refused")
  | .draw => ⟨"challenge", "verifier", "csrf", "nonce"⟩
  | .exchangeCode _ _ _ => .error "connection refused"
  | .claims _ _ _ => .error "connection refused"
  | .isValidEmail _ => .ok 0
  | .lockCell | .now | .newStore | .takeState _ _ _ | .sendDiscovery _ | .setCell _ | .unlockCell | .storeState _ _ _ _ _
  | .loginUser _ => ()

def ssoRequest : Prog ssoSignature (Except Dropped SsoReply) := (getSsoConfig anyUrl kanidm "http://0.0.0.0:8080").run

def booted : Config sso Bool (Except Dropped SsoReply) := .idle (.boot 0 Users.empty)

def firstFailed : Config sso Bool (Except Dropped SsoReply) :=
  (List.replicate 8 false).foldl (fun c i => c.advance unreachable i) (booted.set booted.state false ssoRequest)

def paused : Config sso Bool (Except Dropped SsoReply) :=
  ⟨{ firstFailed.state with now := RETRY_COOLDOWN, users := Users.empty }, firstFailed.threads⟩

def askedAgain : Config sso Bool (Except Dropped SsoReply) :=
  (List.replicate 4 true).foldl (fun c i => c.advance unreachable i) (paused.set paused.state true ssoRequest)

private theorem askedAgain_reached : kanidmSystem.Reaches booted askedAgain := by
  have first : kanidmSystem.Reaches booted firstFailed := by
    refine .trans (.single (System.step_start (i := false) rfl (.inl rfl))) ?_
    have permitted : kanidmSystem.Permits (fun _ => unreachable) (booted.set booted.state false ssoRequest)
        (List.replicate 8 false) := ⟨rfl, trivial, trivial, trivial, trivial, trivial, trivial, trivial, trivial⟩
    exact permitted.reaches
  have pause : kanidmSystem.Step firstFailed paused := .outside _ ⟨RETRY_COOLDOWN, Users.empty, Nat.zero_le _⟩
  have second : kanidmSystem.Reaches paused askedAgain := by
    refine .trans (.single (System.step_start (i := true) rfl (.inl rfl))) ?_
    have permitted : kanidmSystem.Permits (fun _ => unreachable) (paused.set paused.state true ssoRequest)
        (List.replicate 4 true) := ⟨rfl, trivial, trivial, trivial, trivial⟩
    exact permitted.reaches
  exact (first.tail pause).trans second

theorem discovery_attempts_spaced_askedAgain :
    askedAgain.state.attempts.IsChain Spaced ∧ askedAgain.state.stores.length ≤ 1 :=
  discovery_attempts_spaced askedAgain_reached

example : askedAgain.state.attempts.map (·.sent) = [RETRY_COOLDOWN, 0] := rfl

end Sso
end MailKeep
