import MailKeep.Frontend.OidcLogin

/-! What a user who has started a sign-on may count on: his flow is there until its time is over or it is taken. -/
namespace MailKeep
open Program

namespace SsoServer
variable {s : SsoServer} {store k : Nat} {now : Instant} {state other nonce pkceVerifier : String} {entry : StateEntry}

private theorem storeAt_take_of_ne (different : other ≠ state) :
    (s.take store now state).storeAt k other = s.storeAt k other := by
  change ({ s with stores := s.stores.set store _ } : SsoServer).storeAt k other = _
  rw [storeAt_set]
  split
  · rename_i here
    rw [takeState_store, Function.update_of_ne different, here.1]
  · rfl

/-- A start leaves what is still in its time. -/
private theorem storeAt_start_of_ne (different : other ≠ state) (stored : s.storeAt k other = some entry)
    (fresh : now.durationSince entry.createdAt < STATE_ENTRY_TTL) :
    (s.start store now state nonce pkceVerifier).storeAt k other = some entry := by
  change ({ s with stores := s.stores.set store _ } : SsoServer).storeAt k other = _
  rw [storeAt_set]
  split
  · rename_i here
    rw [storeState, Function.update_of_ne different, ← here.1]
    exact Option.filter_eq_some_iff.mpr ⟨stored, decide_eq_true fresh⟩
  · exact stored

private theorem storeAt_start_self (within : store < s.stores.length) :
    (s.start store now state nonce pkceVerifier).storeAt store state = some ⟨nonce, pkceVerifier, now⟩ := by
  change ({ s with stores := s.stores.set store _ } : SsoServer).storeAt store state = _
  rw [storeAt_set, if_pos ⟨rfl, within⟩]
  unfold storeState
  exact Function.update_self ..

end SsoServer

def StartedFlow.InTime (f : StartedFlow) (s : SsoServer) : Prop :=
  f.state ∉ s.takes ∧ s.now < f.entry.createdAt + STATE_ENTRY_TTL

namespace Sso

variable {ι : Type} {lib : OidcLibrary} {config : OidcConfig} {baseUrl : String}

/-- The client of the cell has the only store there is. -/
theorem Celled.one {s : SsoServer} {places : ι → Place} (h : Celled s places) {client : OidcClient}
    (got : s.cell.client = some client) : client.store = 0 ∧ s.stores.length = 1 := by
  have searching (none : s.cell.client = none) : client.store = 0 ∧ s.stores.length = 1 := by
    cases got.symm.trans none
  cases h.guarded with
  | free unlocked outside rest => exact rest.one client got
  | held i phase locked here alone inside =>
    cases phase with
    | looked cell => exact inside.2.one client got
    | due cell now => exact inside.2.1.one client got
    | asking => exact searching inside.client
    | failed => exact searching inside.1.client
    | stamped now => exact searching inside.1.client
    | answered => exact searching inside.client
    | made store => exact searching inside.2.1
    | settled c => exact inside.2.one client got

def FlowPlace.draw? : FlowPlace → Option FlowDraw
  | drawn draw | timed draw _ => some draw
  | idle | clocked _ | taken _ | exchanged _ _ | claimed _ _ _ _ | found _ _ _ _ _ => none

def FlowPlace.time? : FlowPlace → Option Instant
  | timed _ now | clocked now => some now
  | idle | drawn _ | taken _ | exchanged _ _ | claimed _ _ _ _ | found _ _ _ _ _ => none

theorem sooner {now later created ttl : Nat} (past : now ≤ later) (early : later < created + ttl) (positive : 0 < ttl) :
    now - created < ttl := by
  omega

private theorem FlowPlace.exchange_none (flow : FlowPlace) (r : Except String (Option String)) :
    (flow.exchange r).draw? = none ∧ (flow.exchange r).time? = none := by
  unfold exchange
  split <;> exact ⟨rfl, rfl⟩

private theorem FlowPlace.claim_none (flow : FlowPlace) (client : OidcClient) (r : Except String IdTokenClaims) :
    (flow.claim client r).draw? = none ∧ (flow.claim client r).time? = none := by
  unfold claim
  split <;> exact ⟨rfl, rfl⟩

private theorem FlowPlace.find_none (flow : FlowPlace) (r : Except Error (Option User)) :
    (flow.find r).draw? = none ∧ (flow.find r).time? = none := by
  unfold find
  split <;> exact ⟨rfl, rfl⟩

private theorem FlowPlace.clock_draw (flow : FlowPlace) (t : Instant) : (flow.clock t).draw? = flow.draw? := by
  cases flow <;> rfl

private theorem FlowPlace.clock_time {flow : FlowPlace} {t now : Instant} (got : (flow.clock t).time? = some now) :
    flow.time? = some now ∨ now = t := by
  cases flow with
  | idle | drawn =>
    cases got
    exact .inr rfl
  | timed | clocked => exact .inl got
  | taken | exchanged | claimed | found => cases got

/-- A flow that can still be taken is stored; a state that a request has drawn is no other's. -/
structure Kept (s : SsoServer) (places : ι → Place) : Prop where
  celled : Celled s places
  owned : ∀ f ∈ s.starts, ∃ client, s.cell.client = some client ∧ f.store = client.store
  drawn : ∀ f ∈ s.starts, f.state ∈ s.drawn
  hand : ∀ i d, (places i).flow.draw? = some d → d.csrf ∈ s.drawn ∧ ∀ f ∈ s.starts, f.state ≠ d.csrf
  apart : ∀ i j d e, (places i).flow.draw? = some d → (places j).flow.draw? = some e → d.csrf = e.csrf → i = j
  read : ∀ i now, (places i).flow.time? = some now → now ≤ s.now
  kept : ∀ f ∈ s.starts, f.InTime s → s.storeAt f.store f.state = some f.entry

namespace Kept
variable {s t : SsoServer} {places : ι → Place} {i : ι} {place : Place}

theorem boot (now : Instant) (users : Users) : Kept (.boot now users) fun _ : ι => Place.start where
  celled := .boot now users
  owned f started := by cases started
  drawn f started := by cases started
  hand i d got := by cases got
  apart i j d e got := by cases got
  read i now got := by cases got
  kept f started := by cases started

/-- The cell has no client while its holder looks for one. -/
private theorem no_client (h : Kept s places) (looks : (∃ now, (places i).phase = some (.stamped now)) ∨
    ∃ made, (places i).phase = some (.made made)) : s.cell.client = none := by
  rcases looks with ⟨now, stamped⟩ | ⟨made, here⟩
  · exact (h.celled.guarded.inside stamped).2.2.1.client
  · exact (h.celled.guarded.inside here).2.2.2.1

variable [DecidableEq ι]

theorem read_update (h : Kept s places) (forward : s.now ≤ t.now)
    (time : ∀ now, place.flow.time? = some now → (places i).flow.time? = some now ∨ now ≤ t.now) (j : ι) (now : Instant)
    (got : (Function.update places i place j).flow.time? = some now) : now ≤ t.now := by
  by_cases own : j = i
  · subst own
    rw [Function.update_self] at got
    rcases time now got with before | fresh
    · exact (h.read j now before).trans forward
    · exact fresh
  · rw [Function.update_of_ne own] at got
    exact (h.read j now got).trans forward

/-- Who has a draw had it before, where this request gets no new one. -/
theorem draw_update (draw : ∀ d, place.flow.draw? = some d → (places i).flow.draw? = some d) {j : ι} {d : FlowDraw}
    (got : (Function.update places i place j).flow.draw? = some d) : (places j).flow.draw? = some d := by
  by_cases own : j = i
  · subst own
    rw [Function.update_self] at got
    exact draw d got
  · rwa [Function.update_of_ne own] at got

/-- A step that draws nothing, starts no flow and takes none. -/
theorem frame (h : Kept s places) (celled : Celled t (Function.update places i place)) (forward : s.now ≤ t.now)
    (cell : ∀ client, s.cell.client = some client → t.cell.client = some client) (starts : t.starts = s.starts)
    (takes : t.takes = s.takes) (drawn : t.drawn = s.drawn) (stores : ∀ k, t.storeAt k = s.storeAt k)
    (draw : ∀ d, place.flow.draw? = some d → (places i).flow.draw? = some d)
    (time : ∀ now, place.flow.time? = some now → (places i).flow.time? = some now ∨ now ≤ t.now) :
    Kept t (Function.update places i place) where
  celled := celled
  owned f started := by
    obtain ⟨client, got, same⟩ := h.owned f (starts ▸ started)
    exact ⟨client, cell client got, same⟩
  drawn f started := drawn ▸ h.drawn f (starts ▸ started)
  hand j d got := by
    rw [drawn, starts]
    exact h.hand j d (draw_update draw got)
  apart j k d e got got' := h.apart j k d e (draw_update draw got) (draw_update draw got')
  read := h.read_update forward time
  kept f started := by
    rw [starts] at started
    rintro ⟨left, early⟩
    rw [stores]
    exact h.kept f started ⟨takes ▸ left, lt_of_le_of_lt forward early⟩

/-- An operation that is no matter of the flows. -/
theorem still (h : Kept s places) (celled : Celled t (Function.update places i place)) (now : t.now = s.now)
    (cell : t.cell.client = s.cell.client) (starts : t.starts = s.starts) (takes : t.takes = s.takes)
    (drawn : t.drawn = s.drawn) (stores : ∀ k, t.storeAt k = s.storeAt k)
    (flow : (place.flow.draw? = none ∧ place.flow.time? = none) ∨ place.flow = (places i).flow) :
    Kept t (Function.update places i place) := by
  refine h.frame celled now.ge (fun client got => cell ▸ got) starts takes drawn stores (fun d got => ?_) fun t' got => ?_
  · rcases flow with none | same
    · cases none.1.symm.trans got
    · exact same ▸ got
  · rcases flow with none | same
    · cases none.2.symm.trans got
    · exact .inl (same ▸ got)

private theorem clock (h : Kept s places) (celled : Celled s (Function.update places i ((places i).clock s.now))) :
    Kept s (Function.update places i ((places i).clock s.now)) := by
  cases here : (places i).phase with
  | some phase => exact h.still celled rfl rfl rfl rfl rfl (fun _ => rfl) (.inr (clock_phase_some here s.now))
  | none =>
    have after : ((places i).clock s.now).flow = (places i).flow.clock s.now := clock_phase_none here s.now
    refine h.frame celled le_rfl (fun _ got => got) rfl rfl rfl (fun _ => rfl) (fun d got => ?_) fun t' got => ?_
    · rwa [after, FlowPlace.clock_draw] at got
    · rw [after] at got
      exact (FlowPlace.clock_time got).imp_right le_of_eq

theorem draw (h : Kept s places) {d : FlowDraw} (fresh : s.Fresh d)
    (celled : Celled { s with drawn := d.csrf :: s.drawn } (Function.update places i { places i with flow := .drawn d })) :
    Kept { s with drawn := d.csrf :: s.drawn } (Function.update places i { places i with flow := .drawn d }) where
  celled := celled
  owned := h.owned
  drawn f started := List.mem_cons_of_mem _ (h.drawn f started)
  hand j e got := by
    by_cases own : j = i
    · rw [own, Function.update_self] at got
      cases got
      refine ⟨List.mem_cons_self, fun f started same => ?_⟩
      exact fresh (same ▸ h.drawn f started)
    · rw [Function.update_of_ne own] at got
      obtain ⟨before, other⟩ := h.hand j e got
      exact ⟨List.mem_cons_of_mem _ before, other⟩
  apart j k d' e got got' same := by
    by_cases own : j = i <;> by_cases own' : k = i
    · rw [own, own']
    · rw [own, Function.update_self] at got
      rw [Function.update_of_ne own'] at got'
      cases got
      exact absurd (same ▸ (h.hand k e got').1) fresh
    · rw [Function.update_of_ne own] at got
      rw [own', Function.update_self] at got'
      cases got'
      exact absurd (same ▸ (h.hand j d' got).1) fresh
    · rw [Function.update_of_ne own] at got
      rw [Function.update_of_ne own'] at got'
      exact h.apart j k d' e got got' same
  read := h.read_update le_rfl fun now got => by cases got
  kept := h.kept

theorem start (h : Kept s places) {client : OidcClient} {draw : FlowDraw} {now : Instant}
    (got : (places i).client = some client) (timed : (places i).flow = .timed draw now)
    (idle : place.flow = .idle)
    (celled : Celled (s.start client.store now draw.csrf draw.nonce draw.pkceVerifier) (Function.update places i place)) :
    Kept (s.start client.store now draw.csrf draw.nonce draw.pkceVerifier) (Function.update places i place) := by
  have mine : (places i).flow.draw? = some draw := congrArg FlowPlace.draw? timed
  have past : now ≤ s.now := h.read i now (congrArg FlowPlace.time? timed)
  have cell := h.celled.clients i client got
  obtain ⟨drawn, fresh⟩ := h.hand i draw mine
  have other {j : ι} {d : FlowDraw} (theirs : (Function.update places i place j).flow.draw? = some d) :
      j ≠ i ∧ (places j).flow.draw? = some d := by
    by_cases own : j = i
    · rw [own, Function.update_self, idle] at theirs
      cases theirs
    · rw [Function.update_of_ne own] at theirs
      exact ⟨own, theirs⟩
  refine ⟨celled, fun f started => ?_, fun f started => ?_, fun j d theirs => ?_, fun j k d e theirs theirs' => ?_,
    h.read_update le_rfl fun t' clock => ?_, fun f started => ?_⟩
  · rcases List.mem_append.mp started with before | last
    · exact h.owned f before
    · cases List.mem_singleton.mp last
      exact ⟨client, cell, rfl⟩
  · rcases List.mem_append.mp started with before | last
    · exact h.drawn f before
    · cases List.mem_singleton.mp last
      exact drawn
  · obtain ⟨apart, before⟩ := other theirs
    refine ⟨(h.hand j d before).1, fun f started => ?_⟩
    rcases List.mem_append.mp started with old | last
    · exact (h.hand j d before).2 f old
    · cases List.mem_singleton.mp last
      exact fun same => apart (h.apart j i d draw before mine same.symm)
  · exact h.apart j k d e (other theirs).2 (other theirs').2
  · rw [idle] at clock
    cases clock
  · rintro ⟨left, early⟩
    rcases List.mem_append.mp started with before | last
    · refine SsoServer.storeAt_start_of_ne (fresh f before) (h.kept f before ⟨left, early⟩) ?_
      exact sooner past early (by decide)
    · cases List.mem_singleton.mp last
      exact SsoServer.storeAt_start_self (by rw [(h.celled.one cell).1, (h.celled.one cell).2]; exact Nat.one_pos)

theorem take (h : Kept s places) (store : Nat) (now : Instant) (state : String)
    (flow : place.flow.draw? = none ∧ place.flow.time? = none)
    (celled : Celled (s.take store now state) (Function.update places i place)) :
    Kept (s.take store now state) (Function.update places i place) where
  celled := celled
  owned := h.owned
  drawn := h.drawn
  hand j d got := h.hand j d (draw_update (fun e here => by cases flow.1.symm.trans here) got)
  apart j k d e got got' :=
    h.apart j k d e (draw_update (fun e here => by cases flow.1.symm.trans here) got)
      (draw_update (fun e here => by cases flow.1.symm.trans here) got')
  read := h.read_update le_rfl fun t' clock => by cases flow.2.symm.trans clock
  kept f started := by
    rintro ⟨left, early⟩
    obtain ⟨before, other⟩ := not_or.mp fun mem => left (List.mem_append.mpr mem)
    rw [SsoServer.storeAt_take_of_ne fun same => other (List.mem_singleton.mpr same)]
    exact h.kept f started ⟨before, early⟩

end Kept

private theorem keeps_kept [DecidableEq ι] : (handlers ι).Keeps
    (ssoSystem ι lib config baseUrl SsoServer.Fresh) Kept where
  begins s places i p h root idle := by
    have celled := h.celled.begins idle
    refine ⟨.start, fits_root root, h.frame celled le_rfl (fun _ got => got) rfl rfl rfl (fun _ => rfl) ?_ ?_⟩
    · exact fun d got => by cases got
    · exact fun t got => by cases got
  op s places i o ch h ready ok := by
    have keeps : (handlers ι).Keeps (ssoSystem ι lib config baseUrl SsoServer.Fresh) Celled := keeps_celled
    have celled := keeps.op s places i o ch h.celled ready ok
    cases o with
    | lockCell => exact h.still celled rfl rfl rfl rfl rfl (fun _ => rfl) (.inr rfl)
    | now => exact h.clock celled
    | sendDiscovery issuer => exact h.still celled rfl rfl rfl rfl rfl (fun _ => rfl) (.inr rfl)
    | receiveDiscovery =>
      match ch with
      | none => exact h.still celled rfl rfl rfl rfl rfl (fun _ => rfl) (.inr rfl)
      | some (.ok metadata) => exact h.still celled rfl rfl rfl rfl rfl (fun _ => rfl) (.inr rfl)
      | some (.error e) => exact h.still celled rfl rfl rfl rfl rfl (fun _ => rfl) (.inr rfl)
    | newStore => exact h.still celled rfl rfl rfl rfl rfl (fun _ => SsoServer.storeAt_newStore) (.inr rfl)
    | setCell cell =>
      refine h.frame celled le_rfl (fun client got => ?_) rfl rfl rfl (fun _ => rfl) (fun _ got => got) fun _ got => .inl got
      have looks : (∃ now, (places i).phase = some (.stamped now)) ∨ ∃ made, (places i).phase = some (.made made) :=
        ready.imp (fun ⟨now, stamped, _⟩ => ⟨now, stamped⟩) fun ⟨client, made, _⟩ => ⟨client.store, made⟩
      cases (h.no_client looks).symm.trans got
    | unlockCell => exact h.still celled rfl rfl rfl rfl rfl (fun _ => rfl) (.inr rfl)
    | buildHttpClient => exact h.still celled rfl rfl rfl rfl rfl (fun _ => rfl) (.inr rfl)
    | draw => exact h.draw ok celled
    | storeState store now state nonce pkceVerifier =>
      obtain ⟨client, draw, got, timed, rfl, rfl, rfl, rfl⟩ := ready
      exact h.start got timed rfl celled
    | takeState store now state =>
      refine h.take store now state ?_ celled
      cases (takeState now state (s.storeAt store)).1 <;> exact ⟨rfl, rfl⟩
    | exchangeCode client code pkceVerifier =>
      have gone := FlowPlace.exchange_none (places i).flow ch
      match ch with
      | .error e => exact h.still celled rfl rfl rfl rfl rfl (fun _ => rfl) (.inl gone)
      | .ok none => exact h.still celled rfl rfl rfl rfl rfl (fun _ => rfl) (.inl gone)
      | .ok (some idToken) => exact h.still celled rfl rfl rfl rfl rfl (fun _ => rfl) (.inl gone)
    | claims client idToken nonce =>
      exact h.still celled rfl rfl rfl rfl rfl (fun _ => rfl) (.inl (FlowPlace.claim_none _ client _))
    | isValidEmail email =>
      cases ch with
      | error e => exact h.still celled rfl rfl rfl rfl rfl (fun _ => rfl) (.inl (FlowPlace.find_none _ _))
      | ok pick => exact h.still celled rfl rfl rfl rfl rfl (fun _ => rfl) (.inl (FlowPlace.find_none _ _))
    | loginUser id => exact h.still celled rfl rfl rfl rfl rfl (fun _ => rfl) (.inl ⟨rfl, rfl⟩)
  env s t places h outside := by
    have keeps : (handlers ι).Keeps (ssoSystem ι lib config baseUrl SsoServer.Fresh) Celled := keeps_celled
    have celled := keeps.env s t places h.celled outside
    obtain ⟨later, users, forward⟩ := outside
    refine ⟨celled, h.owned, h.drawn, h.hand, h.apart, fun i now got => (h.read i now got).trans forward, ?_⟩
    rintro f started ⟨left, early⟩
    exact h.kept f started ⟨left, lt_of_le_of_lt forward early⟩
  crash _ _ _ _ crashed := by cases crashed

/-- Whatever else is started, taken or dropped meanwhile: as long as a flow that was started is in its time and nobody has
brought its state, the client of the cell has its nonce and its verifier for the callback that brings it. -/
theorem started_flow_kept [DecidableEq ι] {now : Instant} {users : Users} {c : Config sso ι (Except Dropped SsoReply)}
    (run : (ssoSystem ι lib config baseUrl SsoServer.Fresh).Reaches (.idle (.boot now users)) c) {f : StartedFlow}
    (started : f ∈ c.state.starts) (inTime : f.InTime c.state) : ∃ client, c.state.cell.client = some client ∧
      (takeState c.state.now f.state (c.state.storeAt client.store)).1 = some f.entry := by
  obtain ⟨places, -, kept⟩ := keeps_kept.reaches ((handlers ι).linked_idle _) (Kept.boot now users) run
  obtain ⟨client, got, same⟩ := kept.owned f started
  refine ⟨client, got, takeState_eq_some.mpr ⟨same ▸ kept.kept f started inTime, ?_⟩⟩
  exact (sooner le_rfl inTime.2 (by decide)).le

theorem started_flow_kept_flowStarted : ∃ client, flowStarted.state.cell.client = some client ∧
    (takeState 0 "csrf" (flowStarted.state.storeAt client.store)).1 = some ⟨"nonce", "verifier", 0⟩ := by
  have started : (⟨0, "csrf", ⟨"nonce", "verifier", 0⟩⟩ : StartedFlow) ∈ flowStarted.state.starts := List.mem_singleton.mpr rfl
  exact started_flow_kept flowStarted_reached started ⟨List.not_mem_nil, by decide⟩

end Sso
end MailKeep
