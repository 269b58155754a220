import MailKeep.Frontend.OidcCell

/-! Whom single sign-on lets in: each login spends a flow of its own, and a flow that was started stays good for its time. -/
namespace MailKeep
open Program

/-- A take returns an entry that is stored and no older than its time to live. -/
theorem takeState_eq_some {now : Instant} {state : String} {store : StateStore} {entry : StateEntry} :
    (takeState now state store).1 = some entry ↔
      store state = some entry ∧ now.durationSince entry.createdAt ≤ STATE_ENTRY_TTL := by
  unfold takeState
  cases there : store state with
  | none => simp
  | some found =>
    by_cases expired : now.durationSince found.createdAt > STATE_ENTRY_TTL
    · simp only [if_pos expired]
      refine iff_of_false nofun ?_
      rintro ⟨same, fresh⟩
      cases same
      exact absurd fresh (Nat.not_le.mpr expired)
    · simp only [if_neg expired]
      constructor
      · intro same
        cases same
        exact ⟨rfl, Nat.not_lt.mp expired⟩
      · exact And.left

/-- The taken state is gone, and the others are as they were. -/
theorem takeState_store (now : Instant) (state : String) (store : StateStore) :
    (takeState now state store).2 = Function.update store state none := by
  unfold takeState
  split
  · rename_i absent
    exact (Function.update_eq_self_iff.mpr absent.symm).symm
  · rfl

private theorem EmailAddress.text_of_new {text : String} {email : EmailAddress}
    (h : EmailAddress.new text = .ok email) :
    email.text = text := by
  unfold EmailAddress.new at h
  split at h
  · cases h
    rfl
  · cases h

namespace SsoServer
variable {s : SsoServer} {store k : Nat} {now : Instant} {state other : String} {entry : StateEntry}

theorem storeAt_set (flows : StateStore) : ({ s with stores := s.stores.set store flows } : SsoServer).storeAt k =
    if k = store ∧ store < s.stores.length then flows else s.storeAt k := by
  unfold storeAt
  rw [List.getElem?_set]
  by_cases same : store = k
  · subst same
    by_cases within : store < s.stores.length
    · simp [within]
    · simp [within]
  · simp [same, Ne.symm same]

private theorem lt_of_storeAt (stored : s.storeAt store state = some entry) : store < s.stores.length := by
  by_contra beyond
  rw [storeAt, List.getElem?_eq_none (Nat.not_lt.mp beyond)] at stored
  cases stored

/-- What is stored after a start is the new flow or was there before. -/
private theorem storeAt_start {nonce pkceVerifier : String}
    (stored : (s.start store now state nonce pkceVerifier).storeAt k other = some entry) :
    (k = store ∧ other = state ∧ entry = ⟨nonce, pkceVerifier, now⟩) ∨ s.storeAt k other = some entry := by
  change ({ s with stores := s.stores.set store _ } : SsoServer).storeAt k other = some entry at stored
  rw [storeAt_set] at stored
  split at stored
  · rename_i here
    obtain ⟨rfl, -⟩ := here
    rw [storeState, Function.update_apply] at stored
    split at stored
    · rename_i same
      cases stored
      exact .inl ⟨rfl, same, rfl⟩
    · exact .inr (Option.filter_eq_some_iff.mp stored).1
  · exact .inr stored

private theorem storeAt_take (stored : (s.take store now state).storeAt k other = some entry) :
    s.storeAt k other = some entry ∧ ¬ (k = store ∧ other = state) := by
  change ({ s with stores := s.stores.set store _ } : SsoServer).storeAt k other = some entry at stored
  rw [storeAt_set] at stored
  split at stored
  · rename_i here
    obtain ⟨rfl, -⟩ := here
    rw [takeState_store, Function.update_apply] at stored
    split at stored
    · cases stored
    · rename_i different
      exact ⟨stored, fun same => different same.2⟩
  · rename_i elsewhere
    refine ⟨stored, ?_⟩
    rintro ⟨rfl, rfl⟩
    exact elsewhere ⟨rfl, lt_of_storeAt stored⟩

theorem storeAt_newStore : ({ s with stores := s.stores ++ [fun _ => none] } : SsoServer).storeAt k = s.storeAt k := by
  unfold storeAt
  by_cases within : k < s.stores.length
  · rw [List.getElem?_append_left within]
  · rw [List.getElem?_append_right (Nat.not_lt.mp within), List.getElem?_eq_none (Nat.not_lt.mp within)]
    cases k - s.stores.length <;> rfl

end SsoServer

namespace Sso

variable {ι : Type} {lib : OidcLibrary} {config : OidcConfig} {baseUrl : String}

inductive Fate (ι : Type)
  | stored
  | held (i : ι)
  | spent (login : Nat)

structure Finds (s : SsoServer) (f : StartedFlow) (a : Admission) : Prop where
  state : a.state = f.state
  entry : a.entry = f.entry
  taken : f.state ∈ s.takes
  past : a.now ≤ s.now
  fresh : a.now.durationSince f.entry.createdAt ≤ STATE_ENTRY_TTL

/-- The provider gave an ID token for the verifier of the flow, the token was accepted for its nonce, and a row of the
users table had the address that the token has. -/
def Names (lib : OidcLibrary) (s : SsoServer) (entry : StateEntry) (user : User) : Prop :=
  ∃ idToken client claims, (entry.pkceVerifier, idToken) ∈ s.exchanges ∧ lib.Accepts client idToken entry.nonce claims ∧
    claims.email = some user.emailAddress.text ∧ user ∈ s.found

def Grants (lib : OidcLibrary) (s : SsoServer) (f : StartedFlow) (id : UserId) : Prop :=
  ∃ a user, Finds s f a ∧ Names lib s f.entry user ∧ user.id = id

def FlowPlace.admission? : FlowPlace → Option Admission
  | taken a | exchanged a _ | claimed a _ _ _ | found a _ _ _ _ => some a
  | idle | drawn _ | timed _ _ | clocked _ => none

def FlowPlace.Shows (lib : OidcLibrary) (s : SsoServer) : FlowPlace → Prop
  | clocked now => now ≤ s.now
  | exchanged a idToken => (a.entry.pkceVerifier, idToken) ∈ s.exchanges
  | claimed a idToken client claims =>
    (a.entry.pkceVerifier, idToken) ∈ s.exchanges ∧ lib.Accepts client idToken a.entry.nonce claims
  | found a _ _ _ user => Names lib s a.entry user
  | idle | drawn _ | timed _ _ | taken _ => True

/-- Each flow in a store, in the hands of a callback or behind a login was started, and it is in one place only. -/
structure Accounted (lib : OidcLibrary) (fate : Nat → Fate ι) (s : SsoServer) (places : ι → Place) : Prop where
  stored : ∀ k state entry, s.storeAt k state = some entry → ∃ n, s.starts[n]? = some ⟨k, state, entry⟩ ∧ fate n = .stored
  held : ∀ i a, (places i).flow.admission? = some a → ∃ n f, s.starts[n]? = some f ∧ fate n = .held i ∧ Finds s f a
  shown : ∀ i, (places i).flow.Shows lib s
  spent : ∀ m id, s.logins[m]? = some id → ∃ n f, s.starts[n]? = some f ∧ fate n = .spent m ∧ Grants lib s f id

structure Onward (s t : SsoServer) : Prop where
  now : s.now ≤ t.now
  starts : s.starts <+: t.starts
  takes : s.takes ⊆ t.takes
  exchanges : s.exchanges ⊆ t.exchanges
  found : s.found ⊆ t.found

namespace Onward
variable {s t : SsoServer} {f : StartedFlow} {a : Admission}

theorem still (starts : t.starts = s.starts) (takes : t.takes = s.takes) (exchanges : t.exchanges = s.exchanges)
    (found : t.found = s.found) (now : t.now = s.now) : Onward s t :=
  ⟨now.ge, starts ▸ List.prefix_rfl, takes ▸ List.Subset.refl _, exchanges ▸ List.Subset.refl _,
    found ▸ List.Subset.refl _⟩

theorem refl (s : SsoServer) : Onward s s := still rfl rfl rfl rfl rfl

theorem started (on : Onward s t) {n : Nat} (h : s.starts[n]? = some f) : t.starts[n]? = some f := by
  obtain ⟨later, grown⟩ := on.starts
  rw [← grown, List.getElem?_append_left (List.getElem?_eq_some_iff.mp h).1]
  exact h

theorem finds (on : Onward s t) (h : Finds s f a) : Finds t f a :=
  ⟨h.state, h.entry, on.takes h.taken, h.past.trans on.now, h.fresh⟩

theorem names (on : Onward s t) {entry : StateEntry} {user : User} (h : Names lib s entry user) :
    Names lib t entry user := by
  obtain ⟨idToken, client, claims, exchanged, accepted, address, row⟩ := h
  exact ⟨idToken, client, claims, on.exchanges exchanged, accepted, address, on.found row⟩

theorem grants (on : Onward s t) {id : UserId} (h : Grants lib s f id) : Grants lib t f id := by
  obtain ⟨a, user, finds, names, same⟩ := h
  exact ⟨a, user, on.finds finds, on.names names, same⟩

theorem shows (on : Onward s t) {flow : FlowPlace} (h : flow.Shows lib s) : flow.Shows lib t := by
  cases flow with
  | clocked now => exact le_trans h on.now
  | exchanged a idToken => exact on.exchanges h
  | claimed a idToken client claims => exact ⟨on.exchanges h.1, h.2⟩
  | found a idToken client claims user => exact on.names h
  | idle | drawn | timed | taken => trivial

end Onward

theorem clock_phase_some {place : Place} {phase : CellPhase} (here : place.phase = some phase) (t : Instant) :
    (place.clock t).flow = place.flow := by
  rw [Place.clock, here]

theorem clock_phase_none {place : Place} (here : place.phase = none) (t : Instant) :
    (place.clock t).flow = place.flow.clock t := by
  rw [Place.clock, here]

namespace Accounted
variable {s t : SsoServer} {places : ι → Place} {fate : Nat → Fate ι} {i : ι} {place : Place}

theorem boot (now : Instant) (users : Users) :
    Accounted lib (fun _ => .stored) (.boot now users) fun _ : ι => Place.start where
  stored k state entry there := by cases there
  held i a got := by cases got
  shown i := trivial
  spent m id login := by cases login

private theorem spent_onward (h : Accounted lib fate s places) (on : Onward s t) {m : Nat} {id : UserId}
    (login : s.logins[m]? = some id) : ∃ n f, t.starts[n]? = some f ∧ fate n = .spent m ∧ Grants lib t f id := by
  obtain ⟨n, f, started, behind, grants⟩ := h.spent m id login
  exact ⟨n, f, on.started started, behind, on.grants grants⟩

variable [DecidableEq ι]

/-- The other requests, and this one if it shows as much for its new place. -/
theorem shown_update (h : Accounted lib fate s places) (on : Onward s t) (shows : place.flow.Shows lib t) (j : ι) :
    (Function.update places i place j).flow.Shows lib t := by
  by_cases own : j = i
  · rw [own, Function.update_self]
    exact shows
  · rw [Function.update_of_ne own]
    exact on.shows (h.shown j)

private theorem held_update (h : Accounted lib fate s places) (on : Onward s t)
    (same : ∀ a, place.flow.admission? = some a → (places i).flow.admission? = some a) (j : ι) (a : Admission)
    (got : (Function.update places i place j).flow.admission? = some a) :
    ∃ n f, t.starts[n]? = some f ∧ fate n = .held j ∧ Finds t f a := by
  have before : (places j).flow.admission? = some a := by
    by_cases own : j = i
    · subst own
      rw [Function.update_self] at got
      exact same a got
    · rw [Function.update_of_ne own] at got
      exact got
  obtain ⟨n, f, started, mine, finds⟩ := h.held j a before
  exact ⟨n, f, on.started started, mine, on.finds finds⟩

/-- A step that starts no flow, takes none and logs nobody in. -/
theorem advance (h : Accounted lib fate s places) (on : Onward s t)
    (stores : ∀ k state entry, t.storeAt k state = some entry → s.storeAt k state = some entry)
    (logins : t.logins = s.logins)
    (same : ∀ a, place.flow.admission? = some a → (places i).flow.admission? = some a)
    (shows : place.flow.Shows lib t) : Accounted lib fate t (Function.update places i place) where
  stored k state entry there := by
    obtain ⟨n, started, here⟩ := h.stored k state entry (stores k state entry there)
    exact ⟨n, on.started started, here⟩
  held := h.held_update on same
  shown := h.shown_update on shows
  spent m id login := by
    rw [logins] at login
    exact h.spent_onward on login

/-- What a step does to the cell is no matter of the flows. -/
theorem cell (h : Accounted lib fate s places) (on : Onward s t) (stores : ∀ k, t.storeAt k = s.storeAt k)
    (logins : t.logins = s.logins) (flow : place.flow = (places i).flow) :
    Accounted lib fate t (Function.update places i place) := by
  refine h.advance on (fun k _ _ there => stores k ▸ there) logins (fun a got => flow ▸ got) ?_
  rw [flow]
  exact on.shows (h.shown i)

/-- A callback that fails gives its flow up. -/
theorem ends (h : Accounted lib fate s places) (on : Onward s t) (stores : ∀ k, t.storeAt k = s.storeAt k)
    (logins : t.logins = s.logins) (flow : place.flow = .idle) :
    Accounted lib fate t (Function.update places i place) := by
  refine h.advance on (fun k _ _ there => stores k ▸ there) logins (fun a got => ?_) ?_
  · rw [flow] at got
    cases got
  · rw [flow]
    trivial

theorem clock (h : Accounted lib fate s places) :
    Accounted lib fate s (Function.update places i ((places i).clock s.now)) := by
  cases here : (places i).phase with
  | some phase => exact h.cell (.refl s) (fun _ => rfl) rfl (clock_phase_some here s.now)
  | none =>
    have shown := h.shown i
    refine h.advance (.refl s) (fun _ _ _ there => there) rfl ?_ ?_
    · rw [clock_phase_none here]
      cases (places i).flow <;> exact fun a got => got
    · rw [clock_phase_none here]
      cases there : (places i).flow <;> rw [there] at shown <;> first | exact shown | exact le_rfl

theorem exchange (h : Accounted lib fate s places) {a : Admission} (taken : (places i).flow = .taken a)
    (r : Except String (Option String)) (flow : place.flow = (FlowPlace.taken a).exchange r) :
    Accounted lib fate (s.exchanged a.entry.pkceVerifier r) (Function.update places i place) := by
  match r with
  | .error e => exact h.ends (.refl s) (fun _ => rfl) rfl flow
  | .ok none => exact h.ends (.refl s) (fun _ => rfl) rfl flow
  | .ok (some idToken) =>
    refine h.advance ?_ (fun _ _ _ there => there) rfl (fun b got => ?_) ?_
    · exact ⟨le_rfl, List.prefix_rfl, List.Subset.refl _, List.subset_append_left _ _, List.Subset.refl _⟩
    · rw [flow] at got
      exact (congrArg FlowPlace.admission? taken).trans got
    · rw [flow]
      exact List.mem_append_right _ (List.mem_singleton_self _)

theorem claim (h : Accounted lib fate s places) {a : Admission} {idToken : String} {client : OidcClient}
    (exchanged : (places i).flow = .exchanged a idToken) (r : Except String IdTokenClaims)
    (accepted : ∀ claims, r = .ok claims → lib.Accepts client idToken a.entry.nonce claims)
    (flow : place.flow = (FlowPlace.exchanged a idToken).claim client r) :
    Accounted lib fate s (Function.update places i place) := by
  cases r with
  | error e => exact h.ends (.refl s) (fun _ => rfl) rfl flow
  | ok claims =>
    have shown := h.shown i
    rw [exchanged] at shown
    refine h.advance (.refl s) (fun _ _ _ there => there) rfl (fun b got => ?_) ?_
    · rw [flow] at got
      exact (congrArg FlowPlace.admission? exchanged).trans got
    · rw [flow]
      exact ⟨shown, accepted claims rfl⟩

theorem find (h : Accounted lib fate s places) {a : Admission} {idToken : String} {client : OidcClient}
    {claims : IdTokenClaims} {emailClaim : String} {email : EmailAddress}
    (claimed : (places i).flow = .claimed a idToken client claims) (named : claims.email = some emailClaim)
    (valid : EmailAddress.new emailClaim = .ok email) (pick : Except DbErr Nat)
    (flow : place.flow = (FlowPlace.claimed a idToken client claims).find (s.isValidEmail email pick).1) :
    Accounted lib fate (s.isValidEmail email pick).2 (Function.update places i place) := by
  cases pick with
  | error e => exact h.ends (.refl s) (fun _ => rfl) rfl flow
  | ok pick =>
    let row := UserRepository.one pick (s.users.rows.filter (·.emailAddress = email))
    have on : Onward s { s with found := row.toList ++ s.found } :=
      ⟨le_rfl, List.prefix_rfl, List.Subset.refl _, List.Subset.refl _, List.subset_append_right _ _⟩
    change Accounted lib fate { s with found := row.toList ++ s.found } (Function.update places i place)
    change place.flow = (FlowPlace.claimed a idToken client claims).find (.ok row) at flow
    cases found : row with
    | none =>
      rw [found] at flow
      exact h.ends (.still rfl rfl rfl rfl rfl) (fun _ => rfl) rfl flow
    | some user =>
      rw [found] at on flow
      have shown := h.shown i
      rw [claimed] at shown
      refine h.advance on (fun _ _ _ there => there) rfl (fun b got => ?_) ?_
      · rw [flow] at got
        exact (congrArg FlowPlace.admission? claimed).trans got
      · rw [flow]
        have address : user.emailAddress = email :=
          of_decide_eq_true (List.mem_filter.mp (UserRepository.one_eq_some found)).2
        refine ⟨idToken, client, claims, shown.1, shown.2, ?_, List.mem_append_left _ (List.mem_singleton_self _)⟩
        rw [named, address, EmailAddress.text_of_new valid]

theorem start (h : Accounted lib fate s places) (store : Nat) (now : Instant) (state nonce pkceVerifier : String)
    (same : ∀ a, place.flow.admission? = some a → (places i).flow.admission? = some a) (idle : place.flow.Shows lib s) :
    Accounted lib (Function.update fate s.starts.length .stored) (s.start store now state nonce pkceVerifier)
      (Function.update places i place) := by
  have on : Onward s (s.start store now state nonce pkceVerifier) :=
    ⟨le_rfl, List.prefix_append _ _, List.Subset.refl _, List.Subset.refl _, List.Subset.refl _⟩
  -- the new flow has no other place
  have old {n : Nat} {f : StartedFlow} (started : s.starts[n]? = some f) :
      Function.update fate s.starts.length .stored n = fate n :=
    Function.update_of_ne (Nat.ne_of_lt (List.getElem?_eq_some_iff.mp started).1) ..
  refine ⟨fun k other entry there => ?_, fun j a got => ?_, h.shown_update on (on.shows idle), fun m id login => ?_⟩
  · rcases SsoServer.storeAt_start there with ⟨rfl, rfl, rfl⟩ | before
    · refine ⟨s.starts.length, ?_, Function.update_self ..⟩
      exact List.getElem?_concat_length
    · obtain ⟨n, started, here⟩ := h.stored k other entry before
      exact ⟨n, on.started started, (old started).trans here⟩
  · obtain ⟨n, f, started, mine, finds⟩ := h.held_update (t := s)
      ⟨le_rfl, List.prefix_rfl, List.Subset.refl _, List.Subset.refl _, List.Subset.refl _⟩ same j a got
    exact ⟨n, f, on.started started, (old started).trans mine, on.finds finds⟩
  · obtain ⟨n, f, started, behind, grants⟩ := h.spent m id login
    exact ⟨n, f, on.started started, (old started).trans behind, on.grants grants⟩

/-- A take that finds nothing in time. -/
private theorem takeNone (h : Accounted lib fate s places) (store : Nat) (now : Instant) (state : String)
    (same : ∀ a, place.flow.admission? = some a → (places i).flow.admission? = some a) (idle : place.flow.Shows lib s) :
    Accounted lib fate (s.take store now state) (Function.update places i place) := by
  have on : Onward s (s.take store now state) :=
    ⟨le_rfl, List.prefix_rfl, List.subset_append_left _ _, List.Subset.refl _, List.Subset.refl _⟩
  exact h.advance on (fun k other entry there => (SsoServer.storeAt_take there).1) rfl same (on.shows idle)

/-- A take hands the flow to the callback. -/
private theorem takeSome (h : Accounted lib fate s places) {store : Nat} {now : Instant} {state : String}
    {entry : StateEntry}
    (found : (takeState now state (s.storeAt store)).1 = some entry) (past : now ≤ s.now)
    (flow : place.flow = .taken ⟨now, state, entry⟩) :
    ∃ fate, Accounted lib fate (s.take store now state) (Function.update places i place) := by
  have on : Onward s (s.take store now state) :=
    ⟨le_rfl, List.prefix_rfl, List.subset_append_left _ _, List.Subset.refl _, List.Subset.refl _⟩
  obtain ⟨there, fresh⟩ := takeState_eq_some.mp found
  obtain ⟨n, started, here⟩ := h.stored store state entry there
  have old {n' : Nat} (elsewhere : fate n' ≠ .stored) : Function.update fate n (.held i) n' = fate n' := by
    refine Function.update_of_ne ?_ ..
    rintro rfl
    exact elsewhere here
  refine ⟨Function.update fate n (.held i), fun k other e left => ?_, fun j a got => ?_, h.shown_update on ?_, ?_⟩
  · obtain ⟨before, different⟩ := SsoServer.storeAt_take left
    obtain ⟨n', started', here'⟩ := h.stored k other e before
    refine ⟨n', started', ?_⟩
    rw [Function.update_of_ne, here']
    rintro rfl
    cases started.symm.trans started'
    exact different ⟨rfl, rfl⟩
  · by_cases own : j = i
    · subst own
      rw [Function.update_self, flow] at got
      cases got
      refine ⟨n, _, started, Function.update_self .., rfl, rfl, ?_, past, fresh⟩
      exact List.mem_append_right _ (List.mem_singleton_self _)
    · rw [Function.update_of_ne own] at got
      obtain ⟨n', f, started', mine, finds⟩ := h.held j a got
      exact ⟨n', f, started', (old (by rw [mine]; nofun)).trans mine, on.finds finds⟩
  · rw [flow]
    trivial
  · intro m id login
    obtain ⟨n', f, started', behind, grants⟩ := h.spent m id login
    exact ⟨n', f, started', (old (by rw [behind]; nofun)).trans behind, on.grants grants⟩

/-- A login spends the flow in the callback's hands. -/
theorem login (h : Accounted lib fate s places) {a : Admission} {idToken : String} {client : OidcClient}
    {claims : IdTokenClaims} {user : User} (flow : (places i).flow = .found a idToken client claims user)
    (idle : place.flow = .idle) :
    ∃ fate, Accounted lib fate { s with logins := s.logins ++ [user.id] } (Function.update places i place) := by
  have on : Onward s { s with logins := s.logins ++ [user.id] } :=
    ⟨le_rfl, List.prefix_rfl, List.Subset.refl _, List.Subset.refl _, List.Subset.refl _⟩
  obtain ⟨n, f, started, mine, finds⟩ := h.held i a (by rw [flow]; rfl)
  have names : Names lib s a.entry user := by
    have shown := h.shown i
    rw [flow] at shown
    exact shown
  have old {n' : Nat} (elsewhere : fate n' ≠ .held i) :
      Function.update fate n (.spent s.logins.length) n' = fate n' := by
    refine Function.update_of_ne ?_ ..
    rintro rfl
    exact elsewhere mine
  refine ⟨Function.update fate n (.spent s.logins.length), fun k other e there => ?_, fun j a' got => ?_,
    h.shown_update on ?_, fun m id login => ?_⟩
  · obtain ⟨n', started', here⟩ := h.stored k other e there
    exact ⟨n', started', (old (by rw [here]; nofun)).trans here⟩
  · by_cases own : j = i
    · subst own
      rw [Function.update_self, idle] at got
      cases got
    · rw [Function.update_of_ne own] at got
      obtain ⟨n', f', started', held, finds'⟩ := h.held j a' got
      refine ⟨n', f', started', (old ?_).trans held, on.finds finds'⟩
      rw [held]
      intro same
      cases same
      exact own rfl
  · rw [idle]
    trivial
  · rcases Nat.lt_or_ge m s.logins.length with before | last
    · rw [List.getElem?_append_left before] at login
      obtain ⟨n', f', started', behind, grants⟩ := h.spent m id login
      exact ⟨n', f', started', (old (by rw [behind]; nofun)).trans behind, on.grants grants⟩
    · rw [List.getElem?_append_right last, List.getElem?_singleton] at login
      split at login
      · rename_i first
        cases login
        obtain rfl : m = s.logins.length := by omega
        refine ⟨n, f, started, Function.update_self .., on.grants ⟨a, user, finds, finds.entry ▸ names, rfl⟩⟩
      · cases login

end Accounted

private theorem keeps_accounted [DecidableEq ι] {may : SsoServer → FlowDraw → Prop} :
    (handlers ι).Keeps (ssoSystem ι lib config baseUrl may) fun s places => ∃ fate, Accounted lib fate s places where
  begins s places i p h root idle := by
    obtain ⟨fate, h⟩ := h
    exact ⟨.start, fits_root root, fate,
      h.advance (.refl s) (fun _ _ _ there => there) rfl (fun a got => by cases got) trivial⟩
  op s places i o ch h ready ok := by
    obtain ⟨fate, h⟩ := h
    cases o with
    | lockCell | sendDiscovery _ | setCell _ | unlockCell =>
      exact ⟨fate, h.cell (.still rfl rfl rfl rfl rfl) (fun _ => rfl) rfl rfl⟩
    | now => exact ⟨fate, h.clock⟩
    | receiveDiscovery =>
      match ch with
      | none | some (.ok _) | some (.error _) =>
        exact ⟨fate, h.cell (.still rfl rfl rfl rfl rfl) (fun _ => rfl) rfl rfl⟩
    | newStore => exact ⟨fate, h.cell (.still rfl rfl rfl rfl rfl) (fun _ => SsoServer.storeAt_newStore) rfl rfl⟩
    | buildHttpClient => exact ⟨fate, h.cell (.refl s) (fun _ => rfl) rfl rfl⟩
    | draw =>
      exact ⟨fate, h.advance (.still rfl rfl rfl rfl rfl) (fun _ _ _ there => there) rfl (fun a got => by cases got) trivial⟩
    | storeState store now state nonce pkceVerifier =>
      exact ⟨_, h.start store now state nonce pkceVerifier (fun a got => by cases got) trivial⟩
    | takeState store now state =>
      have past : now ≤ s.now := by
        have shown := h.shown i
        rw [ready] at shown
        exact shown
      change ∃ fate, Accounted lib fate (s.take store now state) (Function.update places i
        ((handlers ι).after (places i) (.takeState store now state) (takeState now state (s.storeAt store)).1))
      cases found : (takeState now state (s.storeAt store)).1 with
      | none => exact ⟨fate, h.takeNone store now state (fun a got => by cases got) trivial⟩
      | some entry => exact h.takeSome found past rfl
    | exchangeCode client code pkceVerifier =>
      obtain ⟨a, taken, rfl⟩ := ready
      exact ⟨fate, h.exchange taken ch (congrArg (FlowPlace.exchange · ch) taken)⟩
    | claims client idToken nonce =>
      obtain ⟨a, exchanged, rfl⟩ := ready
      refine ⟨fate, h.claim exchanged ch ?_ (congrArg (FlowPlace.claim client · ch) exchanged)⟩
      rintro claims rfl
      exact ok
    | isValidEmail email =>
      obtain ⟨a, idToken, client, claims, emailClaim, claimed, named, valid⟩ := ready
      exact ⟨fate, h.find claimed named valid ch (congrArg (FlowPlace.find · (s.isValidEmail email ch).1) claimed)⟩
    | loginUser id =>
      obtain ⟨a, idToken, client, claims, user, flow, rfl⟩ := ready
      exact h.login flow rfl
  env s t places h outside := by
    obtain ⟨fate, h⟩ := h
    obtain ⟨later, users, forward⟩ := outside
    have on : Onward s { s with now := later, users := users } :=
      ⟨forward, List.prefix_rfl, List.Subset.refl _, List.Subset.refl _, List.Subset.refl _⟩
    refine ⟨fate, h.stored, fun i a got => ?_, fun i => on.shows (h.shown i), fun m id login => h.spent_onward on login⟩
    obtain ⟨n, f, started, mine, finds⟩ := h.held i a got
    exact ⟨n, f, started, mine, on.finds finds⟩
  crash _ _ _ _ crashed := by cases crashed

/-- Each login was for a flow of its own, which this server had started: a callback brought its state within its time
to live, the provider gave an ID token for its verifier, the token was accepted for its nonce, and the user that is logged
in had the address that the token has. -/
theorem logins_spend_flows [DecidableEq ι] {may : SsoServer → FlowDraw → Prop} {now : Instant} {users : Users}
    {c : Config sso ι (Except Dropped SsoReply)}
    (run : (ssoSystem ι lib config baseUrl may).Reaches (.idle (.boot now users)) c) :
    ∃ flow : Fin c.state.logins.length → Fin c.state.starts.length, Function.Injective flow ∧
      ∀ m, Grants lib c.state (c.state.starts.get (flow m)) (c.state.logins.get m) := by
  obtain ⟨places, -, fate, accounted⟩ :=
    keeps_accounted.reaches ((handlers ι).linked_idle _) ⟨_, Accounted.boot now users⟩ run
  have behind (m : Fin c.state.logins.length) : ∃ n : Fin c.state.starts.length, fate n = .spent m ∧
      Grants lib c.state (c.state.starts.get n) (c.state.logins.get m) := by
    obtain ⟨n, f, started, spent, grants⟩ := accounted.spent m _ (List.getElem?_eq_getElem m.isLt)
    obtain ⟨within, rfl⟩ := List.getElem?_eq_some_iff.mp started
    exact ⟨⟨n, within⟩, spent, grants⟩
  choose flow spent grants using behind
  refine ⟨flow, fun m m' same => ?_, grants⟩
  have equal := (spent m).symm.trans (same ▸ spent m')
  cases m
  cases m'
  cases equal
  rfl

def anna : User := ⟨1, 1, "anna", "Anna", "salt$secret", ⟨"anna@example.org", by decide⟩, [], false⟩

def annaOnly : Users := ⟨⟨[anna], by simp⟩, by simp, by simp⟩

def reachable : (o : SsoOp) → SsoOp.Choice o
  | .buildHttpClient => .ok ()
  | .receiveDiscovery => some (.ok "metadata")
  | .draw => ⟨"challenge", "verifier", "csrf", "nonce"⟩
  | .exchangeCode _ _ _ => .ok (some "token")
  | .claims _ _ _ => .ok ⟨some "anna@example.org"⟩
  | .isValidEmail _ => .ok 0
  | .lockCell | .now | .newStore | .takeState _ _ _ | .sendDiscovery _ | .setCell _ | .unlockCell | .storeState _ _ _ _ _
  | .loginUser _ => ()

def annaBooted : Config sso Bool (Except Dropped SsoReply) := .idle (.boot 0 annaOnly)

def flowOpened : Config sso Bool (Except Dropped SsoReply) :=
  annaBooted.set annaBooted.state false (startHandler anyUrl kanidm "http://0.0.0.0:8080").run

def flowStarted : Config sso Bool (Except Dropped SsoReply) :=
  (List.replicate 11 false).foldl (fun c i => c.advance reachable i) flowOpened

def callbackOpened : Config sso Bool (Except Dropped SsoReply) :=
  flowStarted.set flowStarted.state true
    (callbackHandler anyUrl kanidm "http://0.0.0.0:8080" ⟨some "code", some "csrf", none, none⟩).run

def calledBack : Config sso Bool (Except Dropped SsoReply) :=
  (List.replicate 9 true).foldl (fun c i => c.advance reachable i) callbackOpened

theorem flowStarted_reached : kanidmSystem.Reaches annaBooted flowStarted := by
  have opened : kanidmSystem.Step annaBooted flowOpened := System.step_start rfl (.inr (.inl rfl))
  have permitted : kanidmSystem.Permits (fun _ => reachable) flowOpened (List.replicate 11 false) :=
    ⟨rfl, trivial, trivial, trivial, trivial, trivial, trivial, trivial, List.not_mem_nil, trivial, trivial, trivial⟩
  exact .head opened permitted.reaches

private theorem calledBack_reached : kanidmSystem.Reaches annaBooted calledBack := by
  have opened : kanidmSystem.Step flowStarted callbackOpened := System.step_start rfl (.inr (.inr ⟨_, rfl⟩))
  have permitted : kanidmSystem.Permits (fun _ => reachable) callbackOpened (List.replicate 9 true) :=
    ⟨rfl, trivial, trivial, trivial, trivial, trivial, trivial, trivial, trivial, trivial⟩
  exact flowStarted_reached.trans (.head opened permitted.reaches)

/-- The login there is was for the flow that was started. -/
theorem logins_spend_flows_calledBack : ∃ flow : Fin calledBack.state.logins.length → Fin calledBack.state.starts.length,
    Function.Injective flow ∧
      ∀ m, Grants anyUrl calledBack.state (calledBack.state.starts.get (flow m)) (calledBack.state.logins.get m) :=
  logins_spend_flows calledBack_reached

example : calledBack.state.logins = [1] := rfl

end Sso
end MailKeep
