import MailKeep.Keyed.Expiring
import Mathlib.Data.Nat.Notation

/-! The in-flight states of single sign-on: stored once, taken at most once, and gone when their time is over. -/
namespace MailKeep

/-- A reading of the monotonic clock, in nanoseconds. -/
abbrev Instant := Nat

/-- No earlier instant is any time before: the difference is cut off at zero. -/
def Instant.durationSince (now earlier : Instant) : Nat := now - earlier

def STATE_ENTRY_TTL : Nat := 300000000000

structure StateEntry where
  nonce : String
  pkceVerifier : String
  createdAt : Instant
deriving DecidableEq

abbrev StateStore := String → Option StateEntry

/-- Purges the entries that have expired, then stores one. -/
def storeState (now : Instant) (state nonce pkceVerifier : String) (store : StateStore) : StateStore :=
  let retained := fun key => (store key).filter fun entry => now.durationSince entry.createdAt < STATE_ENTRY_TTL
  Function.update retained state (some ⟨nonce, pkceVerifier, now⟩)

/-- Removes the entry and returns it unless it has expired. -/
def takeState (now : Instant) (state : String) (store : StateStore) : Option StateEntry × StateStore :=
  match store state with
  | none => (none, store)
  | some entry =>
    (if now.durationSince entry.createdAt > STATE_ENTRY_TTL then none else some entry, Function.update store state none)

inductive FlowOp
  | storeState (state nonce pkceVerifier : String)
  | takeState (state : String)
deriving DecidableEq

abbrev FlowEvent := Instant × FlowOp

def FlowOp.state : FlowOp → String
  | storeState state _ _ | takeState state => state

def flowStep (store : StateStore) : FlowEvent → StateStore
  | (now, .storeState state nonce pkceVerifier) => storeState now state nonce pkceVerifier store
  | (now, .takeState state) => (takeState now state store).2

def storeAfter (ops : List FlowEvent) : StateStore := ops.foldl flowStep fun _ => none

def takenAfter (ops : List FlowEvent) (now : Instant) (state : String) :
    Option StateEntry := (takeState now state (storeAfter ops)).1

/-- The entry is the last one stored for the state, and it has not been taken since. -/
def InFlight (ops : List FlowEvent) (state : String) (entry : StateEntry) : Prop :=
  ∃ before after, ops = before ++ (entry.createdAt, .storeState state entry.nonce entry.pkceVerifier) :: after ∧
    ∀ e ∈ after, e.2.state ≠ state

/-- Every take returns the entry in flight as long as it is no older than its time to live, and nothing else. -/
def OneShot (ops : List FlowEvent) : Prop :=
  ∀ before now state after, ops = before ++ (now, .takeState state) :: after →
    ∀ entry, takenAfter before now state = some entry ↔
      InFlight before state entry ∧ now.durationSince entry.createdAt ≤ STATE_ENTRY_TTL

/-- Some state is taken at the last instant of its time to live, after another one has been stored at that instant. -/
def TakenAfterPurge (ops : List FlowEvent) : Prop :=
  ∃ before created state nonce pkceVerifier between after,
    ops = before ++ (created, .storeState state nonce pkceVerifier) :: between ++
      (created + STATE_ENTRY_TTL, .takeState state) :: after ∧
    (∀ e ∈ between, e.2.state ≠ state) ∧
    ∃ other nonce' pkceVerifier', (created + STATE_ENTRY_TTL, .storeState other nonce' pkceVerifier') ∈ between

def flowEffect : Keyed.Effect String StateEntry FlowEvent where
  key e := e.2.state
  entry
    | (now, .storeState _ nonce pkceVerifier) => some ⟨nonce, pkceVerifier, now⟩
    | (_, .takeState _) => none
  live
    | (now, .storeState _ _ _), entry => now.durationSince entry.createdAt < STATE_ENTRY_TTL
    | (_, .takeState _), _ => true

private theorem flowStep_eq (store : StateStore) (e : FlowEvent) : flowStep store e = flowEffect.step store e := by
  obtain ⟨now, op⟩ := e
  cases op with
  | storeState state nonce pkceVerifier => rfl
  | takeState state =>
    change (takeState now state store).2 = Function.update (fun key => (store key).filter fun _ => true) state none
    have kept : (fun key => (store key).filter fun _ => true) = store := by
      apply funext
      intro key
      cases store key <;> rfl
    rw [kept]
    unfold takeState
    split
    · rename_i absent
      exact (Function.update_eq_self_iff.mpr absent.symm).symm
    · rfl

private theorem storeAfter_eq (ops : List FlowEvent) : storeAfter ops = flowEffect.replay ops := by
  have same : flowStep = flowEffect.step := funext fun store => funext fun e => flowStep_eq store e
  rw [storeAfter, same, Keyed.Effect.replay]

theorem takenAfter_eq_some {ops : List FlowEvent} {now : Instant} {state : String} {entry : StateEntry} :
    takenAfter ops now state = some entry ↔
      storeAfter ops state = some entry ∧ now.durationSince entry.createdAt ≤ STATE_ENTRY_TTL := by
  unfold takenAfter takeState
  split
  · rename_i absent
    simp [absent]
  · rename_i found present
    rw [present]
    by_cases expired : now.durationSince found.createdAt > STATE_ENTRY_TTL
    · rw [if_pos expired]
      apply iff_of_false (by simp)
      rintro ⟨same, fresh⟩
      cases same
      exact absurd fresh (Nat.not_le.mpr expired)
    · rw [if_neg expired]
      constructor
      · intro same
        cases same
        exact ⟨rfl, Nat.not_lt.mp expired⟩
      · exact fun h => h.1

/-- The effect of the last operation on a state. -/
private theorem inFlight_iff {ops : List FlowEvent} {state : String} {entry : StateEntry} :
    InFlight ops state entry ↔ ∃ before e after, flowEffect.Pending ops state entry before e after := by
  constructor
  · rintro ⟨before, after, rfl, last⟩
    exact ⟨before, _, after, rfl, rfl, rfl, last⟩
  · rintro ⟨before, ⟨now, op⟩, after, he, hk, hv, last⟩
    cases op with
    | storeState state' nonce pkceVerifier =>
      cases hv
      cases hk
      exact ⟨before, after, he, last⟩
    | takeState state' => cases hv

private theorem InFlight.of_taken {ops : List FlowEvent} {now : Instant} {state : String} {entry : StateEntry}
    (taken : takenAfter ops now state = some entry) : InFlight ops state entry := by
  obtain ⟨stored, -⟩ := takenAfter_eq_some.mp taken
  rw [storeAfter_eq, Keyed.Effect.replay_eq_some] at stored
  obtain ⟨before, e, after, pending, -⟩ := stored
  exact inFlight_iff.mpr ⟨before, e, after, pending⟩

/-- What is in flight after a take of the state has been stored since the take. -/
theorem InFlight.since {before between : List FlowEvent} {now : Instant} {state : String} {entry : StateEntry}
    (h : InFlight (before ++ (now, .takeState state) :: between) state entry) : InFlight between state entry := by
  obtain ⟨older, after, he, last⟩ := h
  rcases List.append_eq_append_iff.mp he with ⟨middle, -, same⟩ | ⟨middle, -, same⟩
  · cases middle with
    | nil => cases (List.cons.inj same).1
    | cons x middle => exact ⟨middle, after, (List.cons.inj same).2, last⟩
  · cases middle with
    | nil => cases (List.cons.inj same).1
    | cons x middle =>
      have taken : (now, FlowOp.takeState state) ∈ after := by simp [(List.cons.inj same).2]
      exact absurd rfl (last _ taken)

/-- The entry in flight stays stored unless an operation since has purged it. -/
theorem InFlight.stored {ops : List FlowEvent} {state : String} {entry : StateEntry}
    (h : InFlight ops state entry) :
    (∃ before after, ops = before ++ (entry.createdAt, .storeState state entry.nonce entry.pkceVerifier) :: after ∧
      (∀ e ∈ after, e.2.state ≠ state) ∧ ∃ e ∈ after, flowEffect.live e entry = false) ∨
      storeAfter ops state = some entry := by
  obtain ⟨before, after, he, last⟩ := h
  by_cases live : ∀ e ∈ after, flowEffect.live e entry = true
  · right
    rw [storeAfter_eq, Keyed.Effect.replay_eq_some]
    exact ⟨before, _, after, ⟨he, rfl, rfl, last⟩, live⟩
  · left
    push Not at live
    obtain ⟨e, mem, dead⟩ := live
    exact ⟨before, after, he, last, e, mem, Bool.not_eq_true _ ▸ dead⟩

/-- At a time to live after it was stored, the purge has an entry no more and a take still has it. -/
private theorem TakenAfterPurge.not_oneShot {ops : List FlowEvent} (h : TakenAfterPurge ops) : ¬ OneShot ops := by
  intro oneShot
  obtain ⟨before, created, state, nonce, pkceVerifier, between, after, he, last, other, nonce', pkceVerifier', mem⟩ := h
  have age : Instant.durationSince (created + STATE_ENTRY_TTL) created = STATE_ENTRY_TTL :=
    Nat.add_sub_cancel_left _ _
  have pending : flowEffect.Pending (before ++ (created, .storeState state nonce pkceVerifier) :: between) state
      ⟨nonce, pkceVerifier, created⟩ before _ between := ⟨rfl, rfl, rfl, last⟩
  have taken := (oneShot _ _ _ _ he ⟨nonce, pkceVerifier, created⟩).mpr
    ⟨inFlight_iff.mpr ⟨before, _, between, pending⟩, Nat.le_of_eq age⟩
  obtain ⟨stored, -⟩ := takenAfter_eq_some.mp taken
  rw [storeAfter_eq, Keyed.Effect.replay_eq_some] at stored
  obtain ⟨before', e, between', pending', live⟩ := stored
  obtain ⟨-, rfl⟩ := pending.unique pending'
  have purged : Instant.durationSince (created + STATE_ENTRY_TTL) created < STATE_ENTRY_TTL :=
    of_decide_eq_true (live _ mem)
  exact absurd age (Nat.ne_of_lt purged)

private theorem lastInstant {created time now ttl : Nat} (positive : 0 < ttl) (sooner : time ≤ now)
    (old : ¬ time - created < ttl)
    (young : now - created ≤ ttl) : now = created + ttl ∧ time = created + ttl := by
  omega

/-- What a take at the end of a history finds purged was purged at its own instant. -/
theorem InFlight.purged {before after : List FlowEvent} {now : Instant} {state : String} {entry : StateEntry}
    (times : (before ++ (now, .takeState state) :: after).Pairwise fun d e => d.1 ≤ e.1)
    (h : InFlight before state entry) (fresh : now.durationSince entry.createdAt ≤ STATE_ENTRY_TTL)
    (gone : storeAfter before state ≠ some entry) : TakenAfterPurge
      (before ++ (now, .takeState state) :: after) := by
  obtain ⟨older, between, rfl, last, ⟨time, op⟩, mem, dead⟩ := h.stored.resolve_right gone
  cases op with
  | takeState other => cases dead
  | storeState other nonce' pkceVerifier' =>
    have sooner : time ≤ now :=
      (List.pairwise_append.mp times).2.2 _ (List.mem_append_right _ (List.mem_cons_of_mem _ mem)) _ List.mem_cons_self
    have old : ¬ time - entry.createdAt < STATE_ENTRY_TTL := of_decide_eq_false dead
    have young : now - entry.createdAt ≤ STATE_ENTRY_TTL := fresh
    obtain ⟨rfl, rfl⟩ := lastInstant (by decide) sooner old young
    exact ⟨older, entry.createdAt, state, entry.nonce, entry.pkceVerifier, between, after, by simp, last, other, nonce',
      pkceVerifier', mem⟩

/-- In a history no take falls on the last instant of an entry after a purge, every take returns what is in flight
as long as its time lasts; in any other, one does not. Whatever a take returns was in flight and in time, and it was
stored after any take of its state before. -/
theorem oneShot_iff {ops : List FlowEvent} (times : ops.Pairwise fun d e => d.1 ≤ e.1) :
    (OneShot ops ↔ ¬ TakenAfterPurge ops) ∧
    (∀ before now state after entry, ops = before ++ (now, .takeState state) :: after →
      takenAfter before now state = some entry →
        InFlight before state entry ∧ now.durationSince entry.createdAt ≤ STATE_ENTRY_TTL) ∧
    ∀ before now state between now' after entry,
      ops = before ++ (now, .takeState state) :: between ++ (now', .takeState state) :: after →
      takenAfter (before ++ (now, .takeState state) :: between) now' state = some entry →
        InFlight between state entry := by
  refine ⟨⟨fun oneShot purged => purged.not_oneShot oneShot, ?_⟩, ?_, ?_⟩
  · intro never before now state after he entry
    constructor
    · exact fun taken => ⟨.of_taken taken, (takenAfter_eq_some.mp taken).2⟩
    · rintro ⟨inFlight, fresh⟩
      subst he
      apply takenAfter_eq_some.mpr
      constructor
      · by_contra gone
        exact never (inFlight.purged times fresh gone)
      · exact fresh
  · intro before now state after entry _ taken
    exact ⟨.of_taken taken, (takenAfter_eq_some.mp taken).2⟩
  · intro before now state between now' after entry _ taken
    exact (InFlight.of_taken taken).since

/-- Two flows started a time to live apart: the second start discards the first, which is still in time. -/
theorem oneShot_twoFlows : ∃ ops : List FlowEvent, (ops.Pairwise fun d e => d.1 ≤ e.1) ∧ ¬ OneShot ops := by
  exists [(0, .storeState "a" "n" "v"), (STATE_ENTRY_TTL, .storeState "b" "m" "w"), (STATE_ENTRY_TTL, .takeState "a")]
  constructor
  · decide
  · intro oneShot
    have taken := (oneShot [(0, .storeState "a" "n" "v"), (STATE_ENTRY_TTL, .storeState "b" "m" "w")] STATE_ENTRY_TTL "a" [] rfl
      ⟨"n", "v", 0⟩).mpr
      ⟨⟨[], [(STATE_ENTRY_TTL, .storeState "b" "m" "w")], rfl, by decide⟩, by decide⟩
    revert taken
    decide

/-- The first flow is taken at the last instant it can be, and the second one was started in between. -/
theorem oneShot_iff_twoFlows : OneShot [(0, .storeState "a" "n" "v"), (1, .storeState "b" "m" "w"),
    (STATE_ENTRY_TTL, .takeState "a"), (STATE_ENTRY_TTL, .takeState "a"), (STATE_ENTRY_TTL, .takeState "b")] := by
  apply (oneShot_iff (by decide)).1.mpr
  rintro ⟨before, created, state, nonce, pkceVerifier, between, after, he, -, other, nonce', pkceVerifier', stored⟩
  have mem : (created + STATE_ENTRY_TTL, FlowOp.storeState other nonce' pkceVerifier') ∈
      [(0, .storeState "a" "n" "v"), (1, .storeState "b" "m" "w"), (STATE_ENTRY_TTL, .takeState "a"),
        (STATE_ENTRY_TTL, .takeState "a"), (STATE_ENTRY_TTL, .takeState "b")] := by
    rw [he]
    simp [stored]
  simp [STATE_ENTRY_TTL] at mem

end MailKeep
