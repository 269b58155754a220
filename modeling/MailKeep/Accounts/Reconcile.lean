import MailKeep.Accounts.Sync
import MailKeep.Pipeline.Backend

/-! User actions against the tick: which accounts a tick stops, and when it should not have. -/
namespace MailKeep
open Program

variable {ι : Type} [DecidableEq ι]

inductive SyncEnd
  | answered (r : Except ServerFnError Unit)
  | ticked (r : Except Error Unit)

def newest (accountId : AccountId) (log : List AccountEvent) :
    Option AccountEvent := log.find? (·.account = accountId)

/-- Enabled, and the last of its events is that its sync was started. -/
def SyncHost.Wanted (s : SyncHost ι) (accountId : AccountId) : Prop :=
  s.db.Enabled accountId ∧ newest accountId s.log = some (.started accountId)

def SyncHost.KeepsSyncing (s : SyncHost ι) : Prop := ∀ accountId, s.Wanted accountId → s.Tracks accountId

/-- Since the thread listed the enabled accounts, this one was enabled and then started. -/
def SyncHost.Raced (s : SyncHost ι) (me : ι) (accountId : AccountId) : Prop :=
  s.db.Enabled accountId ∧ .enabled accountId ∈ s.since me ∧
    newest accountId (s.since me) = some (.started accountId)

/-- Any number of users and of ticks; a tick stops an account where `may` lets it. -/
def syncSystem (openCredentials : OpenCredentials) (may : SyncHost ι → ι → AccountId → Prop) :
    System (syncHost ι) ι SyncEnd where
  allowed
    | s, .reclaim me accountId, _ => may s me accountId
    | _, .trackedAccounts, order => ∀ ids, (order ids).Perm ids
    | _, _, _ => True
  root _ i p := (∃ userId accountId enabled,
      p = (setAccountEnabled i openCredentials userId accountId enabled).run >>= fun r => .ret (.answered r)) ∨
    p = (reconcileStatuses i).run >>= fun r => .ret (.ticked r)
  env _ _ := False
  crash _ _ := False

/-- A thread's place is the list of enabled accounts it has read; a tick stops what is not in it. -/
def syncPlaces (ι : Type) [DecidableEq ι] : Discipline (syncHost ι) ι (Option (List AccountId)) where
  start := none
  ready i place
    | .transact me _ => me = i
    | .reclaim me accountId => me = i ∧ ∃ ids, place = some ids ∧ accountId ∉ ids
    | .start _ _ | .stop _ | .status _ | .trackedAccounts => True
  after place
    | .transact _ .listEnabled, .ok accounts => some (accounts.map Account.id)
    | _, _ => place
  done _ := True

section
variable {i : ι} {place : Option (List AccountId)} {openCredentials : OpenCredentials}

private def Free (i : ι) (x : SyncAction ι ε α) : Prop :=
  ∀ place, (syncPlaces ι).Leads i (fun _ _ => True) place x.run

private theorem Free.seq {x : SyncAction ι ε α} {f : α → SyncAction ι ε β} (hx : Free i x)
    (hf : ∀ a, Free i (f a)) :
    Free i (x >>= f) := by
  refine fun place => Discipline.Leads.seq ((hx place).weaken fun r q _ => ?_)
  cases r with
  | ok a => exact hf a q
  | error e => trivial

private theorem free_tryTransact (t : AccountTxn) : Free i (tryTransact i t) := fun _ => ⟨rfl, fun _ => trivial⟩

private theorem Free.mapErr {x : SyncAction ι ε α} {f : ε → ε'} (hx : Free i x) : Free i (Program.mapErr f x) :=
  fun place => Discipline.Leads.mapErr (hx place)

private theorem Free.attempt {x : SyncAction ι ε α} (hx : Free i x) :
    Free i (Program.attempt x : SyncAction ι ε' (Except ε α)) :=
  fun place => Discipline.Leads.attempt (hx place)

private theorem free_startOne (account : Account) : Free i (startOne i openCredentials account) := by
  refine Free.seq (free_tryTransact _) fun folders => Free.seq ?_ fun password => ?_
  · intro place
    cases openCredentials account.id account.credentials <;> trivial
  · refine Free.seq (Free.attempt fun place => ⟨trivial, fun _ => trivial⟩) fun r => ?_
    cases r with
    | ok _ => exact free_tryTransact _
    | error e => exact Free.seq (Free.attempt (free_tryTransact _)) fun _ _ => trivial

private theorem free_setAccountEnabled (userId : UserId) (accountId : AccountId) (enabled : Bool) :
    Free i (setAccountEnabled i openCredentials userId accountId enabled) := by
  unfold setAccountEnabled
  split
  · refine Free.seq (Free.mapErr (free_tryTransact _)) fun _ => Free.mapErr
      (Free.seq (free_tryTransact _) fun accounts => ?_)
    split
    · exact free_startOne _
    · exact fun _ => trivial
  · exact Free.seq (Free.mapErr (free_tryTransact _)) fun _ => Free.mapErr fun _ => ⟨trivial, fun _ => trivial⟩

private theorem leads_driveStatuses (accounts : List Account) :
    (syncPlaces ι).Leads i (fun _ q => q = place) place (driveStatuses i accounts).run := by
  induction accounts with
  | nil => rfl
  | cons account accounts ih =>
    refine Discipline.Leads.seq (Discipline.Leads.attempt ⟨trivial, fun live => ?_⟩)
    cases live with
    | error e => exact ih
    | ok live =>
      change (syncPlaces ι).Leads i (fun _ q => q = place) place (ExceptT.run _)
      dsimp only
      split
      · exact ih
      · split
        · refine Discipline.Leads.seq (Discipline.Leads.attempt ⟨rfl, fun _ => ?_⟩)
          exact ih
        · exact ih

private theorem leads_tearDown {ids : List AccountId} (listed : place = some ids) (tracked : List AccountId) :
    (syncPlaces ι).Leads i (fun _ _ => True) place (tearDown i ids tracked).run := by
  induction tracked with
  | nil => trivial
  | cons id tracked ih =>
    unfold tearDown
    split
    · rename_i absent
      refine Discipline.Leads.seq (Discipline.Leads.attempt ⟨⟨rfl, ids, listed, absent⟩, fun _ => ?_⟩)
      exact ih
    · exact ih

private theorem leads_reconcileStatuses : (syncPlaces ι).Leads i (fun _ _ => True) place
    (reconcileStatuses i).run := by
  refine Discipline.Leads.seq ⟨rfl, fun reply => ?_⟩
  cases reply with
  | error e => trivial
  | ok accounts =>
    refine Discipline.Leads.seq ((leads_driveStatuses accounts).weaken fun r q hq => ?_)
    cases r with
    | error e => trivial
    | ok _ => exact ⟨trivial, fun tracked => leads_tearDown hq tracked⟩

/-- What a thread may start is a request or a tick. -/
private theorem fits_syncRoot {may : SyncHost ι → ι → AccountId → Prop} {s : SyncHost ι}
    {p : Prog (syncSignature ι) SyncEnd}
    (root : (syncSystem openCredentials may).root s i p) : (syncPlaces ι).Fits i place p := by
  rcases root with ⟨userId, accountId, enabled, rfl⟩ | rfl
  · exact Discipline.Leads.fits (Discipline.Leads.bind
      ((free_setAccountEnabled userId accountId enabled place).weaken fun _ _ _ => trivial))
  · exact Discipline.Leads.fits (Discipline.Leads.bind (leads_reconcileStatuses.weaken fun _ _ _ => trivial))

end

omit [DecidableEq ι] in
private theorem SyncHost.Tracks.of_ne {s : SyncHost ι} {id accountId : AccountId} (h : s.Tracks id)
    (ne : id ≠ accountId) :
    (s.untrack accountId).Tracks id := by
  obtain ⟨params, hp⟩ := h
  exact ⟨params, List.mem_filter.mpr ⟨hp, by simpa using ne⟩⟩

private theorem newest_cons_of_ne {id : AccountId} {e : AccountEvent} {log : List AccountEvent} (ne : e.account ≠ id) :
    newest id (e :: log) = newest id log := by
  simp [newest, ne]

/-- An event that is not a start is no reason to sync. -/
private theorem newest_cons_started {id : AccountId} {e : AccountEvent} {log : List AccountEvent} (ne : e ≠ .started id)
    (h : newest id (e :: log) = some (.started id)) : e.account ≠ id ∧ newest id log = some (.started id) := by
  have other : e.account ≠ id := by
    intro same
    simp [newest, same] at h
    exact ne h
  exact ⟨other, (newest_cons_of_ne other).symm.trans h⟩

/-- The history of a thread tells the newest event of an account that occurs in it. -/
private theorem newest_recent {id : AccountId} {e : AccountEvent} {since log : List AccountEvent}
    (recent : since <+: log)
    (h : e ∈ since) (he : e.account = id) : newest id since = newest id log := by
  obtain ⟨older, rfl⟩ := recent
  have found : (since.find? (·.account = id)).isSome := List.find?_isSome.mpr ⟨e, h, by simpa using he⟩
  obtain ⟨x, hx⟩ := Option.isSome_iff_exists.mp found
  rw [newest, newest, List.find?_append, hx, Option.some_or]

/-- Where a transaction leaves an account enabled that was not, its event says so. -/
private theorem AccountTxn.enabled_of_body {t : AccountTxn} {r : t.Result} {db db' : Database}
    (h : t.body db = .ok (r, db'))
    {id : AccountId} (enabled : db'.Enabled id) : t.event? = some (.enabled id) ∨ db.Enabled id := by
  cases t with
  | listEnabled =>
    obtain ⟨rfl, -⟩ := AccountRepository.mem_listEnabled h
    exact .inr enabled
  | enable userId accountId => exact (AccountService.enable_ok h enabled).imp (fun he => by rw [he]; rfl) fun he => he
  | disable userId accountId => exact .inr (AccountService.disable_ok h enabled)
  | setStatus accountId status lastError =>
    rw [AccountRepository.rewrite_ok h] at enabled
    exact .inr (enabled.of_update fun _ => rfl)
  | listEnabledFolders accountId =>
    change FolderRepository.listEnabledForAccount accountId db = _ at h
    unfold FolderRepository.listEnabledForAccount at h
    split at h <;> cases h
    exact .inr enabled

/-- The accounts that should sync do; a list of enabled accounts goes stale only by an enabling in the history. -/
structure Reconciled (s : SyncHost ι) (places : ι → Option (List AccountId)) : Prop where
  syncing : s.KeepsSyncing
  listed : ∀ i ids, places i = some ids → ∀ id, s.db.Enabled id → id ∈ ids ∨ .enabled id ∈ s.since i
  recent : ∀ i, s.since i <+: s.log

namespace Reconciled
variable {s s' : SyncHost ι} {places : ι → Option (List AccountId)} {i : ι}

omit [DecidableEq ι] in
private theorem push (h : Reconciled s places) {e : AccountEvent} (ne : ∀ id, e ≠ .started id) {db : Database}
    (enabled : ∀ id, db.Enabled id → e = .enabled id ∨ s.db.Enabled id) :
    Reconciled ({ s with db := db }.push e) places := by
  refine ⟨fun id wanted => ?_, fun k ids hk id hid => ?_, fun k => List.cons_prefix_cons.mpr ⟨rfl, h.recent k⟩⟩
  · obtain ⟨other, started⟩ := newest_cons_started (ne id) wanted.2
    rcases enabled id wanted.1 with rfl | before
    · exact absurd rfl other
    · exact h.syncing id ⟨before, started⟩
  · rcases enabled id hid with rfl | before
    · exact .inr (List.mem_cons_self ..)
    · exact (h.listed k ids hk id before).imp_right (List.mem_cons_of_mem _)

omit [DecidableEq ι] in
private theorem store (h : Reconciled s places) {db : Database} (enabled : ∀ id, db.Enabled id → s.db.Enabled id) :
    Reconciled { s with db := db } places :=
  ⟨fun id wanted => h.syncing id ⟨enabled id wanted.1, wanted.2⟩, fun k ids hk id hid => h.listed k ids hk id (enabled id hid),
    h.recent⟩

/-- The thread has a list of all accounts that are enabled now. -/
private theorem list (h : Reconciled s places) {accounts : List Account}
    (all : ∀ a, a ∈ accounts ↔ a ∈ s.db.accounts ∧ a.enabled = true) :
    Reconciled { s with since := Function.update s.since i [] }
      (Function.update places i (some (accounts.map Account.id))) := by
  refine ⟨h.syncing, fun k ids hk id enabled => ?_, fun k => ?_⟩
  · rw [Function.update_apply] at hk
    change id ∈ ids ∨ .enabled id ∈ Function.update s.since i [] k
    rw [Function.update_apply]
    split at hk
    · obtain rfl := Option.some.inj hk
      obtain ⟨a, ha, hid, he⟩ := enabled
      exact .inl (List.mem_map.mpr ⟨a, (all a).mpr ⟨ha, he⟩, hid⟩)
    · rename_i other
      rw [if_neg other]
      exact h.listed k ids hk id enabled
  · change Function.update s.since i [] k <+: s.log
    rw [Function.update_apply]
    split
    · exact List.nil_prefix
    · exact h.recent k

private theorem transact (h : Reconciled s places) (t : AccountTxn) (c : Option DbErr) :
    Reconciled (s.transact i t c).2
      (Function.update places i ((syncPlaces ι).after (places i) (.transact i t) (s.transact i t c).1)) := by
  have same : Reconciled s (Function.update places i (places i)) := by
    rwa [Function.update_eq_self]
  cases c with
  | some e => cases t <;> exact same
  | none =>
    cases hb : t.body s.db with
    | error e =>
      have unchanged : s.transact i t none = (.error e, s) := by simp only [SyncHost.transact, hb]
      rw [unchanged]
      cases t <;> exact same
    | ok p =>
      obtain ⟨r, db⟩ := p
      have enabled := @AccountTxn.enabled_of_body t r s.db db hb
      rw [SyncHost.transact_ok hb]
      cases t with
      | listEnabled =>
        obtain ⟨rfl, all⟩ := AccountRepository.mem_listEnabled hb
        exact h.list all
      | enable userId accountId =>
        exact same.push (fun id he => (by cases he)) fun id hid =>
          (enabled hid).imp (fun he => Option.some.inj he) fun he => he
      | disable userId accountId =>
        exact same.push (fun id he => (by cases he)) fun id hid =>
          (enabled hid).imp (fun he => Option.some.inj he) fun he => he
      | setStatus accountId status lastError =>
        exact same.store fun id hid => (enabled hid).resolve_left fun he => (by cases he)
      | listEnabledFolders accountId =>
        exact same.store fun id hid => (enabled hid).resolve_left fun he => (by cases he)

omit [DecidableEq ι] in
private theorem start (h : Reconciled s places) (accountId : AccountId) (params : ImapConnectionParams) :
    Reconciled ((s.setTracked accountId params).push (.started accountId)) places := by
  refine ⟨fun id wanted => ?_, fun k ids hk id hid => ?_, fun k => List.cons_prefix_cons.mpr ⟨rfl, h.recent k⟩⟩
  · by_cases same : id = accountId
    · exact ⟨params, same ▸ List.mem_cons_self ..⟩
    · have before : s.Wanted id := ⟨wanted.1, (newest_cons_of_ne (Ne.symm same)).symm.trans wanted.2⟩
      obtain ⟨params', hp⟩ := (h.syncing id before).of_ne same
      exact ⟨params', List.mem_cons_of_mem _ hp⟩
  · exact (h.listed k ids hk id hid).imp_right (List.mem_cons_of_mem _)

omit [DecidableEq ι] in
private theorem stop (h : Reconciled s places) (accountId : AccountId) :
    Reconciled ((s.untrack accountId).push (.stopped accountId)) places := by
  refine ⟨fun id wanted => ?_, fun k ids hk id hid => ?_, fun k => List.cons_prefix_cons.mpr ⟨rfl, h.recent k⟩⟩
  · obtain ⟨other, started⟩ := newest_cons_started (fun he => (by cases he)) wanted.2
    exact (h.syncing id ⟨wanted.1, started⟩).of_ne (Ne.symm other)
  · exact (h.listed k ids hk id hid).imp_right (List.mem_cons_of_mem _)

omit [DecidableEq ι] in
/-- What a tick stops is missing from its list, so it can only be wanted if it was enabled and started since. -/
private theorem raced_iff (h : Reconciled s places) {ids : List AccountId} (listed : places i = some ids)
    {accountId : AccountId}
    (absent : accountId ∉ ids) : s.Raced i accountId ↔ s.Wanted accountId := by
  constructor
  · rintro ⟨enabled, since, started⟩
    exact ⟨enabled, (newest_recent (h.recent i) since rfl).symm.trans started⟩
  · rintro ⟨enabled, started⟩
    have since : .enabled accountId ∈ s.since i := (h.listed i ids listed accountId enabled).resolve_left absent
    exact ⟨enabled, since, (newest_recent (h.recent i) since rfl).trans started⟩

omit [DecidableEq ι] in
private theorem reclaim (h : Reconciled s places) {accountId : AccountId} (unwanted : ¬ s.Wanted accountId) :
    Reconciled (s.untrack accountId) places := by
  refine ⟨fun id wanted => ?_, h.listed, h.recent⟩
  exact (h.syncing id wanted).of_ne fun same => unwanted (same ▸ wanted)

end Reconciled

variable {openCredentials : OpenCredentials}

private theorem reconciled_keeps : (syncPlaces ι).Keeps
    (syncSystem openCredentials fun s i id => ¬ s.Raced i id) Reconciled where
  begins s places i p h root _ := by
    refine ⟨places i, fits_syncRoot root, ?_⟩
    rwa [Function.update_eq_self]
  op s places i o ch h ready ok := by
    cases o with
    | transact me t =>
      obtain rfl : me = i := ready
      exact h.transact t ch
    | start accountId params =>
      change Reconciled _ (Function.update places i (places i))
      rw [Function.update_eq_self]
      exact h.start accountId params
    | stop accountId =>
      change Reconciled _ (Function.update places i (places i))
      rw [Function.update_eq_self]
      exact h.stop accountId
    | reclaim me accountId =>
      obtain ⟨rfl, ids, listed, absent⟩ := ready
      change Reconciled _ (Function.update places me (places me))
      rw [Function.update_eq_self]
      exact h.reclaim fun wanted => ok ((h.raced_iff listed absent).mpr wanted)
    | status accountId =>
      change Reconciled _ (Function.update places i (places i))
      rwa [Function.update_eq_self]
    | trackedAccounts =>
      change Reconciled _ (Function.update places i (places i))
      rwa [Function.update_eq_self]
  env _ _ _ _ outside := outside.elim
  crash _ _ _ _ crash := crash.elim

/-- In every run in which no tick stops an account that was enabled and started since the tick listed the
enabled ones, every account that should sync does; and a stop of a tick breaks this just where it is such. -/
theorem wanted_tracked {s : SyncHost ι} (syncing : s.KeepsSyncing) (since : ∀ i, s.since i = [])
    {c : Config (syncHost ι) ι SyncEnd}
    (run : (syncSystem openCredentials fun s i id => ¬ s.Raced i id).Reaches (.idle s) c) :
    c.state.KeepsSyncing ∧ ∀ i me id next, c.threads i = some (.call (.reclaim me id) next) →
      (c.state.Raced me id ↔ ¬ (c.state.untrack id).KeepsSyncing) := by
  have initial : Reconciled s fun _ => (syncPlaces ι).start :=
    ⟨syncing, fun i ids hk => (by cases hk), fun i => since i ▸ List.nil_prefix⟩
  obtain ⟨places, linked, h⟩ := reconciled_keeps.reaches ((syncPlaces ι).linked_idle s) initial run
  refine ⟨h.syncing, fun i me id next hi => ?_⟩
  obtain ⟨rfl, ids, listed, absent⟩ := ((linked i).1 _ hi).1
  rw [h.raced_iff listed absent]
  constructor
  · intro wanted keeps
    obtain ⟨params, hp⟩ := keeps id wanted
    exact absurd rfl (of_decide_eq_true (List.mem_filter.mp hp).2)
  · intro broken
    by_contra unwanted
    exact broken (h.reclaim unwanted).syncing

def quietHost : SyncHost Nat where
  db := ⟨⟨[{ workAccount with enabled := false, status := .disabled }], by simp⟩, .empty, .empty, .empty, .empty, .empty, 0⟩
  tracked := []
  log := []
  since _ := []

def untroubled : (o : SyncOp Nat) → o.Choice
  | .transact _ _ => none
  | .status _ => initialStatus
  | .trackedAccounts => fun ids => ids
  | .start _ _ | .stop _ | .reclaim _ _ => ()

def enableRequest : Prog (syncSignature Nat) SyncEnd :=
  (setAccountEnabled 0 (fun _ _ => .ok "secret") 1 1 true).run >>= fun r => .ret (.answered r)

def oneTick : Prog (syncSignature Nat) SyncEnd := (reconcileStatuses 1).run >>= fun r => .ret (.ticked r)

/-- A user enables the account while a tick runs; the numbers say whose turn it is. -/
def duringTick (turns : List Nat) : Config (syncHost Nat) Nat SyncEnd :=
  turns.foldl (fun c i => c.advance untroubled i)
    (((Config.idle quietHost).set quietHost 0 enableRequest).set quietHost 1 oneTick)

private theorem begun (may : SyncHost Nat → Nat → AccountId → Prop) :
    (syncSystem (fun _ _ => .ok "secret") may).Reaches (.idle quietHost) (duringTick []) := by
  have request : (syncSystem (fun _ _ => .ok "secret") may).Step (.idle quietHost)
      ((Config.idle quietHost).set quietHost 0 enableRequest) :=
    .start 0 _ (fun ⟨_, _, h⟩ => by cases h) (.inl ⟨1, 1, true, rfl⟩)
  have tick : (syncSystem (fun _ _ => .ok "secret") may).Step ((Config.idle quietHost).set quietHost 0 enableRequest)
      (duringTick []) :=
    .start 1 _ (fun ⟨_, _, h⟩ => by cases h) (.inr rfl)
  exact (Relation.ReflTransGen.single request).tail tick

private theorem turn {may : SyncHost Nat → Nat → AccountId → Prop} {turns : List Nat} (i : Nat) (o : SyncOp Nat)
    {next : o.Value → Prog (syncSignature Nat) SyncEnd}
    (run : (syncSystem (fun _ _ => .ok "secret") may).Reaches (.idle quietHost) (duringTick turns))
    (at_call : (duringTick turns).threads i = some (.call o next))
    (ok : (syncSystem (fun _ _ => .ok "secret") may).allowed (duringTick turns).state o (untroubled o)) :
    (syncSystem (fun _ _ => .ok "secret") may).Reaches (.idle quietHost) (duringTick (turns ++ [i])) := by
  have last : duringTick (turns ++ [i]) = (duringTick turns).advance untroubled i := by
    simp only [duringTick, List.foldl_append, List.foldl_cons, List.foldl_nil]
  rw [last]
  exact run.tail (System.step_advance at_call ok)

/-- The tick lists the enabled accounts, then the user enables this one and its sync starts. -/
private theorem started (may : SyncHost Nat → Nat → AccountId → Prop) :
    (syncSystem (fun _ _ => .ok "secret") may).Reaches (.idle quietHost) (duringTick [1, 0, 0, 0, 0]) := by
  have listed := turn 1 (.transact 1 .listEnabled) (begun may) rfl trivial
  have enabled := turn 0 (.transact 0 (.enable 1 1)) listed rfl trivial
  have found := turn 0 (.transact 0 .listEnabled) enabled rfl trivial
  have folders := turn 0 (.transact 0 (.listEnabledFolders 1)) found rfl trivial
  exact turn 0 (.start 1 _) folders rfl trivial

theorem wanted_tracked_duringTick : ∃ c : Config (syncHost Nat) Nat SyncEnd,
    (syncSystem (fun _ _ => .ok "secret") fun s i id => ¬ s.Raced i id).Reaches (.idle quietHost) c ∧
      c.state.Wanted 1 ∧ c.state.KeepsSyncing :=
  ⟨_, started _, ⟨⟨_, List.mem_singleton.mpr rfl, rfl, rfl⟩, rfl⟩,
    (wanted_tracked (fun id wanted => by cases wanted.2) (fun _ => rfl) (started _)).1⟩

/-- The tick goes on with its old list: it stops the account, and nothing starts it again. -/
theorem wanted_untracked_by_tick : ∃ c : Config (syncHost Nat) Nat SyncEnd,
    (syncSystem (fun _ _ => .ok "secret") fun _ _ _ => True).Reaches (.idle quietHost) c ∧
      c.threads 0 = some (.ret (.answered (.ok ()))) ∧ c.threads 1 = some (.ret (.ticked (.ok ()))) ∧
      c.state.Wanted 1 ∧ ¬ c.state.Tracks 1 := by
  have answered := turn 0 (.transact 0 (.setStatus 1 .syncing none)) (started fun _ _ _ => True) rfl trivial
  have tracked := turn 1 .trackedAccounts answered rfl fun ids => .refl ids
  have stopped := turn 1 (.reclaim 1 1) tracked rfl trivial
  refine ⟨_, stopped, rfl, rfl, ⟨⟨_, List.mem_singleton.mpr rfl, rfl, rfl⟩, rfl⟩, ?_⟩
  rintro ⟨params, hp⟩
  cases hp

end MailKeep
