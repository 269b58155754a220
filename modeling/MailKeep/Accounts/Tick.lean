import MailKeep.Accounts.Reconcile

/-! One tick that nothing disturbs: what it leaves tracked and which statuses it writes. -/
namespace MailKeep
open Program

variable {ι : Type} [DecidableEq ι]

/-- No call fails, and a running account has one live status all along. -/
def undisturbed (live : AccountId → SyncStatus) : (syncHost ι).Allowed
  | s, .transact _ t, c => c = none ∧ ∃ r db, t.body s.db = .ok (r, db)
  | _, .status accountId, c => c = live accountId
  | _, .trackedAccounts, order => ∀ ids, (order ids).Perm ids
  | _, _, _ => True

def SyncHost.shown (s : SyncHost ι) (live : AccountId → SyncStatus) (accountId : AccountId) : SyncStatus :=
  if s.tracked.any (·.1 = accountId) then live accountId else notRunningStatus

omit [DecidableEq ι] in
private theorem SyncHost.any_tracked {s : SyncHost ι} {accountId : AccountId} :
    s.tracked.any (·.1 = accountId) = true ↔ s.Tracks accountId := by
  rw [List.any_eq_true]
  constructor
  · rintro ⟨⟨id, params⟩, mem, same⟩
    exact ⟨params, of_decide_eq_true same ▸ mem⟩
  · rintro ⟨params, mem⟩
    exact ⟨_, mem, decide_eq_true rfl⟩

omit [DecidableEq ι] in
private theorem SyncHost.shown_of_tracks (s : SyncHost ι) (live : AccountId → SyncStatus) {accountId : AccountId}
    (h : s.Tracks accountId) : s.shown live accountId = live accountId := if_pos (any_tracked.mpr h)

omit [DecidableEq ι] in
private theorem SyncHost.shown_of_not_tracks (s : SyncHost ι) (live : AccountId → SyncStatus) {accountId : AccountId}
    (h : ¬ s.Tracks accountId) : s.shown live accountId = notRunningStatus :=
  if_neg fun found => h (any_tracked.mp found)

/-- The row of an enabled account after a tick that was shown this status. -/
def Account.settle (shown : SyncStatus) (account : Account) : Account :=
  match desiredStatus shown.state with
  | none => account
  | some desired => if account.status ≠ desired then account.setStatus desired shown.lastError else account

@[simp] theorem Account.settle_id (shown : SyncStatus) (account : Account) :
    (account.settle shown).id = account.id := by
  unfold Account.settle
  split
  · rfl
  · split <;> rfl

@[simp] theorem Account.settle_enabled (shown : SyncStatus) (account : Account) :
    (account.settle shown).enabled = account.enabled := by
  unfold Account.settle
  split
  · rfl
  · split <;> rfl

private theorem Account.settle_status {shown : SyncStatus} {desired : AccountStatus}
    (h : desiredStatus shown.state = some desired)
    (account : Account) : (account.settle shown).status = desired := by
  unfold Account.settle
  rw [h]
  dsimp only
  split
  · rfl
  · rename_i same
    exact not_not.mp same

private theorem Account.settle_cases (shown : SyncStatus) (account : Account) : account.settle shown = account ∨
    ∃ desired, desiredStatus shown.state = some desired ∧ account.status ≠ desired ∧
      account.settle shown = account.setStatus desired shown.lastError := by
  unfold Account.settle
  split
  · exact .inl rfl
  · rename_i desired known
    by_cases stale : account.status ≠ desired
    · exact .inr ⟨desired, known, stale, if_pos stale⟩
    · exact .inl (if_neg stale)

namespace SyncHost

def settleWhere (s : SyncHost ι) (live : AccountId → SyncStatus) (p : Account → Bool) : SyncHost ι :=
  { s with db := { s.db with accounts := s.db.accounts.update p (fun a => a.settle (s.shown live a.id)) fun _ => Account.settle_id .. } }

end SyncHost

variable {me : ι} {live : AccountId → SyncStatus} {s s' : SyncHost ι} {r : Except Error Unit}

omit [DecidableEq ι] in
theorem mem_settleWhere {p : Account → Bool} {a : Account} : a ∈ (s.settleWhere live p).db.accounts ↔
    ∃ a' ∈ s.db.accounts, a = if p a' then a'.settle (s.shown live a'.id) else a' :=
  @Keyed.Table.mem_update _ _ _ s.db.accounts _ _ (fun _ => Account.settle_id ..) a

omit [DecidableEq ι] in
private theorem settleWhere_of_fixed {p : Account → Bool}
    (fixed : ∀ a ∈ s.db.accounts, p a = true → a.settle (s.shown live a.id) = a) :
    s.settleWhere live p = s := by
  unfold SyncHost.settleWhere
  rw [Keyed.Table.update_of_fixed fixed]

omit [DecidableEq ι] in
/-- The statuses come and go, the accounts stay enabled or disabled. -/
private theorem enabled_settleWhere {p : Account → Bool} {id : AccountId} :
    (s.settleWhere live p).db.Enabled id ↔ s.db.Enabled id := by
  constructor
  · rintro ⟨a, mem, same, on⟩
    obtain ⟨a', mem', rfl⟩ := mem_settleWhere.mp mem
    refine ⟨a', mem', ?_, ?_⟩
    · split at same
      · exact (Account.settle_id ..).symm.trans same
      · exact same
    · split at on
      · exact (Account.settle_enabled ..).symm.trans on
      · exact on
  · rintro ⟨a, mem, same, on⟩
    refine ⟨_, mem_settleWhere.mpr ⟨a, mem, rfl⟩, ?_, ?_⟩
    · split
      · exact (Account.settle_id ..).trans same
      · exact same
    · split
      · exact (Account.settle_enabled ..).trans on
      · exact on

/-- One round of the first loop. -/
private theorem driveStatuses_cons {account : Account} {accounts : List Account} (mem : account ∈ s.db.accounts)
    (run : Runs (M := syncHost ι) (undisturbed live) (driveStatuses me (account :: accounts)).run s r s') :
    Runs (M := syncHost ι) (undisturbed live) (driveStatuses me accounts).run
      (s.settleWhere live (·.id = account.id)) r s' := by
  have unique : ∀ a ∈ s.db.accounts, decide (a.id = account.id) = true → a = account := by
    intro a ha same
    exact Keyed.Table.eq_of_key ha mem (of_decide_eq_true same)
  obtain ⟨c, rfl, run⟩ := runs_call.mp run
  change Runs (M := syncHost ι) (undisturbed live) (ExceptT.run (match desiredStatus (s.shown live account.id).state with
    | none => driveStatuses me accounts
    | some desired => if account.status ≠ desired then do
        let _ ← (attempt (tryTransact me (.setStatus account.id desired (s.shown live account.id).lastError)) :
            SyncAction ι Error (Except Error Unit))
        driveStatuses me accounts
      else driveStatuses me accounts)) s r s' at run
  split at run
  · rename_i unknown
    rw [settleWhere_of_fixed]
    · exact run
    · intro a ha same
      rw [unique a ha same, Account.settle, unknown]
  · rename_i desired known
    split at run
    · rename_i stale
      obtain ⟨c, ⟨rfl, u, db, hb⟩, run⟩ := runs_call.mp run
      change Runs (M := syncHost ι) (undisturbed live) (driveStatuses me accounts).run
        (s.transact me _ none).2 r s' at run
      rw [SyncHost.transact_ok hb, AccountRepository.rewrite_ok hb] at run
      have written : s.db.accounts.update (·.id = account.id) (fun a => a.settle (s.shown live a.id))
            (fun _ => Account.settle_id ..) =
          s.db.accounts.update (·.id = account.id) (Account.setStatus desired (s.shown live account.id).lastError)
            fun _ => rfl := by
        apply Keyed.Table.update_congr
        intro a ha
        by_cases same : a.id = account.id
        · rw [unique a ha (decide_eq_true same), Account.settle, known]
          simp [stale]
        · simp [same]
      rw [SyncHost.settleWhere, written]
      exact run
    · rename_i fresh
      rw [settleWhere_of_fixed]
      · exact run
      · intro a ha same
        rw [unique a ha same, Account.settle, known]
        exact if_neg fresh

/-- The first loop settles the accounts it is given. -/
private theorem driveStatuses_runs {accounts : List Account} (mem : ∀ a ∈ accounts, a ∈ s.db.accounts)
    (distinct : (accounts.map Account.id).Nodup)
    (run : Runs (M := syncHost ι) (undisturbed live) (driveStatuses me accounts).run s r s') :
    r = .ok () ∧ s' = s.settleWhere live fun a => a ∈ accounts := by
  induction accounts generalizing s with
  | nil =>
    obtain ⟨rfl, rfl⟩ := runs_ret.mp run
    exact ⟨rfl, (settleWhere_of_fixed fun a _ absent => by simp at absent).symm⟩
  | cons account accounts ih =>
    obtain ⟨fresh, distinct⟩ := List.nodup_cons.mp distinct
    have here := mem account List.mem_cons_self
    have rest : ∀ a ∈ accounts, a ∈ (s.settleWhere live (·.id = account.id)).db.accounts := by
      intro a ha
      have other : a.id ≠ account.id := fun same => fresh (same ▸ List.mem_map_of_mem ha)
      exact mem_settleWhere.mpr ⟨a, mem a (List.mem_cons_of_mem _ ha), by simp [other]⟩
    obtain ⟨rfl, rfl⟩ := ih rest distinct (driveStatuses_cons here run)
    refine ⟨rfl, ?_⟩
    unfold SyncHost.settleWhere
    rw [← Keyed.Table.update_update_one here fresh]
    rfl

/-- The second loop stops what it is given and is not enabled. -/
private theorem tearDown_runs {enabledIds ids : List AccountId}
    (run : Runs (M := syncHost ι) (undisturbed live) (tearDown me enabledIds ids).run s r s') :
    r = .ok () ∧ s' = { s with tracked := s.tracked.filter fun e => e.1 ∉ ids ∨ e.1 ∈ enabledIds } := by
  induction ids generalizing s with
  | nil =>
    obtain ⟨rfl, rfl⟩ := runs_ret.mp run
    exact ⟨rfl, by simp⟩
  | cons id ids ih =>
    unfold tearDown at run
    split at run
    · rename_i absent
      obtain ⟨c, -, run⟩ := runs_call.mp run
      obtain ⟨rfl, rfl⟩ := ih (s := s.untrack id) run
      refine ⟨rfl, ?_⟩
      unfold SyncHost.untrack
      simp only [List.filter_filter]
      congr 1
      apply List.filter_congr
      intro e _
      by_cases same : e.1 = id
      · simp [same, absent]
      · simp [same]
    · rename_i present
      obtain ⟨rfl, rfl⟩ := ih run
      refine ⟨rfl, ?_⟩
      congr 1
      apply List.filter_congr
      intro e _
      by_cases same : e.1 = id
      · simp [same, not_not.mp present]
      · simp [same]

/-- A tick settles the enabled accounts and stops the others. -/
private theorem reconcileStatuses_runs (run : Runs (M := syncHost ι) (undisturbed live) (reconcileStatuses me).run s r s') :
    r = .ok () ∧ s'.db = (s.settleWhere live Account.enabled).db ∧
      ∀ e, e ∈ s'.tracked ↔ e ∈ s.tracked ∧ s.db.Enabled e.1 := by
  obtain ⟨c, ⟨rfl, accounts, db, hb⟩, run⟩ := runs_call.mp run
  obtain ⟨rfl, listed⟩ := AccountRepository.mem_listEnabled hb
  have replied : (syncHost ι).exec (.transact me .listEnabled) none s =
      (.ok accounts, { s with since := Function.update s.since me [] }) := SyncHost.transact_ok hb
  rw [replied] at run
  change Runs (M := syncHost ι) (undisturbed live) ((driveStatuses me accounts).run >>= _)
    { s with since := Function.update s.since me [] } r s' at run
  obtain ⟨driven, t, drive, run⟩ := runs_bind.mp run
  have distinct : (accounts.map Account.id).Nodup := by
    cases hb
    exact s.db.accounts.nodup.sublist (List.filter_sublist.map _)
  obtain ⟨rfl, rfl⟩ := driveStatuses_runs (s := { s with since := Function.update s.since me [] })
    (fun a ha => ((listed a).mp ha).1) distinct drive
  obtain ⟨order, perm, run⟩ := runs_call.mp run
  obtain ⟨rfl, rfl⟩ := tearDown_runs run
  refine ⟨rfl, ?_, ?_⟩
  · have same : s.db.accounts.update (fun a => a ∈ accounts) (fun a => a.settle (s.shown live a.id))
          (fun _ => Account.settle_id ..) =
        s.db.accounts.update Account.enabled (fun a => a.settle (s.shown live a.id)) fun _ =>
          Account.settle_id .. := by
      apply Keyed.Table.update_congr
      intro a ha
      have is_listed : a ∈ accounts ↔ a.enabled = true := (listed a).trans (and_iff_right ha)
      simp [is_listed]
    unfold SyncHost.settleWhere
    rw [← same]
    rfl
  · intro e
    have enabled : e.1 ∈ accounts.map Account.id ↔ s.db.Enabled e.1 := by
      constructor
      · intro mem
        obtain ⟨a, ha, same⟩ := List.mem_map.mp mem
        obtain ⟨there, on⟩ := (listed a).mp ha
        exact ⟨a, there, same, on⟩
      · rintro ⟨a, there, same, on⟩
        exact List.mem_map.mpr ⟨a, (listed a).mpr ⟨there, on⟩, same⟩
    have asked : e ∈ s.tracked → e.1 ∈ order (s.tracked.map Prod.fst) := by
      intro mem
      exact (perm _).mem_iff.mpr (List.mem_map_of_mem mem)
    rw [← enabled]
    simp only [List.mem_filter]
    constructor
    · rintro ⟨mem, kept⟩
      exact ⟨mem, (of_decide_eq_true kept).resolve_left (not_not.mpr (asked mem))⟩
    · rintro ⟨mem, on⟩
      exact ⟨mem, decide_eq_true (.inr on)⟩

/-- A tick that nothing disturbs runs to its end and restores agreement: what is tracked is what was and is enabled,
a tracked account has the status its live state calls for, and no other row or table has changed. -/
theorem reconcileStatuses_restores (run : Runs (M := syncHost ι) (undisturbed live) (reconcileStatuses me).run s r s') :
    r = .ok () ∧ (∀ id, s'.db.Enabled id ↔ s.db.Enabled id) ∧
      (∀ id, s'.Tracks id ↔ s.Tracks id ∧ s'.db.Enabled id) ∧
    (∀ a ∈ s'.db.accounts, s'.Tracks a.id → ∀ desired, desiredStatus (live a.id).state = some desired → a.status = desired) ∧
    (∀ a ∈ s.db.accounts, a ∈ s'.db.accounts ∨
      s'.Tracks a.id ∧ ∃ desired, desiredStatus (live a.id).state = some desired ∧ a.status ≠ desired ∧
        a.setStatus desired (live a.id).lastError ∈ s'.db.accounts) ∧
    s'.db.accounts.rows.map Account.id = s.db.accounts.rows.map Account.id ∧
    s'.db = { s.db with accounts := s'.db.accounts } := by
  obtain ⟨rfl, settled, kept⟩ := reconcileStatuses_runs run
  have enabled : ∀ id, s'.db.Enabled id ↔ s.db.Enabled id := by
    intro id
    rw [settled]
    exact enabled_settleWhere
  have tracks : ∀ id, s'.Tracks id ↔ s.Tracks id ∧ s'.db.Enabled id := by
    intro id
    simp only [SyncHost.Tracks, kept, enabled, exists_and_right]
  refine ⟨rfl, enabled, tracks, ?_, ?_, ?_, ?_⟩
  · intro a mem tracked desired known
    obtain ⟨ran, b, there, same, on⟩ := (tracks a.id).mp tracked
    obtain rfl := Keyed.Table.eq_of_key there mem same
    rw [settled] at mem
    obtain ⟨a', -, rfl⟩ := mem_settleWhere.mp mem
    split at on
    · rename_i before
      rw [if_pos before, Account.settle_id] at ran known
      rw [if_pos before]
      exact Account.settle_status ((s.shown_of_tracks live ran) ▸ known) a'
    · rename_i before
      exact absurd on before
  · intro a mem
    have written : (if a.enabled then a.settle (s.shown live a.id) else a) ∈ s'.db.accounts := by
      rw [settled]
      exact mem_settleWhere.mpr ⟨a, mem, rfl⟩
    split at written
    · rename_i on
      by_cases ran : s.Tracks a.id
      · rw [s.shown_of_tracks live ran] at written
        rcases a.settle_cases (live a.id) with same | ⟨desired, known, stale, changed⟩
        · exact .inl (same ▸ written)
        · exact .inr ⟨(tracks a.id).mpr ⟨ran, (enabled a.id).mpr ⟨a, mem, rfl, on⟩⟩, desired, known, stale, changed ▸ written⟩
      · rw [s.shown_of_not_tracks live ran] at written
        exact .inl written
    · exact .inl written
  · rw [settled]
    exact @Keyed.Table.update_keys _ _ _ s.db.accounts _ _ fun _ => Account.settle_id ..
  · rw [settled]
    rfl

/-- A host whose database has one account, while the port also runs another. -/
def driftedHost : SyncHost Nat where
  db := ⟨⟨[{ workAccount with status := .pendingFirstSync }], by simp⟩, .empty, .empty, .empty, .empty, .empty, 0⟩
  tracked := [(1, ⟨workAccount.server, workAccount.username, "secret", []⟩), (7, ⟨workAccount.server, "left", "secret", []⟩)]
  log := []
  since _ := []

theorem reconcileStatuses_restores_drifted : ∃ s', Runs (M := syncHost Nat) (undisturbed fun _ => initialStatus)
    (reconcileStatuses 1).run driftedHost (.ok ()) s' ∧ s'.Tracks 1 ∧ ¬ s'.Tracks 7 ∧
      ∀ a ∈ s'.db.accounts, s'.Tracks a.id → a.status = .syncing := by
  have follows : (syncHost Nat).Follows (undisturbed fun _ => initialStatus) untroubled 6
      ((reconcileStatuses 1).run, driftedHost) :=
    ⟨⟨rfl, _, _, rfl⟩, rfl, ⟨rfl, _, _, rfl⟩, fun ids => .refl ids, trivial, trivial⟩
  have run : Runs (M := syncHost Nat) (undisturbed fun _ => initialStatus)
    (reconcileStatuses 1).run driftedHost (.ok ())
      ((syncHost Nat).follow untroubled 6 ((reconcileStatuses 1).run, driftedHost)).2 := follows.reaches
  obtain ⟨-, enabled, tracks, statuses, -⟩ := reconcileStatuses_restores run
  refine ⟨_, run, ?_, ?_, fun a mem tracked => statuses a mem tracked _ rfl⟩
  · exact (tracks 1).mpr ⟨⟨_, List.mem_cons_self⟩, (enabled 1).mpr ⟨_, List.mem_singleton.mpr rfl, rfl, rfl⟩⟩
  · intro tracked
    obtain ⟨a, mem, same, -⟩ := (enabled 7).mp ((tracks 7).mp tracked).2
    rw [List.mem_singleton.mp mem] at same
    cases same

end MailKeep
