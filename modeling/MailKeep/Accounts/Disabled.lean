import MailKeep.Accounts.Registry
import MailKeep.Accounts.Reconcile
import MailKeep.Users.Site

/-! Whether a disabled account reads as disabled, while calls and ticks write both columns. -/
namespace MailKeep
open Program

/-- A disabled account has the status disabled and no other account has it. -/
def Database.StatusesRight (db : Database) : Prop := ∀ a ∈ db.accounts, a.enabled = false ↔ a.status = .disabled

def Database.Off (db : Database) (accountId : AccountId) :
    Prop := ∃ a ∈ db.accounts, a.id = accountId ∧ a.enabled = false

instance (db : Database) : Decidable db.StatusesRight :=
  inferInstanceAs (Decidable (∀ a ∈ db.accounts.rows, a.enabled = false ↔ a.status = .disabled))

instance (db : Database) (accountId : AccountId) : Decidable (db.Off accountId) :=
  inferInstanceAs (Decidable (∃ a ∈ db.accounts.rows, a.id = accountId ∧ a.enabled = false))

namespace Database.StatusesRight
variable {db : Database} {accountId : AccountId} {f : Account → Account} {hf : ∀ a, (f a).id = a.id}

theorem update (h : db.StatusesRight)
    (keeps : ∀ a ∈ db.accounts, a.id = accountId → ((f a).enabled = false ↔ (f a).status = .disabled)) :
    (db.updateAccount accountId f hf).StatusesRight := by
  intro a ha
  obtain ⟨a', ha', rfl⟩ := Database.mem_updateAccount.mp ha
  split
  · rename_i same
    exact keeps a' ha' same
  · exact h a' ha'

theorem deleteAccounts (h : db.StatusesRight) (gone : AccountId → Bool) : (db.deleteAccounts gone).StatusesRight :=
  fun a ha => h a (Keyed.Table.mem_filter.mp ha).1

theorem setFlags (h : db.StatusesRight) {enabled : Bool} {status : AccountStatus}
    (agree : enabled = false ↔ status = .disabled) :
    ((db.updateAccount accountId (·.setEnabled enabled) fun _ => rfl).updateAccount accountId
      (·.setStatus status none) fun _ => rfl).StatusesRight := by
  intro a ha
  obtain ⟨b, hb, rfl⟩ := Database.mem_updateAccount.mp ha
  obtain ⟨a', ha', rfl⟩ := Database.mem_updateAccount.mp hb
  by_cases same : a'.id = accountId
  · rw [if_pos same, if_pos (show (a'.setEnabled enabled).id = accountId from same)]
    exact agree
  · rw [if_neg same, if_neg same]
    exact h a' ha'

/-- A status that is not that of a disabled account is right for every account but a disabled one. -/
private theorem setStatus_iff (h : db.StatusesRight) {status : AccountStatus} {lastError : Option String}
    (other : status ≠ .disabled) :
    (db.updateAccount accountId (·.setStatus status lastError) fun _ => rfl).StatusesRight ↔
      ¬ db.Off accountId := by
  constructor
  · rintro right ⟨a, ha, hid, off⟩
    have written : a.setStatus status lastError ∈
        (db.updateAccount accountId (·.setStatus status lastError) fun _ => rfl).accounts :=
      Database.mem_updateAccount.mpr ⟨a, ha, (if_pos hid).symm⟩
    exact other ((right _ written).mp off)
  · intro on
    exact h.update fun a ha hid => iff_of_false (fun off => on ⟨a, ha, hid, off⟩) other

end Database.StatusesRight

/-- A transaction on accounts keeps the two columns in step, except a status set on a disabled account. -/
private theorem AccountTxn.statusesRight {t : AccountTxn} {r : t.Result} {db db' : Database}
    (h : t.body db = .ok (r, db'))
    (right : db.StatusesRight)
    (on : ∀ id status lastError, t = .setStatus id status lastError → status ≠ .disabled ∧ ¬ db.Off id) :
    db'.StatusesRight := by
  cases t with
  | listEnabled =>
    obtain ⟨rfl, -⟩ := AccountRepository.mem_listEnabled h
    exact right
  | enable userId accountId =>
    rw [AccountService.setFlags_ok h]
    exact right.setFlags (by decide)
  | disable userId accountId =>
    rw [AccountService.setFlags_ok h]
    exact right.setFlags (by decide)
  | setStatus accountId status lastError =>
    obtain ⟨other, on⟩ := on accountId status lastError rfl
    rw [AccountRepository.rewrite_ok h]
    exact (right.setStatus_iff other).mpr on
  | listEnabledFolders accountId =>
    change FolderRepository.listEnabledForAccount accountId db = _ at h
    unfold FolderRepository.listEnabledForAccount at h
    split at h <;> cases h
    exact right

/-- An update works on the row it read, so it leaves both columns alone. -/
private theorem AccountService.updateAccount_statusesRight {userId : UserId} {accountId : AccountId}
    {expectedVersion : Nat}
    {change : PartialAccountUpdate} {account : Account} {db db' : Database}
    (h : AccountService.updateAccount userId accountId expectedVersion change db = .ok (account, db'))
    (right : db.StatusesRight) : db'.StatusesRight := by
  obtain ⟨existing, hm, hid, -, -, -, rfl⟩ := updateAccount_ok h
  apply right.update
  intro a ha same
  obtain rfl := Keyed.Table.eq_of_key ha hm (same.trans hid.symm)
  obtain ⟨enabled, status⟩ := Account.updated_flags (change.applyTo a) a
  rw [enabled, status]
  exact right a ha

/-- No status that a call or a tick sets by itself is that of a disabled account. -/
def SyncOp.Plain {ι : Type} : SyncOp ι → Prop
  | transact _ (.setStatus _ written _) => written ≠ .disabled
  | _ => True

def RegistryOp.Plain {ι : Type} : RegistryOp ι → Prop
  | sync o => o.Plain
  | account (.insert _) | account (.createFolders _ _) | user _ _ => False
  | _ => True

section
variable {ι : Type} {i : ι} {cipher : CredentialCipher}

private theorem only_startOne (account : Account) : OnlyAct SyncOp.Plain
    (startOne i cipher.openCredentials account) := by
  refine OnlyAct.seq (OnlyAct.op trivial) fun folders => OnlyAct.seq (OnlyAct.liftResult _) fun password => ?_
  apply OnlyAct.seq (OnlyAct.attempt (OnlyAct.op trivial))
  intro r
  cases r with
  | ok _ => exact OnlyAct.op (show AccountStatus.syncing ≠ .disabled by decide)
  | error e =>
    refine OnlyAct.seq (OnlyAct.attempt (OnlyAct.op ?_)) fun _ => OnlyAct.throw e
    exact show AccountStatus.error ≠ .disabled by decide

private theorem only_startAccount (accountId : AccountId) :
    OnlyAct SyncOp.Plain (startAccount i cipher.openCredentials accountId) := by
  apply OnlyAct.seq (OnlyAct.op trivial)
  intro accounts
  split
  · exact only_startOne _
  · exact OnlyAct.throw _

private theorem desiredStatus_ne {state : SyncState} {desired : AccountStatus}
    (h : desiredStatus state = some desired) :
    desired ≠ .disabled := by
  cases state <;> cases h <;> decide

private theorem only_driveStatuses (accounts : List Account) : OnlyAct SyncOp.Plain (driveStatuses i accounts) := by
  induction accounts with
  | nil => exact OnlyAct.pure ()
  | cons account accounts ih =>
    apply OnlyAct.seq (OnlyAct.attempt (OnlyAct.op trivial))
    intro r
    cases r with
    | error e => exact ih
    | ok live =>
      dsimp only
      split
      · exact ih
      · rename_i desired hd
        split
        · exact OnlyAct.seq (OnlyAct.attempt (OnlyAct.op (desiredStatus_ne hd))) fun _ => ih
        · exact ih

private theorem only_tearDown (ids tracked : List AccountId) : OnlyAct SyncOp.Plain (tearDown i ids tracked) := by
  induction tracked with
  | nil => exact OnlyAct.pure ()
  | cons id tracked ih =>
    unfold tearDown
    split
    · exact OnlyAct.seq (OnlyAct.attempt (OnlyAct.op trivial)) fun _ => ih
    · exact ih

private theorem only_reconcileStatuses : OnlyAct SyncOp.Plain (reconcileStatuses i) := by
  apply OnlyAct.seq (OnlyAct.op trivial)
  intro enabled
  apply OnlyAct.seq (only_driveStatuses enabled)
  intro _
  exact OnlyAct.seq (OnlyAct.op trivial) fun tracked => only_tearDown _ tracked

private theorem only_updateAccount (userId : UserId) (accountId : AccountId) (expectedVersion : Nat)
    (input : PartialAccountInput) :
    OnlyAct RegistryOp.Plain (updateAccount (ι := ι) userId accountId expectedVersion input) := by
  refine OnlyAct.seq (OnlyAct.liftResult _) fun _ => OnlyAct.seq ?_ fun credentials => OnlyAct.op trivial
  cases input.password with
  | none => exact OnlyAct.pure _
  | some password => exact OnlyAct.seq (OnlyAct.op trivial) fun _ => OnlyAct.pure _

theorem AccountCall.only (call : AccountCall) : (call.prog cipher i).Only RegistryOp.Plain := by
  have act : OnlyAct RegistryOp.Plain (call.handle cipher i) := by
    cases call with
    | enable => exact OnlyAct.seq (OnlyAct.embed _ (OnlyAct.op (P := SyncOp.Plain) trivial) fun _ h => h) fun _ => OnlyAct.pure ()
    | disable => exact OnlyAct.seq (OnlyAct.embed _ (OnlyAct.op (P := SyncOp.Plain) trivial) fun _ h => h) fun _ => OnlyAct.pure ()
    | startAccount => exact OnlyAct.embed _ (only_startAccount _) fun _ h => h
    | stopAccount => exact OnlyAct.embed _ (OnlyAct.op (P := SyncOp.Plain) trivial) fun _ h => h
    | updateAccount => exact OnlyAct.seq (only_updateAccount _ _ _ _) fun _ => OnlyAct.pure ()
    | deleteAccount => exact OnlyAct.seq (OnlyAct.op trivial) fun _ => OnlyAct.pure ()
    | reconcileStatuses => exact OnlyAct.embed _ only_reconcileStatuses fun _ h => h
  exact Prog.Only.bind act fun _ => trivial

end

variable {ι : Type} [DecidableEq ι] {platform : Platform} {cases : Unicode.CaseData} {cipher : CredentialCipher}

/-- Any number of calls; a status that is set by itself is committed where `may` lets it. -/
def accountSystem (platform : Platform) (cases : Unicode.CaseData) (cipher : CredentialCipher)
    (may : Registry ι → AccountId → Prop) : System (registry ι platform cases cipher) ι RegistryEnd where
  allowed
    | s, .sync (.transact _ (.setStatus accountId _ _)), none => may s accountId
    | _, .sync .trackedAccounts, order => ∀ ids, (order ids).Perm ids
    | _, _, _ => True
  root _ i p := ∃ call : AccountCall, p = call.prog cipher i
  env _ _ := False
  crash _ _ := False

private theorem transact_right {s : SyncHost ι} {me : ι} {t : AccountTxn} {c : Option DbErr}
    (right : s.db.StatusesRight)
    (on : c = none → ∀ id status lastError, t = .setStatus id status lastError → status ≠ .disabled ∧ ¬ s.db.Off id) :
    (s.transact me t c).2.db.StatusesRight := by
  cases c with
  | some e => exact right
  | none =>
    unfold SyncHost.transact
    dsimp only
    split
    · exact right
    · rename_i r db hb
      have noted : ({ s with db := db }.note me t).db = db := by
        cases t <;> rfl
      dsimp only
      rw [noted]
      exact AccountTxn.statusesRight hb right (on rfl)

private theorem accountSystem_confined : (accountSystem (ι := ι) platform cases cipher fun s id => ¬ s.host.db.Off id).Confined
    (fun _ => RegistryOp.Plain) fun s => s.host.db.StatusesRight where
  root s i p _ root := by
    obtain ⟨call, rfl⟩ := root
    exact call.only
  op s i o c right plain ok := by
    cases o with
    | sync o =>
      cases o with
      | transact me t =>
        apply transact_right right
        rintro rfl id status lastError rfl
        exact ⟨plain, ok⟩
      | start _ _ | stop _ | reclaim _ _ | status _ | trackedAccounts => exact right
    | account t =>
      change (s.transact t c).2.host.db.StatusesRight
      unfold Registry.transact
      split
      · exact right
      · split
        · exact right
        · rename_i r db hb
          cases t with
          | insert new => exact plain.elim
          | createFolders accountId folders => exact plain.elim
          | update userId accountId expectedVersion change =>
            exact AccountService.updateAccount_statusesRight hb right
          | delete userId accountId =>
            obtain ⟨-, -, rfl⟩ := AccountService.deleteAccount_ok hb
            exact right.deleteAccounts _
    | user me o => exact plain.elim
    | sealPassword _ _ | accountToken | folderTokens _ => exact right
  env _ _ _ outside := outside.elim
  crash _ _ _ crash := crash.elim

/-- In every run in which no status is set by itself on a disabled account, disabled accounts and only
those read as disabled; and a status set by itself breaks this just where the account is disabled. -/
theorem disabled_reads_disabled {s : Registry ι} (right : s.host.db.StatusesRight)
    {c : Config (registry ι platform cases cipher) ι RegistryEnd}
    (run : (accountSystem platform cases cipher fun s id => ¬ s.host.db.Off id).Reaches (.idle s) c) :
    c.state.host.db.StatusesRight ∧ ∀ i me id status lastError next db,
      c.threads i = some (.call (.sync (.transact me (.setStatus id status lastError))) next) →
      AccountRepository.setStatus id status lastError c.state.host.db = .ok ((), db) →
      (c.state.host.db.Off id ↔ ¬ db.StatusesRight) := by
  obtain ⟨now, only⟩ := accountSystem_confined.reaches right run
  refine ⟨now, fun i me id status lastError next db hi hb => ?_⟩
  have other : status ≠ .disabled := (only i _ hi).1
  rw [AccountRepository.rewrite_ok hb, now.setStatus_iff other, not_not]

def plainCipher : CredentialCipher := ⟨fun _ _ password => password.toUTF8.toList, fun _ _ => .ok "secret"⟩

def workRegistry : Registry Nat where
  host := { quietHost with db := { quietHost.db with accounts := ⟨[workAccount], workAccount_ids⟩ } }
  server := annServer
  read _ := none

def calmly : (o : RegistryOp Nat) → o.Choice
  | .sync o => untroubled o
  | .account _ => none
  | .user _ o => drawing 2 o
  | .sealPassword _ _ | .accountToken => 0
  | .folderTokens _ => fun n => n

abbrev workSystem (may : Registry Nat → AccountId → Prop) := accountSystem plainPlatform latinCases plainCipher may

def startAgainstDisable : Config (registry Nat plainPlatform latinCases plainCipher) Nat RegistryEnd :=
  ((Config.idle workRegistry).set workRegistry 0 ((AccountCall.startAccount 1).prog plainCipher 0)).set workRegistry 1
    ((AccountCall.disable 1 1).prog plainCipher 1)

private theorem startAgainstDisable_reached {may : Registry Nat → AccountId → Prop} {turns : List Nat}
    (permits : (workSystem may).Permits (fun _ => calmly) startAgainstDisable turns) :
    (workSystem may).Reaches (.idle workRegistry) (turns.foldl (fun c i => c.advance calmly i) startAgainstDisable) := by
  have start : (workSystem may).Step (.idle workRegistry)
      ((Config.idle workRegistry).set workRegistry 0 ((AccountCall.startAccount 1).prog plainCipher 0)) :=
    System.step_start rfl ⟨_, rfl⟩
  have disable : (workSystem may).Step ((Config.idle workRegistry).set workRegistry 0
      ((AccountCall.startAccount 1).prog plainCipher 0)) startAgainstDisable :=
    System.step_start rfl ⟨_, rfl⟩
  exact ((Relation.ReflTransGen.single start).tail disable).trans permits.reaches

/-- The account is disabled once its start has gone through. -/
theorem disabled_reads_disabled_afterStart :
    ∃ c : Config (registry Nat plainPlatform latinCases plainCipher) Nat RegistryEnd,
      c.state.host.db.accounts.rows.map (fun a => (a.enabled, a.status)) = [(false, .disabled)] ∧
        c.state.host.db.StatusesRight := by
  have on : ¬ (([0, 0, 0].foldl (fun c i => c.advance calmly i) startAgainstDisable).state.host.db.Off 1) := by decide
  have permits : (workSystem fun s id => ¬ s.host.db.Off id).Permits
      (fun _ => calmly) startAgainstDisable [0, 0, 0, 0, 1] :=
    ⟨trivial, trivial, trivial, on, trivial, trivial⟩
  refine ⟨_, ?_, (disabled_reads_disabled ?_ (startAgainstDisable_reached permits)).1⟩
  · rfl
  · decide

/-- The account is disabled while its start runs, and the start has the last word on the status. -/
theorem disabled_reads_syncing :
    ∃ c : Config (registry Nat plainPlatform latinCases plainCipher) Nat RegistryEnd,
      (workSystem fun _ _ => True).Reaches (.idle workRegistry) c ∧
        c.threads 0 = some (.ret (.called (.ok ()))) ∧ c.threads 1 = some (.ret (.called (.ok ()))) ∧
        workRegistry.host.db.StatusesRight ∧ ¬ c.state.host.db.StatusesRight := by
  have permits : (workSystem fun _ _ => True).Permits (fun _ => calmly) startAgainstDisable [0, 0, 0, 1, 0] :=
    ⟨trivial, trivial, trivial, trivial, trivial, trivial⟩
  refine ⟨_, startAgainstDisable_reached permits, rfl, rfl, ?_, ?_⟩
  · decide
  · decide

end MailKeep
