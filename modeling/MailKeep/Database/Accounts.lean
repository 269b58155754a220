import MailKeep.Database.Listing

/-! The writes to the accounts table: the two flags of an account and its deletion with all that hangs on it. -/
namespace MailKeep

def Account.setEnabled (enabled : Bool) (a : Account) :
    Account := { a with enabled := enabled, version := a.version + 1 }

def Account.setStatus (status : AccountStatus) (lastError : Option String) (a : Account) : Account :=
  { a with status := status, lastError := lastError, version := a.version + 1 }

def Database.updateAccount (db : Database) (accountId : AccountId) (f : Account → Account)
    (hf : ∀ a, (f a).id = a.id) :
    Database :=
  { db with accounts := db.accounts.update (·.id = accountId) f hf }

def Database.Enabled (db : Database) (accountId : AccountId) :
    Prop := ∃ a ∈ db.accounts, a.id = accountId ∧ a.enabled = true

theorem Database.mem_updateAccount {db : Database} {accountId : AccountId} {f : Account → Account}
    {hf : ∀ a, (f a).id = a.id} {a : Account} :
    a ∈ (db.updateAccount accountId f hf).accounts ↔ ∃ a' ∈ db.accounts,
      a = if a'.id = accountId then f a' else a' := by
  rw [updateAccount, Keyed.Table.mem_update]
  simp

theorem Database.Enabled.of_update {db : Database} {accountId id : AccountId} {f : Account → Account}
    {hf : ∀ a, (f a).id = a.id} (h : (db.updateAccount accountId f hf).Enabled id)
    (same : ∀ a, (f a).enabled = a.enabled) : db.Enabled id := by
  obtain ⟨a, ha, hid, he⟩ := h
  obtain ⟨a', ha', rfl⟩ := Database.mem_updateAccount.mp ha
  refine ⟨a', ha', ?_, ?_⟩
  · split at hid
    · exact (hf a').symm.trans hid
    · exact hid
  · split at he
    · exact (same a').symm.trans he
    · exact he

/-- `ON DELETE CASCADE` from the accounts down: folders and messages, then locations and attachment rows. -/
def Database.deleteAccounts (db : Database) (gone : AccountId → Bool) : Database :=
  let folderGone := fun id => (db.folders.find? id).any fun f => gone f.accountId
  let messageGone := fun id => (db.messages.find? id).any fun m => gone m.accountId
  { db with
    accounts := db.accounts.filter fun a => !gone a.id
    folders := db.folders.filter fun f => !gone f.accountId
    messages := db.messages.filter fun m => !gone m.accountId
    locations := db.locations.filter fun l => !messageGone l.messageId && !folderGone l.folderId
    attachments := db.attachments.filter fun t => !messageGone t.messageId && !gone t.accountId }

namespace AccountRepository

def findByIdForUser (userId : UserId) (accountId : AccountId) : Transaction (Option Account) := fun db =>
  if accountId = 0 then .error (.invalidId accountId)
  else .ok ((db.accounts.find? accountId).filter (·.userId = userId), db)

def listEnabled : Transaction (List Account) := fun db => .ok (db.accounts.rows.filter (·.enabled), db)

def rewrite (accountId : AccountId) (f : Account → Account) (hf : ∀ a, (f a).id = a.id) :
    Transaction Unit := fun db =>
  if accountId = 0 then .error (.invalidId accountId)
  else match db.accounts.find? accountId with
  | none => .error (.repositoryError .notFound)
  | some _ => .ok ((), db.updateAccount accountId f hf)

def setEnabled (accountId : AccountId) (enabled : Bool) : Transaction Unit :=
  rewrite accountId (·.setEnabled enabled) fun _ => rfl

def setStatus (accountId : AccountId) (status : AccountStatus) (lastError : Option String) : Transaction Unit :=
  rewrite accountId (·.setStatus status lastError) fun _ => rfl

def delete (account : Account) : Transaction Account := fun db =>
  if account.id = 0 then .error (.invalidId account.id)
  else match db.accounts.find? account.id with
  | none => .error (.repositoryError .notFound)
  | some existing =>
    if existing.version ≠ account.version then .error (.repositoryError .conflict)
    else .ok (existing, db.deleteAccounts (· = account.id))

theorem mem_listEnabled {db db' : Database} {accounts : List Account} (h : listEnabled db = .ok (accounts, db')) :
    db' = db ∧ ∀ a, a ∈ accounts ↔ a ∈ db.accounts ∧ a.enabled = true := by
  cases h
  exact ⟨rfl, fun a => by simp [Keyed.Table.mem_def]⟩

theorem rewrite_ok {accountId : AccountId} {f : Account → Account} {hf : ∀ a, (f a).id = a.id} {db db' : Database}
    (h : rewrite accountId f hf db = .ok ((), db')) : db' = db.updateAccount accountId f hf := by
  unfold rewrite at h
  split at h
  · cases h
  · split at h
    · cases h
    · cases h
      rfl

theorem delete_ok {account deleted : Account} {db db' : Database} (h : delete account db = .ok (deleted, db')) :
    deleted ∈ db.accounts ∧ deleted.id = account.id ∧ db' = db.deleteAccounts (· = account.id) := by
  unfold delete at h
  split at h
  · cases h
  · split at h
    · cases h
    · rename_i found hf
      obtain ⟨hm, hid⟩ := Keyed.Table.find?_eq_some.mp hf
      split at h
      · cases h
      · cases h
        exact ⟨hm, hid, rfl⟩

theorem delete_stale {account existing : Account} {db : Database} (hm : existing ∈ db.accounts)
    (hid : existing.id = account.id) (valid : account.id ≠ 0) (stale : existing.version ≠ account.version) :
    delete account db = .error (.repositoryError .conflict) := by
  unfold delete
  rw [if_neg valid, Keyed.Table.find?_eq_some.mpr ⟨hm, hid⟩]
  exact if_pos stale

end AccountRepository

namespace AccountService

def ownAccount (userId : UserId) (accountId : AccountId) : Transaction Account := do
  match ← AccountRepository.findByIdForUser userId accountId with
  | some account => return account
  | none => fun _ => .error (.repositoryError .notFound)

def enable (userId : UserId) (accountId : AccountId) : Transaction Account := do
  let account ← ownAccount userId accountId
  AccountRepository.setEnabled accountId true
  AccountRepository.setStatus accountId .pendingFirstSync none
  return account

def disable (userId : UserId) (accountId : AccountId) : Transaction Account := do
  let account ← ownAccount userId accountId
  AccountRepository.setEnabled accountId false
  AccountRepository.setStatus accountId .disabled none
  return account

def deleteAccount (userId : UserId) (accountId : AccountId) : Transaction Account := do
  let existing ← ownAccount userId accountId
  AccountRepository.delete existing

theorem ownAccount_ok {userId : UserId} {accountId : AccountId} {account : Account} {db db' : Database}
    (h : ownAccount userId accountId db = .ok (account, db')) :
    db' = db ∧ account ∈ db.accounts ∧ account.id = accountId ∧ account.userId = userId := by
  obtain ⟨found, mid, hf, h⟩ := Transaction.bind_eq_ok.mp h
  unfold AccountRepository.findByIdForUser at hf
  split at hf
  · cases hf
  · have same : (db.accounts.find? accountId).filter (·.userId = userId) = found ∧ db = mid := by simpa using hf
    cases found with
    | none => cases h
    | some a =>
      obtain ⟨rfl, rfl⟩ := Transaction.pure_eq_ok.mp h
      obtain ⟨hfind, own⟩ := Option.filter_eq_some_iff.mp same.1
      obtain ⟨hm, hid⟩ := Keyed.Table.find?_eq_some.mp hfind
      exact ⟨same.2.symm, hm, hid, by simpa using own⟩

theorem deleteAccount_ok {userId : UserId} {accountId : AccountId} {account : Account} {db db' : Database}
    (h : deleteAccount userId accountId db = .ok (account, db')) :
    account ∈ db.accounts ∧ account.id = accountId ∧ db' = db.deleteAccounts (· = accountId) := by
  obtain ⟨existing, mid, ho, hd⟩ := Transaction.bind_eq_ok.mp h
  obtain ⟨rfl, -, rfl, -⟩ := ownAccount_ok ho
  exact AccountRepository.delete_ok hd

/-- What `enable` and `disable` have in common. -/
theorem setFlags_ok {userId : UserId} {accountId : AccountId} {enabled : Bool} {status : AccountStatus}
    {account : Account} {db db' : Database}
    (h : (do
      let account ← ownAccount userId accountId
      AccountRepository.setEnabled accountId enabled
      AccountRepository.setStatus accountId status none
      return account : Transaction Account) db = .ok (account, db')) :
    db' = (db.updateAccount accountId (·.setEnabled enabled) fun _ => rfl).updateAccount accountId
      (·.setStatus status none) fun _ => rfl := by
  obtain ⟨a, db₁, ho, h₁⟩ := Transaction.bind_eq_ok.mp h
  obtain ⟨_, db₂, hs, h₂⟩ := Transaction.bind_eq_ok.mp h₁
  obtain ⟨_, db₃, ht, h₃⟩ := Transaction.bind_eq_ok.mp h₂
  obtain ⟨rfl, -⟩ := ownAccount_ok ho
  obtain ⟨-, rfl⟩ := Transaction.pure_eq_ok.mp h₃
  rw [AccountRepository.rewrite_ok ht, AccountRepository.rewrite_ok hs]

/-- Only the account itself is enabled now where it was not before. -/
theorem enable_ok {userId : UserId} {accountId : AccountId} {account : Account} {db db' : Database}
    (h : enable userId accountId db = .ok (account, db')) {id : AccountId} (enabled : db'.Enabled id) :
    id = accountId ∨ db.Enabled id := by
  rw [setFlags_ok h] at enabled
  obtain ⟨a, ha, hid, he⟩ := enabled.of_update fun _ => rfl
  obtain ⟨a', ha', rfl⟩ := Database.mem_updateAccount.mp ha
  split at hid
  · rename_i same
    exact .inl (hid.symm.trans same)
  · rename_i other
    rw [if_neg other] at he
    exact .inr ⟨a', ha', hid, he⟩

theorem disable_ok {userId : UserId} {accountId : AccountId} {account : Account} {db db' : Database}
    (h : disable userId accountId db = .ok (account, db')) {id : AccountId} (enabled : db'.Enabled id) :
      db.Enabled id := by
  rw [setFlags_ok h] at enabled
  obtain ⟨a, ha, hid, he⟩ := enabled.of_update fun _ => rfl
  obtain ⟨a', ha', rfl⟩ := Database.mem_updateAccount.mp ha
  split at he
  · cases he
  · rename_i other
    rw [if_neg other] at hid
    exact ⟨a', ha', hid, he⟩

end AccountService
end MailKeep
