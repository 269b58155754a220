import MailKeep.Database.Accounts
import MailKeep.Database.Recording
import MailKeep.Users.Requests

/-! New accounts with their folders, and the versioned update of an account. -/
namespace MailKeep

structure NewAccount where
  userId : UserId
  displayName : String
  emailAddress : EmailAddress
  server : ImapServerConfig
  username : String
  credentials : Bytes
  token : AccountId
deriving DecidableEq

structure PartialAccountUpdate where
  displayName : Option String
  credentials : Option Bytes
  server : Option ImapServerConfig
  username : Option String
deriving DecidableEq

structure NewFolderRow where
  token : FolderId
  accountId : AccountId
  path : String
  displayName : Option String
  specialUse : Option SpecialUse
  idleEnabled : Bool
  uidvalidity : Option U32
deriving DecidableEq

def PartialAccountUpdate.applyTo (update : PartialAccountUpdate) (account : Account) : Account :=
  { account with
    displayName := update.displayName.getD account.displayName
    credentials := update.credentials.getD account.credentials
    server := update.server.getD account.server
    username := update.username.getD account.username }

/-- The row after an update: a row that changes gets a new version. -/
def Account.updated (account existing : Account) : Account :=
  let changed := { account with id := existing.id, version := existing.version, userId := existing.userId, lastSyncedAt := existing.lastSyncedAt }
  if changed = existing then existing else { changed with version := existing.version + 1 }

theorem Account.updated_id (account existing : Account) : (account.updated existing).id = existing.id := by
  unfold updated
  dsimp only
  split <;> rfl

/-- An update leaves the row as it was or gives it a higher version. -/
theorem Account.updated_version (account existing : Account) :
    account.updated existing = existing ∨ existing.version < (account.updated existing).version := by
  unfold updated
  dsimp only
  split
  · exact .inl rfl
  · exact .inr (Nat.lt_succ_self _)

theorem Account.updated_flags (account existing : Account) :
    (account.updated existing).enabled = account.enabled ∧ (account.updated existing).status = account.status := by
  unfold updated
  dsimp only
  split
  · rename_i same
    rw [← same]
    exact ⟨rfl, rfl⟩
  · exact ⟨rfl, rfl⟩

def NewAccount.row (new : NewAccount) : Account where
  id := new.token
  version := 1
  userId := new.userId
  displayName := new.displayName
  emailAddress := new.emailAddress.text
  server := new.server
  username := new.username
  credentials := new.credentials
  enabled := true
  status := .pendingFirstSync
  lastError := none
  lastSyncedAt := none

def NewFolderRow.row (new : NewFolderRow) (accountId : AccountId) : Folder where
  id := new.token
  version := 1
  accountId := accountId
  path := new.path
  displayName := new.displayName
  specialUse := new.specialUse
  enabled := true
  idleEnabled := new.idleEnabled
  uidvalidity := new.uidvalidity
  lastUid := 0
  lastSyncedAt := none
  lastError := none

namespace AccountRepository

/-- The foreign key is to the users table. -/
def insert (users : Users) (new : NewAccount) : Transaction Account := fun db =>
  if (users.find? new.userId).isNone then .error (constraintError "Foreign key violation: FOREIGN KEY constraint failed")
  else match db.accounts.insert new.row with
  | none => .error (constraintError "UNIQUE constraint failed: accounts.id")
  | some accounts => .ok (new.row, { db with accounts := accounts })

def update (account : Account) : Transaction Account := fun db =>
  if account.id = 0 then .error (.invalidId account.id)
  else match db.accounts.find? account.id with
  | none => .error (.repositoryError .notFound)
  | some existing =>
    if existing.version ≠ account.version then .error (.repositoryError .conflict)
    else .ok (account.updated existing, db.updateAccount account.id account.updated account.updated_id)

/-- An account goes in if and only if its user is there and its id is fresh. -/
theorem insert_iff (users : Users) (new : NewAccount) (db : Database) :
    (∃ saved db', insert users new db = .ok (saved, db')) ↔
      (∃ u ∈ users, u.id = new.userId) ∧ ∀ a ∈ db.accounts, a.id ≠ new.token := by
  constructor
  · rintro ⟨saved, db', h⟩
    unfold insert at h
    split at h
    · cases h
    · rename_i found
      split at h
      · cases h
      · rename_i accounts inserted
        obtain ⟨u, hu⟩ := Option.ne_none_iff_exists'.mp (by simpa using found)
        exact ⟨⟨u, Keyed.Table.find?_eq_some.mp hu⟩, (Keyed.Table.insert_eq_some inserted).1⟩
  · rintro ⟨⟨u, hu, own⟩, fresh⟩
    obtain ⟨accounts, inserted⟩ := Keyed.Table.insert_isSome (r := new.row) fresh
    have found : (users.find? new.userId).isNone = false := own ▸ Keyed.Table.find?_isNone hu
    exact ⟨new.row, { db with accounts := accounts }, by simp [insert, found, inserted]⟩

theorem insert_ok {users : Users} {new : NewAccount} {saved : Account} {db db' : Database}
    (h : insert users new db = .ok (saved, db')) :
    saved = new.row ∧ db'.folders = db.folders ∧ ∀ a, a ∈ db'.accounts ↔ a ∈ db.accounts ∨ a = new.row := by
  unfold insert at h
  split at h
  · cases h
  · split at h
    · cases h
    · rename_i accounts inserted
      cases h
      exact ⟨rfl, rfl, fun a => Keyed.Table.mem_of_insert inserted⟩

end AccountRepository

namespace FolderRepository

/-- The unique index on account and path, the foreign key on the account and the primary key. -/
def create (row : Folder) : Transaction Folder := fun db =>
  if db.folders.rows.any (fun f => f.accountId = row.accountId && f.path = row.path) then
    .error (constraintError "UNIQUE constraint failed: folders.account_id, folders.path")
  else if (db.accounts.find? row.accountId).isNone then
    .error (constraintError "Foreign key violation: FOREIGN KEY constraint failed")
  else match db.folders.insert row with
  | none => .error (constraintError "UNIQUE constraint failed: folders.id")
  | some folders => .ok (row, { db with folders := folders })

def createRows (accountId : AccountId) : List NewFolderRow → Transaction (List Folder)
  | [] => pure []
  | new :: rest => do
    if new.accountId ≠ accountId then
      throw (.validation "NewFolderRow.account_id must match the create_many account_id")
    let saved ← create (new.row accountId)
    let inserted ← createRows accountId rest
    return saved :: inserted

def createMany (accountId : AccountId) (folders : List NewFolderRow) : Transaction (List Folder) :=
  if accountId = 0 then fun _ => .error (.invalidId accountId) else createRows accountId folders

theorem create_ok {row saved : Folder} {db db' : Database} (h : create row db = .ok (saved, db')) :
    (∀ f ∈ db.folders, f.accountId = row.accountId → f.path ≠ row.path) ∧ (∀ f ∈ db.folders, f.id ≠ row.id) ∧
      db'.accounts = db.accounts ∧ ∀ f, f ∈ db'.folders ↔ f ∈ db.folders ∨ f = row := by
  unfold create at h
  split at h
  · cases h
  · rename_i path
    split at h
    · cases h
    · split at h
      · cases h
      · rename_i folders inserted
        cases h
        exact ⟨by simpa [Keyed.Table.mem_def] using path, (Keyed.Table.insert_eq_some inserted).1, rfl,
          fun f => Keyed.Table.mem_of_insert inserted⟩

private theorem create_succeeds (row : Folder) {db : Database} {account : Account} (there : account ∈ db.accounts)
    (own : account.id = row.accountId) (path : ∀ f ∈ db.folders, f.accountId = row.accountId → f.path ≠ row.path)
    (fresh : ∀ f ∈ db.folders, f.id ≠ row.id) : ∃ db', create row db = .ok (row, db') := by
  obtain ⟨folders, inserted⟩ := Keyed.Table.insert_isSome fresh
  have free : db.folders.rows.any (fun f => f.accountId = row.accountId && f.path = row.path) = false := by
    simpa [Keyed.Table.mem_def] using path
  have found : (db.accounts.find? row.accountId).isNone = false := own ▸ Keyed.Table.find?_isNone there
  exact ⟨{ db with folders := folders }, by simp [create, free, found, inserted]⟩

/-- The rows clash neither with each other nor with the folders that are there. -/
structure Insertable (accountId : AccountId) (rows : List NewFolderRow) (db : Database) : Prop where
  paths : (rows.map NewFolderRow.path).Nodup
  tokens : (rows.map NewFolderRow.token).Nodup
  freshPaths : ∀ f ∈ db.folders, f.accountId = accountId → f.path ∉ rows.map NewFolderRow.path
  freshTokens : ∀ f ∈ db.folders, f.id ∉ rows.map NewFolderRow.token

theorem Insertable.of_folders {accountId : AccountId} {rows : List NewFolderRow} {db db' : Database}
    (h : Insertable accountId rows db) (same : db'.folders = db.folders) : Insertable accountId rows db' :=
  ⟨h.paths, h.tokens, same ▸ h.freshPaths, same ▸ h.freshTokens⟩

private theorem insertable_cons {accountId : AccountId} {new : NewFolderRow} {rest : List NewFolderRow}
    {db db' : Database}
    (after : ∀ f, f ∈ db'.folders ↔ f ∈ db.folders ∨ f = new.row accountId) :
    Insertable accountId (new :: rest) db ↔ Insertable accountId rest db' ∧
      (∀ f ∈ db.folders, f.accountId = accountId → f.path ≠ new.path) ∧ ∀ f ∈ db.folders, f.id ≠ new.token := by
  constructor
  · rintro ⟨paths, tokens, freshPaths, freshTokens⟩
    obtain ⟨path, paths⟩ := List.nodup_cons.mp paths
    obtain ⟨token, tokens⟩ := List.nodup_cons.mp tokens
    refine ⟨⟨paths, tokens, fun f hf own => ?_, fun f hf => ?_⟩, fun f hf own same => ?_, fun f hf same => ?_⟩
    · rcases (after f).mp hf with hf | rfl
      · exact fun clash => freshPaths f hf own (List.mem_cons_of_mem _ clash)
      · exact path
    · rcases (after f).mp hf with hf | rfl
      · exact fun clash => freshTokens f hf (List.mem_cons_of_mem _ clash)
      · exact token
    · exact freshPaths f hf own (same ▸ List.mem_cons_self)
    · exact freshTokens f hf (same ▸ List.mem_cons_self)
  · rintro ⟨⟨paths, tokens, freshPaths, freshTokens⟩, path, token⟩
    have new_there : new.row accountId ∈ db'.folders := (after _).mpr (.inr rfl)
    refine ⟨List.nodup_cons.mpr ⟨freshPaths _ new_there rfl, paths⟩, List.nodup_cons.mpr ⟨freshTokens _ new_there, tokens⟩,
      fun f hf own clash => ?_, fun f hf clash => ?_⟩
    · rcases List.mem_cons.mp clash with same | clash
      · exact path f hf own same
      · exact freshPaths f ((after f).mpr (.inl hf)) own clash
    · rcases List.mem_cons.mp clash with same | clash
      · exact token f hf same
      · exact freshTokens f ((after f).mpr (.inl hf)) clash

theorem createRows_accounts {accountId : AccountId} {rows : List NewFolderRow}
    {saved : List Folder} {db db' : Database}
    (h : createRows accountId rows db = .ok (saved, db')) : db'.accounts = db.accounts := by
  induction rows generalizing saved db with
  | nil =>
    obtain ⟨-, rfl⟩ := Transaction.pure_eq_ok.mp h
    rfl
  | cons new rest ih =>
    unfold createRows at h
    split at h
    · cases h
    · obtain ⟨_, db₁, first, h⟩ := Transaction.bind_eq_ok.mp h
      obtain ⟨_, db₂, others, h⟩ := Transaction.bind_eq_ok.mp h
      obtain ⟨-, rfl⟩ := Transaction.pure_eq_ok.mp h
      exact (ih others).trans (create_ok first).2.2.1

/-- Rows of an account that is there go in together if and only if none clashes. -/
theorem createRows_iff {accountId : AccountId} {rows : List NewFolderRow} {db : Database} {account : Account}
    (there : account ∈ db.accounts) (own : account.id = accountId)
    (rows_own : ∀ new ∈ rows, new.accountId = accountId) :
    (∃ saved db', createRows accountId rows db = .ok (saved, db')) ↔ Insertable accountId rows db := by
  induction rows generalizing db with
  | nil =>
    exact ⟨fun _ => ⟨List.nodup_nil, List.nodup_nil, fun _ _ _ => List.not_mem_nil, fun _ _ => List.not_mem_nil⟩,
      fun _ => ⟨[], db, rfl⟩⟩
  | cons new rest ih =>
    have rest_own : ∀ new ∈ rest, new.accountId = accountId := fun n hn => rows_own n (List.mem_cons_of_mem _ hn)
    have unfolded : createRows accountId (new :: rest) db = (do
        let saved ← create (new.row accountId)
        let inserted ← createRows accountId rest
        return saved :: inserted : Transaction (List Folder)) db := by
      rw [createRows, if_neg (not_not.mpr (rows_own new List.mem_cons_self))]
    rw [unfolded]
    constructor
    · rintro ⟨saved, db', h⟩
      obtain ⟨_, db₁, first, h⟩ := Transaction.bind_eq_ok.mp h
      obtain ⟨others, db₂, second, -⟩ := Transaction.bind_eq_ok.mp h
      obtain ⟨path, token, accounts, folders⟩ := create_ok first
      exact (insertable_cons folders).mpr ⟨(ih (accounts ▸ there) rest_own).mp ⟨others, db₂, second⟩, path, token⟩
    · intro h
      obtain ⟨db₁, first⟩ := create_succeeds (new.row accountId) there own
        (fun f hf same clash => h.freshPaths f hf same (List.mem_cons.mpr (.inl clash)))
        (fun f hf clash => h.freshTokens f hf (List.mem_cons.mpr (.inl clash)))
      obtain ⟨-, -, accounts, folders⟩ := create_ok first
      obtain ⟨others, db₂, second⟩ := (ih (accounts ▸ there) rest_own).mpr ((insertable_cons folders).mp h).1
      exact ⟨_, db₂, Transaction.bind_eq_ok.mpr ⟨_, db₁, first, Transaction.bind_eq_ok.mpr ⟨others, db₂, second, rfl⟩⟩⟩

end FolderRepository

namespace AccountService

def updateAccount (userId : UserId) (accountId : AccountId) (expectedVersion : Nat)
    (update : PartialAccountUpdate) :
    Transaction Account := do
  let existing ← ownAccount userId accountId
  if existing.version ≠ expectedVersion then throw (.repositoryError .conflict)
  else AccountRepository.update (update.applyTo existing)

/-- An update that goes through rewrites the user's own row, which has the version the caller named. -/
theorem updateAccount_ok {userId : UserId} {accountId : AccountId} {expectedVersion : Nat}
    {update : PartialAccountUpdate}
    {account : Account} {db db' : Database}
    (h : updateAccount userId accountId expectedVersion update db = .ok (account, db')) :
    ∃ existing ∈ db.accounts, existing.id = accountId ∧ existing.userId = userId ∧
      existing.version = expectedVersion ∧
      account = (update.applyTo existing).updated existing ∧
      db' = db.updateAccount accountId (update.applyTo existing).updated (update.applyTo existing).updated_id := by
  obtain ⟨existing, mid, ho, hu⟩ := Transaction.bind_eq_ok.mp h
  obtain ⟨rfl, hm, rfl, own⟩ := ownAccount_ok ho
  split at hu
  · cases hu
  · rename_i version
    refine ⟨existing, hm, rfl, own, not_not.mp version, ?_⟩
    have found : mid.accounts.find? existing.id = some existing := Keyed.Table.find?_eq_some.mpr ⟨hm, rfl⟩
    have same : (update.applyTo existing).id = existing.id := rfl
    unfold AccountRepository.update at hu
    rw [same, found] at hu
    split at hu
    · cases hu
    · dsimp only at hu
      split at hu
      · cases hu
      · cases hu
        exact ⟨rfl, rfl⟩

private theorem ownAccount_own {userId : UserId} {accountId : AccountId} {account : Account} {db : Database}
    (hm : account ∈ db.accounts) (hid : account.id = accountId) (own : account.userId = userId)
    (valid : accountId ≠ 0) :
    ownAccount userId accountId db = .ok (account, db) := by
  have found : db.accounts.find? accountId = some account := Keyed.Table.find?_eq_some.mpr ⟨hm, hid⟩
  have read : AccountRepository.findByIdForUser userId accountId db = .ok (some account, db) := by
    simp [AccountRepository.findByIdForUser, valid, found, own]
  exact Transaction.bind_eq_ok.mpr ⟨some account, db, read, rfl⟩

/-- A stale version is a conflict. -/
theorem updateAccount_stale {userId : UserId} {accountId : AccountId} {expectedVersion : Nat}
    {update : PartialAccountUpdate} {account : Account} {db : Database} (hm : account ∈ db.accounts)
    (hid : account.id = accountId) (own : account.userId = userId) (valid : accountId ≠ 0)
    (stale : account.version ≠ expectedVersion) :
    updateAccount userId accountId expectedVersion update db = .error (.repositoryError .conflict) := by
  change (ownAccount userId accountId db >>= fun r => _) = _
  rw [ownAccount_own hm hid own valid]
  exact congrFun (if_pos stale) db

end AccountService
end MailKeep
