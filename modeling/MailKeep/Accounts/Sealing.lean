import MailKeep.Accounts.Registry
import MailKeep.Core.Crypto
import MailKeep.Keyed.Mapped
import MailKeep.Program.Simulation

/-! The credentials in the account rows, and the transactions on a database that is encrypted under another key. -/
namespace MailKeep
open Program

inductive Credentials
  | password (password : String)
deriving DecidableEq

/-- `serde_json` on credentials. -/
structure CredentialsJson where
  toVec : Credentials → Bytes
  fromSlice : Bytes → Except String Credentials

def CredentialsJson.Lawful (json : CredentialsJson) : Prop := ∀ c, json.fromSlice (json.toVec c) = .ok c

def AccountService.encryptPassword (aead : Aead) (json : CredentialsJson) (nonce : Bytes) (accountId : AccountId)
    (password : String) : Bytes :=
  CipherService.encrypt aead nonce accountId (json.toVec (.password password))

def decryptPassword (aead : Aead) (json : CredentialsJson) : OpenCredentials := fun accountId ct => do
  let plaintext ← CipherService.decrypt aead accountId ct
  match json.fromSlice plaintext with
  | .ok (.password password) => return password
  | .error e => throw (.credentialsDeserialize e)

def nonceBytes (nonce : Nat) : Bytes := (List.range 12).map fun i => UInt8.ofNat (nonce / 256 ^ i)

def credentialCipher (aead : Aead) (json : CredentialsJson) : CredentialCipher where
  sealPassword nonce := AccountService.encryptPassword aead json (nonceBytes nonce)
  openCredentials := decryptPassword aead json

/-- The credentials are a password of the account, encrypted under this key. -/
def SealedUnder (aead : Aead) (json : CredentialsJson) (accountId : AccountId) (ct : Bytes) : Prop :=
  ∃ nonce password, nonce.length = 12 ∧ ct = AccountService.encryptPassword aead json nonce accountId password

section
variable {aead aead' : Aead} {json : CredentialsJson} {accountId : AccountId} {ct ct' : Bytes}

theorem sealed_sealPassword (nonce : Nat) (password : String) :
    SealedUnder aead json accountId ((credentialCipher aead json).sealPassword nonce accountId password) :=
  ⟨nonceBytes nonce, password, by simp [nonceBytes], rfl⟩

/-- Sealed credentials open under their key, and once reencrypted under the other key to the same password. -/
theorem SealedUnder.opens (h : SealedUnder aead json accountId ct) (lawful : aead.Lawful) (lawful' : aead'.Lawful)
    (read : json.Lawful) : ∃ password, decryptPassword aead json accountId ct = .ok password ∧
      decryptPassword aead' json accountId (CipherService.reencrypt aead aead' accountId ct) = .ok password := by
  obtain ⟨nonce, password, len, rfl⟩ := h
  have opened {a : Aead} (la : a.Lawful) : decryptPassword a json accountId
      (CipherService.encrypt a nonce accountId (json.toVec (.password password))) = .ok password := by
    unfold decryptPassword
    rw [CipherService.decrypt_encrypt la len]
    change (match json.fromSlice (json.toVec (.password password)) with
      | .ok (.password password) => _
      | .error e => _) = _
    rw [read]
    rfl
  refine ⟨password, opened lawful, ?_⟩
  unfold AccountService.encryptPassword
  rw [CipherService.reencrypt_encrypt lawful aead' len]
  exact opened lawful'

private theorem SealedUnder.reencrypt_inj (h : SealedUnder aead json accountId ct)
    (h' : SealedUnder aead json accountId ct')
    (lawful : aead.Lawful) (lawful' : aead'.Lawful)
    (same : CipherService.reencrypt aead aead' accountId ct = CipherService.reencrypt aead aead' accountId ct') :
    ct = ct' := by
  obtain ⟨nonce, password, len, rfl⟩ := h
  obtain ⟨nonce', password', len', rfl⟩ := h'
  unfold AccountService.encryptPassword at same ⊢
  rw [CipherService.reencrypt_encrypt lawful aead' len, CipherService.reencrypt_encrypt lawful aead' len'] at same
  obtain ⟨rfl, plaintexts⟩ := CipherService.encrypt_inj lawful' len len' same
  rw [plaintexts]

end

def Account.rekeyed (aead aead' : Aead) (a : Account) : Account :=
  { a with credentials := CipherService.reencrypt aead aead' a.id a.credentials }

theorem Account.rekeyed_id (aead aead' : Aead) (a : Account) : (a.rekeyed aead aead').id = a.id := rfl

def NewAccount.rekeyed (aead aead' : Aead) (new : NewAccount) : NewAccount :=
  { new with credentials := CipherService.reencrypt aead aead' new.token new.credentials }

def PartialAccountUpdate.rekeyed (aead aead' : Aead) (accountId : AccountId) (change : PartialAccountUpdate) :
    PartialAccountUpdate :=
  { change with credentials := change.credentials.map (CipherService.reencrypt aead aead' accountId) }

def Database.rekeyed (aead aead' : Aead) (db : Database) : Database :=
  { db with accounts := db.accounts.map (·.rekeyed aead aead') fun a => a.rekeyed_id aead aead' }

def Registry.rekeyed {ι : Type} (aead aead' : Aead) (s : Registry ι) : Registry ι :=
  s.putDb (s.host.db.rekeyed aead aead')

def Account.Sealed (aead : Aead) (json : CredentialsJson) (a : Account) : Prop :=
  SealedUnder aead json a.id a.credentials

def Database.Sealed (aead : Aead) (json : CredentialsJson) (db : Database) : Prop :=
  ∀ a ∈ db.accounts, a.Sealed aead json

/-- The two keys, both good, and the form of the credentials. -/
structure Rekeying where
  old : Aead
  new : Aead
  json : CredentialsJson
  oldLawful : old.Lawful
  newLawful : new.Lawful
  jsonLawful : json.Lawful

namespace Rekeying
variable (k : Rekeying)

structure Rows (a a' : Account) : Prop where
  is_sealed : a.Sealed k.old k.json
  eq : a' = a.rekeyed k.old k.new

structure RowLists (as as' : List Account) : Prop where
  is_sealed : ∀ a ∈ as, a.Sealed k.old k.json
  eq : as' = as.map (·.rekeyed k.old k.new)

structure Databases (db db' : Database) : Prop where
  is_sealed : db.Sealed k.old k.json
  eq : db' = db.rekeyed k.old k.new

def Transactions {α β : Type} (post : α → β → Prop) (x : Transaction α) (y : Transaction β) : Prop :=
  ∀ db db', k.Databases db db' → Likewise (fun r r' => post r.1 r'.1 ∧ k.Databases r.2 r'.2) (x db) (y db')

variable {k} {α β γ δ : Type} {post : α → β → Prop}

namespace Transactions

theorem pure {a : α} {b : β} (h : post a b) : k.Transactions post (pure a) (pure b) :=
  fun _ _ twin => .ok ⟨h, twin⟩

theorem throw (e : Error) : k.Transactions post (fun _ => .error e) (fun _ => .error e) := fun _ _ _ => .error e

theorem bind {post' : γ → δ → Prop} {x : Transaction α} {y : Transaction β} {f : α → Transaction γ}
    {g : β → Transaction δ} (h : k.Transactions post x y) (hf : ∀ a b, post a b → k.Transactions post' (f a) (g b)) :
    k.Transactions post' (x >>= f) (y >>= g) := by
  intro db db' twin
  change Likewise _ (x db >>= fun r => f r.1 r.2) (y db' >>= fun r => g r.1 r.2)
  have first := h db db' twin
  generalize x db = r at first ⊢
  generalize y db' = r' at first ⊢
  cases first with
  | ok related => exact hf _ _ related.1 _ _ related.2
  | error e => exact .error e

end Transactions

theorem find? {db db' : Database} (twin : k.Databases db db') (accountId : AccountId) :
    db'.accounts.find? accountId = (db.accounts.find? accountId).map (·.rekeyed k.old k.new) := by
  rw [twin.eq]
  exact Keyed.Table.find?_map db.accounts (fun a => a.rekeyed_id k.old k.new) accountId

private theorem rows_of_find? {db db' : Database} (twin : k.Databases db db') {accountId : AccountId} {a : Account}
    (found : db.accounts.find? accountId = some a) : k.Rows a (a.rekeyed k.old k.new) :=
  ⟨twin.is_sealed a (Keyed.Table.find?_eq_some.mp found).1, rfl⟩

/-- Whether two sealed rows of an account are the same shows under either key. -/
private theorem Rows.eq_iff {a a' b b' : Account} (ha : k.Rows a a') (hb : k.Rows b b') (own : a.id = b.id) :
    a' = b' ↔ a = b := by
  obtain ⟨sa, rfl⟩ := ha
  obtain ⟨sb, rfl⟩ := hb
  constructor
  · intro same
    have new : CipherService.reencrypt k.old k.new a.id a.credentials =
        CipherService.reencrypt k.old k.new b.id b.credentials := congrArg Account.credentials same
    have cts : a.credentials = b.credentials :=
      SealedUnder.reencrypt_inj (own ▸ sa) sb k.oldLawful k.newLawful (own ▸ new)
    obtain ⟨id, version, userId, displayName, email, server, username, ct, enabled, status, lastError, lastSynced⟩ := a
    obtain ⟨id', version', userId', displayName', email', server', username', ct', enabled', status', lastError',
      lastSynced'⟩ := b
    obtain rfl : ct = ct' := cts
    unfold Account.rekeyed at same
    simp only [Account.mk.injEq] at same ⊢
    simp [same]
  · intro same
    rw [same]

theorem listEnabled : k.Transactions k.RowLists AccountRepository.listEnabled AccountRepository.listEnabled := by
  intro db db' twin
  refine .ok ⟨⟨fun a ha => twin.is_sealed a (List.mem_filter.mp ha).1, ?_⟩, twin⟩
  rw [twin.eq]
  change (db.accounts.rows.map _).filter _ = (db.accounts.rows.filter _).map _
  rw [List.filter_map]
  rfl

theorem findByIdForUser (userId : UserId) (accountId : AccountId) :
    k.Transactions (Option.Rel fun a a' => k.Rows a a' ∧ a.id = accountId) (AccountRepository.findByIdForUser userId accountId)
      (AccountRepository.findByIdForUser userId accountId) := by
  intro db db' twin
  unfold AccountRepository.findByIdForUser
  split
  · exact .error _
  · refine .ok ⟨?_, twin⟩
    dsimp only
    rw [find? twin]
    cases found : db.accounts.find? accountId with
    | none => exact .none
    | some a =>
      change Option.Rel _ (Option.filter _ (some a)) (Option.filter _ (some (a.rekeyed k.old k.new)))
      have same : (a.rekeyed k.old k.new).userId = a.userId := rfl
      rw [Option.filter_some, Option.filter_some, same]
      split
      · exact .some ⟨rows_of_find? twin found, (Keyed.Table.find?_eq_some.mp found).2⟩
      · exact .none

theorem ownAccount (userId : UserId) (accountId : AccountId) :
    k.Transactions (fun a a' => k.Rows a a' ∧ a.id = accountId) (AccountService.ownAccount userId accountId)
      (AccountService.ownAccount userId accountId) := by
  refine (findByIdForUser userId accountId).bind fun a b rows => ?_
  cases rows with
  | none => exact .throw _
  | some rows => exact .pure rows

/-- An update of a row that does to the row under the new key what it does to the row. -/
theorem updateAccount {db db' : Database} (twin : k.Databases db db') {accountId : AccountId} {f f' : Account → Account}
    {hf : ∀ a, (f a).id = a.id} {hf' : ∀ a, (f' a).id = a.id}
    (rows : ∀ a ∈ db.accounts, a.id = accountId → k.Rows (f a) (f' (a.rekeyed k.old k.new))) :
    k.Databases (db.updateAccount accountId f hf) (db'.updateAccount accountId f' hf') := by
  constructor
  · intro a ha
    obtain ⟨b, hb, rfl⟩ := Database.mem_updateAccount.mp ha
    split
    · rename_i own
      exact (rows b hb own).is_sealed
    · exact twin.is_sealed b hb
  · rw [twin.eq]
    have accounts : (db.accounts.map (·.rekeyed k.old k.new) fun a => a.rekeyed_id k.old k.new).update
        (·.id = accountId) f' hf' = (db.accounts.update (·.id = accountId) f hf).map (·.rekeyed k.old k.new)
          fun a => a.rekeyed_id k.old k.new := by
      apply Keyed.Table.update_map
      · exact fun _ => rfl
      · exact fun a ha own => (rows a ha (of_decide_eq_true own)).eq
    exact congrArg (fun accounts => { db with accounts := accounts }) accounts

theorem rewrite {accountId : AccountId} {f : Account → Account} {hf : ∀ a, (f a).id = a.id}
    (rows : ∀ a a', k.Rows a a' → k.Rows (f a) (f a')) :
    k.Transactions Eq (AccountRepository.rewrite accountId f hf) (AccountRepository.rewrite accountId f hf) := by
  intro db db' twin
  unfold AccountRepository.rewrite
  split
  · exact .error _
  · rw [find? twin]
    cases db.accounts.find? accountId with
    | none => exact .error _
    | some a => exact .ok ⟨rfl, updateAccount twin fun a ha _ => rows a _ ⟨twin.is_sealed a ha, rfl⟩⟩

theorem setEnabled (accountId : AccountId) (enabled : Bool) :
    k.Transactions Eq (AccountRepository.setEnabled accountId enabled) (AccountRepository.setEnabled accountId enabled) :=
  rewrite fun _ _ rows => ⟨rows.is_sealed, rows.eq ▸ rfl⟩

theorem setStatus (accountId : AccountId) (status : AccountStatus) (lastError : Option String) :
    k.Transactions Eq (AccountRepository.setStatus accountId status lastError)
      (AccountRepository.setStatus accountId status lastError) :=
  rewrite fun _ _ rows => ⟨rows.is_sealed, rows.eq ▸ rfl⟩

theorem setFlags (userId : UserId) (accountId : AccountId) (enabled : Bool) (status : AccountStatus) :
    let flags : Transaction Account := do
      let account ← AccountService.ownAccount userId accountId
      AccountRepository.setEnabled accountId enabled
      AccountRepository.setStatus accountId status none
      return account
    k.Transactions k.Rows flags flags :=
  (ownAccount userId accountId).bind fun _ _ rows =>
    (setEnabled accountId enabled).bind fun _ _ _ =>
      (setStatus accountId status none).bind fun _ _ _ => .pure rows.1

theorem listEnabledForAccount (accountId : AccountId) :
    k.Transactions Eq (FolderRepository.listEnabledForAccount accountId)
      (FolderRepository.listEnabledForAccount accountId) := by
  intro db db' twin
  unfold FolderRepository.listEnabledForAccount
  split
  · exact .error _
  · refine .ok ⟨?_, twin⟩
    rw [twin.eq]
    rfl

theorem insert (users : Users) {new : NewAccount} (h : SealedUnder k.old k.json new.token new.credentials) :
    k.Transactions k.Rows (AccountRepository.insert users new)
      (AccountRepository.insert users (new.rekeyed k.old k.new)) := by
  intro db db' twin
  unfold AccountRepository.insert
  have user : (new.rekeyed k.old k.new).userId = new.userId := rfl
  have row : (new.rekeyed k.old k.new).row = new.row.rekeyed k.old k.new := rfl
  have inserted : db'.accounts.insert (new.row.rekeyed k.old k.new) =
      (db.accounts.insert new.row).map (·.map (·.rekeyed k.old k.new) fun a => a.rekeyed_id k.old k.new) := by
    rw [twin.eq]
    exact Keyed.Table.insert_map db.accounts new.row
  rw [user, row, inserted]
  split
  · exact .error _
  · cases fresh : db.accounts.insert new.row with
    | none => exact .error _
    | some accounts =>
      refine .ok ⟨⟨h, rfl⟩, ⟨fun a ha => ?_, twin.eq ▸ rfl⟩⟩
      rcases (Keyed.Table.mem_of_insert fresh).mp ha with old | rfl
      · exact twin.is_sealed a old
      · exact h

theorem create (row : Folder) : k.Transactions Eq (FolderRepository.create row) (FolderRepository.create row) := by
  intro db db' twin
  have account : (db'.accounts.find? row.accountId).isNone = (db.accounts.find? row.accountId).isNone := by
    rw [find? twin, Option.isNone_map]
  have folders : db'.folders = db.folders := by
    rw [twin.eq]
    rfl
  unfold FolderRepository.create
  rw [account, folders]
  split
  · exact .error _
  · split
    · exact .error _
    · cases db.folders.insert row with
      | none => exact .error _
      | some folders => exact .ok ⟨rfl, ⟨twin.is_sealed, twin.eq ▸ rfl⟩⟩

theorem createRows (accountId : AccountId) (rows : List NewFolderRow) :
    k.Transactions Eq (FolderRepository.createRows accountId rows) (FolderRepository.createRows accountId rows) := by
  induction rows with
  | nil => exact .pure rfl
  | cons new rest ih =>
    unfold FolderRepository.createRows
    split
    · exact .throw _
    · refine (create (new.row accountId)).bind fun saved _ same => ?_
      subst same
      refine ih.bind fun inserted _ same => ?_
      subst same
      exact .pure rfl

theorem createMany (accountId : AccountId) (rows : List NewFolderRow) :
    k.Transactions Eq (FolderRepository.createMany accountId rows) (FolderRepository.createMany accountId rows) := by
  unfold FolderRepository.createMany
  split
  · exact .throw _
  · exact createRows accountId rows

/-- A row changes under the one key if and only if it does under the other. -/
theorem updated {account account' existing existing' : Account} (h : k.Rows account account')
    (old : k.Rows existing existing') (own : account.id = existing.id) :
    k.Rows (account.updated existing) (account'.updated existing') := by
  let changed (a e : Account) : Account :=
    { a with id := e.id, version := e.version, userId := e.userId, lastSyncedAt := e.lastSyncedAt }
  have rows : k.Rows (changed account existing) (changed account' existing') := by
    obtain ⟨sealed_, rfl⟩ := h
    obtain ⟨-, rfl⟩ := old
    refine ⟨?_, ?_⟩
    · change SealedUnder k.old k.json existing.id account.credentials
      exact own ▸ sealed_
    · unfold Account.rekeyed
      dsimp only [changed]
      rw [own]
  have iff := rows.eq_iff old rfl
  change k.Rows (if changed account existing = existing then existing else
      { changed account existing with version := existing.version + 1 })
    (if changed account' existing' = existing' then existing' else
      { changed account' existing' with version := existing'.version + 1 })
  by_cases same : changed account existing = existing
  · rw [if_pos same, if_pos (iff.mpr same)]
    exact old
  · rw [if_neg same, if_neg fun h => same (iff.mp h)]
    refine ⟨rows.is_sealed, ?_⟩
    rw [rows.eq, old.eq]
    rfl

theorem update {account account' : Account} (h : k.Rows account account') :
    k.Transactions k.Rows (AccountRepository.update account) (AccountRepository.update account') := by
  intro db db' twin
  have id : account'.id = account.id := by rw [h.eq]; rfl
  have version : account'.version = account.version := by rw [h.eq]; rfl
  unfold AccountRepository.update
  rw [id, version, find? twin]
  split
  · exact .error _
  · cases found : db.accounts.find? account.id with
    | none => exact .error _
    | some existing =>
      have rows := rows_of_find? twin found
      have own := (Keyed.Table.find?_eq_some.mp found).2
      have versions : (existing.rekeyed k.old k.new).version = existing.version := rfl
      dsimp only [Option.map_some]
      rw [versions]
      split
      · exact .error _
      · exact .ok ⟨updated h rows own.symm, updateAccount twin fun a ha same =>
          updated h ⟨twin.is_sealed a ha, rfl⟩ same.symm⟩

def Change (k : Rekeying) (accountId : AccountId) (change change' : PartialAccountUpdate) : Prop :=
  (∀ ct ∈ change.credentials, SealedUnder k.old k.json accountId ct) ∧
    change' = change.rekeyed k.old k.new accountId

theorem applyTo {existing existing' : Account} (rows : k.Rows existing existing')
    {change change' : PartialAccountUpdate} (h : k.Change existing.id change change') :
    k.Rows (change.applyTo existing) (change'.applyTo existing') := by
  obtain ⟨sealed_, rfl⟩ := h
  obtain ⟨old, rfl⟩ := rows
  obtain ⟨name, ct, server, username⟩ := change
  cases ct with
  | none => exact ⟨old, rfl⟩
  | some ct => exact ⟨sealed_ ct rfl, rfl⟩

theorem updateByVersion (userId : UserId) (accountId : AccountId) (expectedVersion : Nat)
    {change change' : PartialAccountUpdate} (h : k.Change accountId change change') :
    k.Transactions k.Rows (AccountService.updateAccount userId accountId expectedVersion change)
      (AccountService.updateAccount userId accountId expectedVersion change') := by
  refine (ownAccount userId accountId).bind fun existing existing' own => ?_
  obtain ⟨rows, rfl⟩ := own
  have version : existing'.version = existing.version := by rw [rows.eq]; rfl
  rw [version]
  split
  · exact .throw _
  · exact update (applyTo rows h)

theorem deleteAccounts {db db' : Database} (twin : k.Databases db db') (gone : AccountId → Bool) :
    k.Databases (db.deleteAccounts gone) (db'.deleteAccounts gone) := by
  refine ⟨fun a ha => twin.is_sealed a (Keyed.Table.mem_filter.mp ha).1, ?_⟩
  rw [twin.eq]
  have accounts : (db.accounts.map (·.rekeyed k.old k.new) fun a => a.rekeyed_id k.old k.new).filter (!gone ·.id) =
      (db.accounts.filter (!gone ·.id)).map (·.rekeyed k.old k.new) fun a => a.rekeyed_id k.old k.new :=
    Keyed.Table.filter_map fun _ => rfl
  exact congrArg (fun accounts => { db.deleteAccounts gone with accounts := accounts }) accounts

theorem delete {account account' : Account} (h : k.Rows account account') :
    k.Transactions k.Rows (AccountRepository.delete account) (AccountRepository.delete account') := by
  intro db db' twin
  have id : account'.id = account.id := by rw [h.eq]; rfl
  have version : account'.version = account.version := by rw [h.eq]; rfl
  unfold AccountRepository.delete
  rw [id, version, find? twin]
  split
  · exact .error _
  · cases found : db.accounts.find? account.id with
    | none => exact .error _
    | some existing =>
      have versions : (existing.rekeyed k.old k.new).version = existing.version := rfl
      dsimp only [Option.map_some]
      rw [versions]
      split
      · exact .error _
      · exact .ok ⟨rows_of_find? twin found, deleteAccounts twin (· = account.id)⟩

theorem deleteAccount (userId : UserId) (accountId : AccountId) :
    k.Transactions k.Rows (AccountService.deleteAccount userId accountId)
      (AccountService.deleteAccount userId accountId) :=
  (ownAccount userId accountId).bind fun _ _ rows => delete rows.1

end Rekeying
end MailKeep
