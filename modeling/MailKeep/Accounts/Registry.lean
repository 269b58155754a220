import MailKeep.Accounts.Sync
import MailKeep.Database.AccountRows
import MailKeep.Users.Lookups

/-! The accounts and their owners, as the requests of users and the sync host work on both. -/
namespace MailKeep
open Program

/-- Seals the envelope of a password under a nonce, and opens it again. -/
structure CredentialCipher where
  sealPassword : (nonce : Nat) → AccountId → String → Bytes
  openCredentials : OpenCredentials

inductive RegistryTxn
  | insert (new : NewAccount)
  | createFolders (accountId : AccountId) (folders : List NewFolderRow)
  | update (userId : UserId) (accountId : AccountId) (expectedVersion : Nat) (change : PartialAccountUpdate)
  | delete (userId : UserId) (accountId : AccountId)

abbrev RegistryTxn.Result : RegistryTxn → Type
  | insert _ | update _ _ _ _ | delete _ _ => Account
  | createFolders _ _ => List Folder

def RegistryTxn.body (users : Users) : (t : RegistryTxn) → Transaction t.Result
  | insert new => AccountRepository.insert users new
  | createFolders accountId folders => FolderRepository.createMany accountId folders
  | update userId accountId expectedVersion change => AccountService.updateAccount userId accountId expectedVersion change
  | delete userId accountId => AccountService.deleteAccount userId accountId

/-- `read` is a history: the row each thread's last look-up of a user by id has found. -/
structure Registry (ι : Type) where
  host : SyncHost ι
  server : Server
  read : ι → Option User

inductive RegistryOp (ι : Type)
  | sync (o : SyncOp ι)
  | account (t : RegistryTxn)
  | user (me : ι) (o : UserOp)
  | sealPassword (accountId : AccountId) (password : String)
  | accountToken
  | folderTokens (n : Nat)

abbrev RegistryOp.Value : RegistryOp ι → Type
  | sync o => o.Value
  | account t => Except Error t.Result
  | user _ o => o.Value
  | sealPassword _ _ => Bytes
  | accountToken => AccountId
  | folderTokens _ => Nat → FolderId

abbrev RegistryOp.Choice : RegistryOp ι → Type
  | sync o => o.Choice
  | account _ => Option DbErr
  | user _ o => o.Choice
  | sealPassword _ _ => Nat
  | accountToken => AccountId
  | folderTokens _ => Nat → FolderId

namespace Registry
variable {ι : Type}

abbrev accounts (s : Registry ι) : Keyed.Table Account.id := s.host.db.accounts

abbrev users (s : Registry ι) : Users := s.server.users

def putDb (s : Registry ι) (db : Database) : Registry ι := { s with host := { s.host with db := db } }

def transact (s : Registry ι) (t : RegistryTxn) : Option DbErr → Except Error t.Result × Registry ι
  | some e => (.error (.repositoryError (handleDberr e)), s)
  | none =>
    match t.body s.users s.host.db with
    | .error e => (.error e, s)
    | .ok (r, db) => (.ok r, s.putDb db)

/-- The rows of the accounts of a user who is gone go with the user. -/
def cascade (s : Registry ι) : (o : UserOp) → o.Value → Database
  | .transact (.deleteUser id), .ok _ => s.host.db.deleteAccounts fun a => (s.accounts.find? a).any (·.userId = id)
  | _, _ => s.host.db

variable [DecidableEq ι]

def serve (platform : Platform) (cases : Unicode.CaseData) (s : Registry ι) (me : ι) (o : UserOp) (c : o.Choice) :
    o.Value × Registry ι :=
  let (reply, server) := (userStore platform cases).exec o c s.server
  (reply, { s.putDb (s.cascade o reply) with
    server := server, read := Function.update s.read me (foundAfter (s.read me) o reply) })

end Registry

abbrev registrySignature (ι : Type) : Signature := ⟨RegistryOp ι, RegistryOp.Value⟩

abbrev registry (ι : Type) [DecidableEq ι] (platform : Platform) (cases : Unicode.CaseData)
    (cipher : CredentialCipher) :
    Machine where
  toSignature := registrySignature ι
  State := Registry ι
  Choice := RegistryOp.Choice
  exec
    | .sync o, c, s => (((syncHost ι).exec o c s.host).1, { s with host := ((syncHost ι).exec o c s.host).2 })
    | .account t, c, s => s.transact t c
    | .user me o, c, s => s.serve platform cases me o c
    | .sealPassword accountId password, nonce, s => (cipher.sealPassword nonce accountId password, s)
    | .accountToken, id, s => (id, s)
    | .folderTokens _, ids, s => (ids, s)

abbrev RegistryAction (ι ε α : Type) := Action (registrySignature ι) ε α

def syncPart (ι : Type) : Embedding (syncSignature ι) (registrySignature ι) := ⟨.sync, fun _ r => r⟩

def userPart (me : ι) : Embedding userSignature (registrySignature ι) := ⟨.user me, fun _ r => r⟩

section
variable {ι : Type}

def registryTransact (t : RegistryTxn) : RegistryAction ι Error t.Result := .mk (.call (RegistryOp.account t) .ret)

def encryptCredentials (accountId : AccountId) (password : String) : RegistryAction ι Error Bytes :=
  .mk (.call (RegistryOp.sealPassword accountId password) fun sealed => .ret (.ok sealed))

structure PartialAccountInput where
  displayName : Option String
  password : Option String
  server : Option ImapServerConfig
  username : Option String

def validateUpdate (input : PartialAccountInput) : Except Error Unit := do
  if input.displayName.any isBlank then throw (.validation "display_name must be non-empty")
  if input.server.any fun s => isBlank s.host then throw (.validation "server.host must be non-empty")
  if input.server.any fun s => s.port = 0 then throw (.validation "server.port must be > 0")
  if input.username.any isBlank then throw (.validation "username must be non-empty")
  if input.password.any String.isEmpty then throw (.validation "password must be non-empty")

def encryptNew (accountId : AccountId) : Option String → RegistryAction ι Error (Option Bytes)
  | none => pure none
  | some password => do return some (← encryptCredentials accountId password)

def updateAccount (userId : UserId) (accountId : AccountId) (expectedVersion : Nat) (input : PartialAccountInput) :
    RegistryAction ι Error Account := do
  liftResult (validateUpdate input)
  let credentials ← encryptNew accountId input.password
  registryTransact (.update userId accountId expectedVersion ⟨input.displayName, credentials, input.server, input.username⟩)

/-- The calls of the account and sync services that write account rows, as far as the rows are concerned. -/
inductive AccountCall
  | enable (userId : UserId) (accountId : AccountId)
  | disable (userId : UserId) (accountId : AccountId)
  | startAccount (accountId : AccountId)
  | stopAccount (accountId : AccountId)
  | updateAccount (userId : UserId) (accountId : AccountId) (expectedVersion : Nat) (input : PartialAccountInput)
  | deleteAccount (userId : UserId) (accountId : AccountId)
  | reconcileStatuses

def unitOf {α : Type} (x : RegistryAction ι Error α) : RegistryAction ι Error Unit := do
  let _ ← x
  return ()

def AccountCall.handle (cipher : CredentialCipher) (me : ι) : AccountCall → RegistryAction ι Error Unit
  | enable userId accountId => unitOf ((syncPart ι).act (tryTransact me (.enable userId accountId)))
  | disable userId accountId => unitOf ((syncPart ι).act (tryTransact me (.disable userId accountId)))
  | startAccount accountId => (syncPart ι).act (MailKeep.startAccount me cipher.openCredentials accountId)
  | stopAccount accountId => (syncPart ι).act (MailKeep.stopAccount accountId)
  | updateAccount userId accountId expectedVersion input =>
    unitOf (MailKeep.updateAccount userId accountId expectedVersion input)
  | deleteAccount userId accountId => unitOf (registryTransact (.delete userId accountId))
  | reconcileStatuses => (syncPart ι).act (MailKeep.reconcileStatuses me)

inductive RegistryEnd
  | called (r : Except Error Unit)
  | answered (r : Except ServerFnError Reply)

def AccountCall.prog (cipher : CredentialCipher) (me : ι) (call : AccountCall) :
    Prog (registrySignature ι) RegistryEnd :=
  (call.handle cipher me).run >>= fun r => .ret (.called r)

end
end MailKeep
