import MailKeep.Accounts.Creation
import MailKeep.Accounts.Installation
import MailKeep.Frontend.EventStream

/-! Account changes as they are announced, and the account lists of the pages that listen. -/
namespace MailKeep
open Program Channel

inductive AccountWrite
  | insert (new : NewAccount)
  | update (userId : UserId) (accountId : AccountId) (expectedVersion : Nat) (change : PartialAccountUpdate)
  | enable (userId : UserId) (accountId : AccountId)
  | disable (userId : UserId) (accountId : AccountId)
  | setStatus (accountId : AccountId) (status : AccountStatus) (lastError : Option String)
  | delete (userId : UserId) (accountId : AccountId)
  | deleteUser (id : UserId)

namespace AccountWrite

abbrev Result : AccountWrite → Type
  | insert _ | update _ _ _ _ | enable _ _ | disable _ _ | delete _ _ => Account
  | setStatus _ _ _ => Unit
  | deleteUser _ => User

def onAccounts {α : Type} (users : Users) (t : Transaction α) (db : Database) : Except Error (α × Users × Database) :=
  (t db).map fun r => (r.1, users, r.2)

def body (users : Users) (db : Database) : (t : AccountWrite) → Except Error (t.Result × Users × Database)
  | insert new => onAccounts users (AccountRepository.insert users new) db
  | update userId accountId expectedVersion change =>
    onAccounts users (AccountService.updateAccount userId accountId expectedVersion change) db
  | enable userId accountId => onAccounts users (AccountService.enable userId accountId) db
  | disable userId accountId => onAccounts users (AccountService.disable userId accountId) db
  | setStatus accountId status lastError => onAccounts users (AccountRepository.setStatus accountId status lastError) db
  | delete userId accountId => onAccounts users (AccountService.deleteAccount userId accountId) db
  | deleteUser id => (UserRepository.deleteUser id users).map fun r =>
    (r.1, r.2, db.deleteAccounts fun a => (db.accounts.find? a).any (·.userId = id))

/-- The service publishes an event after these; an update and the deletion of a user go unannounced. -/
def announced : AccountWrite → Bool
  | insert _ | enable _ _ | disable _ _ | setStatus _ _ _ | delete _ _ => true
  | update _ _ _ _ | deleteUser _ => false

end AccountWrite

/-- The request for the list: asked for, or answered from the rows that were there after `readAt` writes. -/
inductive ListRequest
  | idle
  | asked
  | answered (r : Except Error (List Account)) (readAt : Nat)

/-- A browser with the home page. The last two fields are a history: how many writes there were when the
subscription was opened, and when the list that is shown was read. -/
structure ListPage where
  userId : UserId
  stream : Option EventStream
  wire : Nat
  request : ListRequest
  shown : Option (Except Error (List Account))
  since : Nat
  seen : Nat

/-- `log` is a history of the writes, each with the rows before it, and `pending` of what a call has written and not
yet announced. -/
structure Noticeboard (ι κ : Type) where
  db : Database
  users : Users
  bus : Broadcast AppEvent
  now : Nat
  pages : κ → ListPage
  log : List (AccountWrite × Keyed.Table Account.id)
  pending : ι → Option Nat

inductive BoardOp (ι : Type)
  | write (me : ι) (t : AccountWrite)
  | notify (me : ι)
  | purge (accountId : AccountId) (store : Store)
  | accountToken
  | sealPassword (accountId : AccountId) (password : String)

abbrev BoardOp.Value : BoardOp ι → Type
  | write _ t => Except Error t.Result
  | notify _ => Unit
  | purge _ _ => Except Error Unit
  | accountToken => AccountId
  | sealPassword _ _ => Bytes

abbrev BoardOp.Choice : BoardOp ι → Type
  | write _ _ => Option DbErr
  | notify _ => Unit
  | purge _ _ => Except Error Unit
  | accountToken => AccountId
  | sealPassword _ _ => Nat

namespace Noticeboard
variable {ι κ : Type}

def accountsAt (s : Noticeboard ι κ) (p : Nat) : Keyed.Table Account.id := (s.log[p]?.map Prod.snd).getD s.db.accounts

variable [DecidableEq ι]

def write (s : Noticeboard ι κ) (me : ι) (t : AccountWrite) :
    Option DbErr → Except Error t.Result × Noticeboard ι κ
  | some e => (.error (.repositoryError (handleDberr e)), s)
  | none =>
    match t.body s.users s.db with
    | .error e => (.error e, s)
    | .ok (r, users, db) => (.ok r, { s with
        db := db
        users := users
        log := s.log ++ [(t, s.db.accounts)]
        pending := if t.announced then Function.update s.pending me (some s.log.length) else s.pending })

def notify (s : Noticeboard ι κ) (me : ι) : Noticeboard ι κ :=
  { s with bus := s.bus.send .accountsChanged, pending := Function.update s.pending me none }

end Noticeboard

abbrev boardSignature (ι : Type) : Signature := ⟨BoardOp ι, BoardOp.Value⟩

abbrev noticeboard (ι κ : Type) [DecidableEq ι] (cipher : CredentialCipher) : Machine where
  toSignature := boardSignature ι
  State := Noticeboard ι κ
  Choice := BoardOp.Choice
  exec
    | .write me t, c, s => s.write me t c
    | .notify me, _, s => ((), s.notify me)
    | .purge _ _, r, s => (r, s)
    | .accountToken, id, s => (id, s)
    | .sealPassword accountId password, nonce, s => (cipher.sealPassword nonce accountId password, s)

abbrev BoardAction (ι α : Type) := Action (boardSignature ι) Error α

namespace Announcing
variable {ι : Type} (me : ι)

def write (t : AccountWrite) : BoardAction ι t.Result := .mk (.call (BoardOp.write me t) .ret)

def notifyAccountsChanged : BoardAction ι Unit := .mk (.call (BoardOp.notify me) fun u => .ret (.ok u))

def accountToken : BoardAction ι AccountId := .mk (.call BoardOp.accountToken fun id => .ret (.ok id))

def encryptPassword (accountId : AccountId) (password : String) : BoardAction ι Bytes :=
  .mk (.call (BoardOp.sealPassword accountId password) fun sealed => .ret (.ok sealed))

/-- A cleanup that fails is logged and passed over. -/
def cleanUp (accountId : AccountId) (store : Store) : BoardAction ι Unit := do
  let _ ← (attempt (.mk (.call (BoardOp.purge accountId store) .ret) : BoardAction ι Unit) :
    BoardAction ι (Except Error Unit))
  return ()

def createAccount (params : CreateAccountParams) : BoardAction ι Account := do
  liftResult (validateCreate params)
  let token ← accountToken
  let credentials ← encryptPassword token params.password
  let account ← write me (.insert (params.newAccount token credentials))
  notifyAccountsChanged me
  return account

def encryptNew (accountId : AccountId) : Option String → BoardAction ι (Option Bytes)
  | none => pure none
  | some password => do return some (← encryptPassword accountId password)

def updateAccount (userId : UserId) (accountId : AccountId) (expectedVersion : Nat) (input : PartialAccountInput) :
    BoardAction ι Account := do
  liftResult (validateUpdate input)
  let credentials ← encryptNew accountId input.password
  write me (.update userId accountId expectedVersion ⟨input.displayName, credentials, input.server, input.username⟩)

def enable (userId : UserId) (accountId : AccountId) : BoardAction ι Unit := do
  let _ ← write me (.enable userId accountId)
  notifyAccountsChanged me

def disable (userId : UserId) (accountId : AccountId) : BoardAction ι Unit := do
  let _ ← write me (.disable userId accountId)
  notifyAccountsChanged me

def setStatus (accountId : AccountId) (status : AccountStatus) (lastError : Option String) : BoardAction ι Unit := do
  let _ ← write me (.setStatus accountId status lastError)
  notifyAccountsChanged me

def deleteAccount (userId : UserId) (accountId : AccountId) : BoardAction ι Unit := do
  let account ← write me (.delete userId accountId)
  cleanUp account.id .raw
  cleanUp account.id .attachments
  cleanUp account.id .docs
  notifyAccountsChanged me

def deleteUser (id : UserId) : BoardAction ι User := write me (.deleteUser id)

inductive Call
  | createAccount (params : CreateAccountParams)
  | updateAccount (userId : UserId) (accountId : AccountId) (expectedVersion : Nat) (input : PartialAccountInput)
  | enable (userId : UserId) (accountId : AccountId)
  | disable (userId : UserId) (accountId : AccountId)
  | setStatus (accountId : AccountId) (status : AccountStatus) (lastError : Option String)
  | deleteAccount (userId : UserId) (accountId : AccountId)
  | deleteUser (id : UserId)

def drop {α : Type} (x : BoardAction ι α) : BoardAction ι Unit := do
  let _ ← x
  return ()

def Call.handle : Call → BoardAction ι Unit
  | createAccount params => drop (Announcing.createAccount me params)
  | updateAccount userId accountId expectedVersion input =>
    drop (Announcing.updateAccount me userId accountId expectedVersion input)
  | enable userId accountId => Announcing.enable me userId accountId
  | disable userId accountId => Announcing.disable me userId accountId
  | setStatus accountId status lastError => Announcing.setStatus me accountId status lastError
  | deleteAccount userId accountId => Announcing.deleteAccount me userId accountId
  | deleteUser id => drop (Announcing.deleteUser me id)

end Announcing
end MailKeep
