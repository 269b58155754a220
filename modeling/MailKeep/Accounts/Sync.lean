import MailKeep.Database.Accounts
import MailKeep.Imap.Types
import MailKeep.Program.Place
import MailKeep.Users.Requests

/-! Enabling and disabling accounts, the sync port that runs their tasks, and the tick that reconciles the two. -/
namespace MailKeep
open Program

structure ImapConnectionParams where
  server : ImapServerConfig
  username : String
  password : String
  folders : List FolderConfig
deriving DecidableEq

/-- What befalls an account: its enabling and disabling in the database, and what users' calls do at the port. -/
inductive AccountEvent
  | enabled (accountId : AccountId)
  | disabled (accountId : AccountId)
  | started (accountId : AccountId)
  | stopped (accountId : AccountId)
deriving DecidableEq

def AccountEvent.account : AccountEvent → AccountId
  | enabled id | disabled id | started id | stopped id => id

/-- `tracked` is what the port runs. The last two fields are a history, newest first: `since` has what
happened after a thread last listed the enabled accounts. -/
structure SyncHost (ι : Type) where
  db : Database
  tracked : List (AccountId × ImapConnectionParams)
  log : List AccountEvent
  since : ι → List AccountEvent

inductive AccountTxn
  | listEnabled
  | enable (userId : UserId) (accountId : AccountId)
  | disable (userId : UserId) (accountId : AccountId)
  | setStatus (accountId : AccountId) (status : AccountStatus) (lastError : Option String)
  | listEnabledFolders (accountId : AccountId)

abbrev AccountTxn.Result : AccountTxn → Type
  | listEnabled => List Account
  | enable _ _ | disable _ _ => Account
  | setStatus _ _ _ => Unit
  | listEnabledFolders _ => List Folder

def FolderRepository.listEnabledForAccount (accountId : AccountId) : Transaction (List Folder) := fun db =>
  if accountId = 0 then .error (.invalidId accountId)
  else .ok (db.folders.rows.filter fun f => f.accountId = accountId && f.enabled, db)

def AccountTxn.body : (t : AccountTxn) → Transaction t.Result
  | listEnabled => AccountRepository.listEnabled
  | enable userId accountId => AccountService.enable userId accountId
  | disable userId accountId => AccountService.disable userId accountId
  | setStatus accountId status lastError => AccountRepository.setStatus accountId status lastError
  | listEnabledFolders accountId => FolderRepository.listEnabledForAccount accountId

def AccountTxn.event? : AccountTxn → Option AccountEvent
  | enable _ accountId => some (.enabled accountId)
  | disable _ accountId => some (.disabled accountId)
  | _ => none

/-- The port has one call to stop an account; `reclaim` is that call when a tick makes it. -/
inductive SyncOp (ι : Type)
  | transact (me : ι) (t : AccountTxn)
  | start (accountId : AccountId) (params : ImapConnectionParams)
  | stop (accountId : AccountId)
  | reclaim (me : ι) (accountId : AccountId)
  | status (accountId : AccountId)
  | trackedAccounts

abbrev SyncOp.Value : SyncOp ι → Type
  | transact _ t => Except Error t.Result
  | start _ _ | stop _ | reclaim _ _ => Except Error Unit
  | status _ => Except Error SyncStatus
  | trackedAccounts => List AccountId

/-- A transaction may fail, a running task has the status it has, a map lists its keys in any order. -/
abbrev SyncOp.Choice : SyncOp ι → Type
  | transact _ _ => Option DbErr
  | status _ => SyncStatus
  | trackedAccounts => List AccountId → List AccountId
  | start _ _ | stop _ | reclaim _ _ => Unit

namespace SyncHost
variable {ι : Type}

def push (s : SyncHost ι) (e : AccountEvent) : SyncHost ι :=
  { s with log := e :: s.log, since := fun i => e :: s.since i }

def setTracked (s : SyncHost ι) (accountId : AccountId) (params : ImapConnectionParams) : SyncHost ι :=
  { s with tracked := (accountId, params) :: s.tracked.filter (·.1 ≠ accountId) }

def untrack (s : SyncHost ι) (accountId : AccountId) : SyncHost ι :=
  { s with tracked := s.tracked.filter (·.1 ≠ accountId) }

def Tracks (s : SyncHost ι) (accountId : AccountId) : Prop := ∃ params, (accountId, params) ∈ s.tracked

variable [DecidableEq ι]

/-- What the history takes from a transaction that has gone through. -/
def note (s : SyncHost ι) (me : ι) : AccountTxn → SyncHost ι
  | .listEnabled => { s with since := Function.update s.since me [] }
  | t => t.event?.elim s s.push

def transact (s : SyncHost ι) (me : ι) (t : AccountTxn) : Option DbErr → Except Error t.Result × SyncHost ι
  | some e => (.error (.repositoryError (handleDberr e)), s)
  | none =>
    match t.body s.db with
    | .error e => (.error e, s)
    | .ok (r, db) => (.ok r, { s with db := db }.note me t)

theorem transact_ok {s : SyncHost ι} {me : ι} {t : AccountTxn} {r : t.Result} {db : Database}
    (h : t.body s.db = .ok (r, db)) :
    s.transact me t none = (.ok r, { s with db := db }.note me t) := by
  simp only [transact, h]

end SyncHost

def notRunningStatus : SyncStatus := ⟨.notRunning, none, none, none, 0⟩

abbrev syncSignature (ι : Type) : Signature := ⟨SyncOp ι, SyncOp.Value⟩

abbrev syncHost (ι : Type) [DecidableEq ι] : Machine where
  toSignature := syncSignature ι
  State := SyncHost ι
  Choice := SyncOp.Choice
  exec
    | .transact me t, c, s => s.transact me t c
    | .start accountId params, _, s => (.ok (), (s.setTracked accountId params).push (.started accountId))
    | .stop accountId, _, s => (.ok (), (s.untrack accountId).push (.stopped accountId))
    | .reclaim _ accountId, _, s => (.ok (), s.untrack accountId)
    | .status accountId, live, s => (.ok (if s.tracked.any (·.1 = accountId) then live else notRunningStatus), s)
    | .trackedAccounts, order, s => (order (s.tracked.map Prod.fst), s)

abbrev SyncAction (ι ε α : Type) := Action (syncSignature ι) ε α

section
variable {ι : Type} (me : ι)

def tryTransact (t : AccountTxn) : SyncAction ι Error t.Result := .mk (.call (SyncOp.transact me t) .ret)

abbrev OpenCredentials := AccountId → Bytes → Except Error String

variable (openCredentials : OpenCredentials)

def startOne (account : Account) : SyncAction ι Error Unit := do
  let folders ← tryTransact me (.listEnabledFolders account.id)
  let password ← liftResult (openCredentials account.id account.credentials)
  let params := ⟨account.server, account.username, password, folders.map folderConfig⟩
  match ← attempt (.mk (.call (SyncOp.start account.id params) .ret) : SyncAction ι Error Unit) with
  | .ok () => tryTransact me (.setStatus account.id .syncing none)
  | .error e => do
    let _ ← attempt (tryTransact me (.setStatus account.id .error (some e.text)))
    throw e

def startAccount (accountId : AccountId) : SyncAction ι Error Unit := do
  match (← tryTransact me .listEnabled).find? (·.id = accountId) with
  | some account => startOne me openCredentials account
  | none => throw (.validation ("account " ++ toString accountId ++ " is not enabled or does not exist"))

def stopAccount (accountId : AccountId) : SyncAction ι Error Unit := .mk (.call (SyncOp.stop accountId) .ret)

def setAccountEnabled (userId : UserId) (accountId : AccountId) (enabled : Bool) :
    SyncAction ι ServerFnError Unit :=
  if enabled then do
    let _ ← mapErr toServerErr (tryTransact me (.enable userId accountId))
    mapErr toServerErr (startAccount me openCredentials accountId)
  else do
    let _ ← mapErr toServerErr (tryTransact me (.disable userId accountId))
    mapErr toServerErr (stopAccount accountId)

def desiredStatus : SyncState → Option AccountStatus
  | .error => some .error
  | .idle => some .idle
  | .syncing | .connecting => some .syncing
  | .notRunning => none

def driveStatuses : List Account → SyncAction ι Error Unit
  | [] => pure ()
  | account :: accounts => do
    match ← attempt (.mk (.call (SyncOp.status account.id) .ret) : SyncAction ι Error SyncStatus) with
    | .error _ => pure ()
    | .ok live =>
      match desiredStatus live.state with
      | none => pure ()
      | some desired =>
        if account.status ≠ desired then
          let _ ← (attempt (tryTransact me (.setStatus account.id desired live.lastError)) :
            SyncAction ι Error (Except Error Unit))
    driveStatuses accounts

def tearDown (enabledIds : List AccountId) : List AccountId → SyncAction ι Error Unit
  | [] => pure ()
  | id :: ids => do
    if id ∉ enabledIds then
      let _ ← (attempt (.mk (.call (SyncOp.reclaim me id) .ret) : SyncAction ι Error Unit) :
        SyncAction ι Error (Except Error Unit))
    tearDown enabledIds ids

def reconcileStatuses : SyncAction ι Error Unit := do
  let enabled ← tryTransact me .listEnabled
  driveStatuses me enabled
  let tracked ← (.mk (.call SyncOp.trackedAccounts fun ids => .ret (.ok ids)) : SyncAction ι Error (List AccountId))
  tearDown me (enabled.map Account.id) tracked

end
end MailKeep
