import MailKeep.Imap.SyncFolder
import MailKeep.Program.Loop

/-! The two long-lived tasks of an account, as the rounds their loops make. -/
namespace MailKeep
open Program Backend

def connectAndLogin : BackendAction Unit := .mk (.call BackendOp.connect .ret)

/-- The folders of a poll pass in turn; one that is gone on the server is skipped. -/
def pollFolders (accountId : AccountId) : List FolderConfig → BackendAction Unit
  | [] => pure ()
  | folder :: folders => do
    if ← perform .isCancelled then return ()
    match ← attempt (syncFolder accountId folder) with
    | .ok _ =>
      note (.passed folder)
      pollFolders accountId folders
    | .error (.folderNotFound _) => pollFolders accountId folders
    | .error e => throw e

def pollPass (accountId : AccountId) (foldersCfg : List FolderConfig) : BackendAction Unit := do
  connectAndLogin
  pollFolders accountId foldersCfg
  perform .logout

def noteFailure (accountId : AccountId) (failures : U32) (e : Error) : BackendAction U32 := do
  perform (.setStatus accountId (.failed (failures.saturatingAdd 1) e.text))
  return failures.saturatingAdd 1

/-- One round of `poll_task`; `none` when it was cancelled. -/
def pollRound (accountId : AccountId) (foldersCfg : List FolderConfig) (pollInterval : Nat) (failures : U32) :
    BackendAction (Option U32) := do
  perform (.setStatus accountId (.connecting (← perform .now)))
  let (failures, wait) ← match ← attempt (pollPass accountId foldersCfg) with
    | .ok () => do
      perform (.setStatus accountId (.idle (← perform .now)))
      pure (0, pollInterval)
    | .error e => do
      let failures ← noteFailure accountId failures e
      pure (failures, backoffDelay failures)
  if ← perform (.sleep wait) then return none else return some failures

/-- Between two rounds of `idle_task`: the failures so far, and the local cursor of the open connection. -/
structure IdleState where
  failures : U32
  cur : Option FolderConfig
deriving DecidableEq

/-- The connection is given up; the next one starts after the backoff. -/
def idleReconnect (accountId : AccountId) (failures : U32) (e : Error) : BackendAction (Option IdleState) := do
  let failures ← noteFailure accountId failures e
  if ← perform (.sleep (backoffDelay failures)) then return none else return some ⟨failures, none⟩

/-- Parked in IDLE after a pass that left the cursor `cur`. -/
def park (accountId : AccountId) (cur : FolderConfig) : BackendAction (Option IdleState) := do
  perform (.setStatus accountId (.idle (← perform .now)))
  match ← perform .idle with
  | .woken => return some ⟨0, some cur⟩
  | .cancelled => do
    perform .logout
    return none
  | .failed error => idleReconnect accountId 0 (.infrastructure ("IMAP IDLE " ++ error))

/-- One round of `idle_task`: open a connection, or make one pass on the open one and park. -/
def idleRound (accountId : AccountId) (folder : FolderConfig) (st : IdleState) :
    BackendAction (Option IdleState) := do
  if ← perform .isCancelled then
    match st.cur with
    | none => return none
    | some _ => do
      perform .logout
      return none
  else
    match st.cur with
    | none => do
      perform (.setStatus accountId (.connecting (← perform .now)))
      match ← attempt connectAndLogin with
      | .ok () => return some ⟨st.failures, some folder⟩
      | .error e => idleReconnect accountId st.failures e
    | some cur =>
      match ← attempt (syncFolder accountId cur) with
      | .ok (high, serverUidvalidity) => do
        note (.passed cur)
        park accountId { cur with lastUid := high, uidvalidity := some serverUidvalidity }
      | .error e => idleReconnect accountId st.failures e

inductive SyncTask
  | poll (foldersCfg : List FolderConfig) (pollInterval : Nat)
  | idle (folder : FolderConfig)

namespace SyncTask

abbrev State : SyncTask → Type
  | poll _ _ => U32
  | idle _ => IdleState

def start : (task : SyncTask) → task.State
  | poll _ _ => 0
  | idle _ => ⟨0, none⟩

def folders : SyncTask → List FolderConfig
  | poll foldersCfg _ => foldersCfg
  | idle folder => [folder]

/-- One round of the task's loop; it ends where the round returns `none`. -/
def round (accountId : AccountId) : (task : SyncTask) → task.State → BackendProg (Option task.State)
  | poll foldersCfg pollInterval, failures =>
    (pollRound accountId foldersCfg pollInterval failures).run >>= fun r => .ret r.toOption.join
  | idle folder, st => (idleRound accountId folder st).run >>= fun r => .ret r.toOption.join

/-- The pass that comes next works from the copy the task was started with: each pass of the
poll task, and the first pass on each connection of the idle task. -/
def Captured : SyncTask → List Event → Prop
  | poll _ _, _ => True
  | idle _, log => log.head? = some .connected

end SyncTask
end MailKeep
