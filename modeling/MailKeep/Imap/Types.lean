import MailKeep.Database.Schema

/-! What the IMAP adapter is configured with, what the server answers and what the status shows. -/
namespace MailKeep

def FETCH_BATCH : U32 := 200

def FAILURE_ERROR_THRESHOLD : U32 := 5

/-- A task's own copy of a folder, taken from the row when the account is started. -/
structure FolderConfig where
  id : FolderId
  path : String
  idleEnabled : Bool
  uidvalidity : Option U32
  lastUid : U32
deriving DecidableEq

def folderConfig (f : Folder) : FolderConfig where
  id := f.id
  path := f.path
  idleEnabled := f.idleEnabled
  uidvalidity := f.uidvalidity
  lastUid := f.lastUid

inductive ImapError
  | no (text : String)
  | other (text : String)
deriving DecidableEq

def ImapError.text : ImapError → String
  | no text => text
  | other text => text

structure Mailbox where
  uidValidity : Option U32
  uidNext : Option U32
deriving DecidableEq

inductive Flag
  | seen
  | answered
  | flagged
  | draft
  | deleted
  | recent
  | custom (name : String)
  | mayCreate
deriving DecidableEq

structure Fetch where
  uid : Option U32
  body : Option Bytes
  internalDate : Option DateTimeUtc
  flags : List Flag
deriving DecidableEq

def MessageFlags.set (f : MessageFlags) : Flag → MessageFlags
  | .seen => { f with seen := true }
  | .answered => { f with answered := true }
  | .flagged => { f with flagged := true }
  | .draft => { f with draft := true }
  | .deleted => { f with deleted := true }
  | .recent => { f with recent := true }
  | .custom name => { f with custom := f.custom ++ [name] }
  | .mayCreate => f

def mapFlags (flags : List Flag) : MessageFlags :=
  flags.foldl MessageFlags.set ⟨false, false, false, false, false, false, []⟩

inductive SyncState
  | notRunning
  | connecting
  | idle
  | syncing
  | error
deriving DecidableEq

structure SyncStatus where
  state : SyncState
  lastSyncStartedAt : Option DateTimeUtc
  lastSyncFinishedAt : Option DateTimeUtc
  lastError : Option String
  messagesIngestedSession : Nat
deriving DecidableEq

def initialStatus : SyncStatus := ⟨.connecting, none, none, none, 0⟩

inductive StatusChange
  | connecting (now : DateTimeUtc)
  | syncing
  | ingestedMessage
  | idle (now : DateTimeUtc)
  | failed (failures : U32) (error : String)
deriving DecidableEq

def StatusChange.apply : StatusChange → SyncStatus → SyncStatus
  | connecting now, s => { s with state := .connecting, lastSyncStartedAt := some now }
  | syncing, s => { s with state := .syncing }
  | ingestedMessage, s => { s with messagesIngestedSession := s.messagesIngestedSession + 1 }
  | idle now, s => { s with state := .idle, lastSyncFinishedAt := some now }
  | failed failures error, s =>
    { s with
      state := if FAILURE_ERROR_THRESHOLD ≤ failures then .error else s.state
      lastError := some error }

/-- `min(5s · 2^(n-1), 300s)`, in seconds. -/
def backoffDelay (consecutiveFailures : U32) : Nat := min (5 * 2 ^ min (consecutiveFailures.val - 1) 6) 300

end MailKeep
