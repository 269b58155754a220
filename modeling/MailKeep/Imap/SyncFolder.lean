import MailKeep.Pipeline.Backend

/-! One pass over a folder: SELECT, UIDVALIDITY check, fetch in windows, ingest, checkpoint. -/
namespace MailKeep
open Program Backend

structure IngestRequest where
  accountId : AccountId
  folderId : FolderId
  uid : U32
  uidvalidity : U32
  internalDate : DateTimeUtc
  flags : MessageFlags
  rawBytes : Bytes
deriving DecidableEq

structure IngestResult where
  contentHash : ContentHash
  jobId : JobId
deriving DecidableEq

def IngestRequest.job (request : IngestRequest) (contentHash : ContentHash) : ParseMessageJob where
  accountId := request.accountId
  folderId := request.folderId
  uid := request.uid
  uidvalidity := request.uidvalidity
  contentHash := contentHash
  internalDate := request.internalDate
  flags := request.flags

def ingestRaw (request : IngestRequest) : BackendAction IngestResult := do
  let contentHash ← putRaw request.accountId request.rawBytes
  let job ← transact (.enqueueRaw "parse_message" (request.job contentHash) PRIORITY_INGEST)
  note (.ingested (request.job contentHash))
  return ⟨contentHash, job.id⟩

def recordSyncProgress (folderId : FolderId) (uidvalidity lastUid : U32) : BackendAction Unit := do
  let now ← perform .now
  transact (.recordSyncProgress folderId uidvalidity lastUid now)

/-- The cursor is reset before the locations go, so that a crash in between only fetches again. -/
def handleUidvalidityChange (folderId : FolderId) (newUidvalidity : U32) : BackendAction Unit := do
  note (.rollover folderId newUidvalidity)
  recordSyncProgress folderId newUidvalidity 0
  let _ ← transact (.deleteLocationsForFolder folderId)

def FolderConfig.rolledOver (folder : FolderConfig) (serverUidvalidity : U32) : Bool :=
  folder.uidvalidity.any (· ≠ serverUidvalidity)

def checkUidvalidity (folder : FolderConfig) (serverUidvalidity : U32) : BackendAction U32 := do
  if folder.rolledOver serverUidvalidity then
    handleUidvalidityChange folder.id serverUidvalidity
    return 0
  else do
    note (.unchanged folder.id serverUidvalidity)
    return folder.lastUid

/-- The loop variables: the high-water mark, whether this window had mail, how much was ingested. -/
structure Progress where
  high : U32
  fetchedAny : Bool
  ingested : Nat
deriving DecidableEq

/-- `internal_date().map_or_else(Utc::now, ..)`. -/
def dateOrNow : Option DateTimeUtc → BackendAction DateTimeUtc
  | some date => pure date
  | none => perform .now

def ingestFetch (accountId : AccountId) (folder : FolderConfig) (serverUidvalidity uid : U32) (body : Bytes)
    (internalDate : Option DateTimeUtc) (flags : List Flag) : BackendAction Unit := do
  let internalDate ← dateOrNow internalDate
  let _ ← ingestRaw ⟨accountId, folder.id, uid, serverUidvalidity, internalDate, mapFlags flags, body⟩
  perform (.setStatus accountId .ingestedMessage)

/-- The answers to one FETCH in turn; those without UID or body are passed over. -/
def ingestAll (accountId : AccountId) (folder : FolderConfig) (serverUidvalidity : U32) :
    List (Except ImapError Fetch) → Progress → BackendAction Progress
  | [], p => pure p
  | .error e :: _, _ => throw (.infrastructure ("FETCH item error: " ++ e.text))
  | .ok ⟨some uid, some body, internalDate, flags⟩ :: items, p => do
    ingestFetch accountId folder serverUidvalidity uid body internalDate flags
    ingestAll accountId folder serverUidvalidity items ⟨max p.high uid, true, p.ingested + 1⟩
  | .ok _ :: items, p => ingestAll accountId folder serverUidvalidity items p

def uidFetch (folder : FolderConfig) (mailbox : Mailbox) (fromUid toUid : U32) :
    BackendAction (List (Except ImapError Fetch)) := do
  match ← perform (.uidFetch folder mailbox fromUid toUid) with
  | .ok items => return items
  | .error e =>
    throw (.infrastructure ("UID FETCH " ++ toString fromUid ++ ":" ++ toString toUid ++ " failed: " ++ e.text))

def windowEnd (upper : Option U32) (fromUid : U32) : U32 :=
  match upper with
  | some upper => min (fromUid.saturatingAdd (FETCH_BATCH - 1)) upper
  | none => fromUid.saturatingAdd (FETCH_BATCH - 1)

/-- With a known ceiling the last window reaches it; without one, the first empty window ends the scan. -/
def lastWindow (upper : Option U32) (toUid : U32) (fetchedAny : Bool) : Bool :=
  match upper with
  | some upper => decide (upper ≤ toUid)
  | none => !fetchedAny || decide (toUid = U32.maxValue)

def syncWindow (accountId : AccountId) (folder : FolderConfig) (mailbox : Mailbox)
    (serverUidvalidity fromUid toUid : U32)
    (p : Progress) : BackendAction Progress := do
  let items ← uidFetch folder mailbox fromUid toUid
  let p ← ingestAll accountId folder serverUidvalidity items { p with fetchedAny := false }
  if p.fetchedAny then recordSyncProgress folder.id serverUidvalidity p.high
  return p

/-- The loop; `rounds` bounds how many windows there can still be. -/
def scan (accountId : AccountId) (folder : FolderConfig) (mailbox : Mailbox) (serverUidvalidity : U32)
    (upper : Option U32) : Nat → U32 → Progress → BackendAction Progress
  | 0, _, p => pure p
  | rounds + 1, fromUid, p => do
    let toUid := windowEnd upper fromUid
    let p ← syncWindow accountId folder mailbox serverUidvalidity fromUid toUid p
    if lastWindow upper toUid p.fetchedAny then return p
    else scan accountId folder mailbox serverUidvalidity upper rounds (toUid.saturatingAdd 1) p

def Mailbox.upper (mailbox : Mailbox) : Option U32 := mailbox.uidNext.map (·.saturatingSub 1)

/-- `UID` windows cannot be more than there are `u32` values. -/
def scanRounds : Nat := 4294967296

def selectFolder (folder : FolderConfig) : BackendAction Mailbox := do
  match ← perform (.select folder) with
  | .ok mailbox => return mailbox
  | .error (.no _) => throw (.folderNotFound folder.path)
  | .error (.other text) => throw (.infrastructure ("SELECT " ++ folder.path ++ " failed: " ++ text))

def serverUidvalidity (folder : FolderConfig) (mailbox : Mailbox) : BackendAction U32 :=
  match mailbox.uidValidity with
  | some uidvalidity => pure uidvalidity
  | none => throw (.infrastructure ("server returned no UIDVALIDITY for " ++ folder.path))

def syncFrom (accountId : AccountId) (folder : FolderConfig) (mailbox : Mailbox) (serverUidvalidity lastUid : U32) :
    BackendAction (U32 × U32) := do
  perform (.setStatus accountId .syncing)
  let fromUid := lastUid.saturatingAdd 1
  if mailbox.upper.any (· < fromUid) then
    recordSyncProgress folder.id serverUidvalidity lastUid
    return (lastUid, serverUidvalidity)
  let p ← scan accountId folder mailbox serverUidvalidity mailbox.upper scanRounds fromUid ⟨lastUid, false, 0⟩
  if p.ingested = 0 then recordSyncProgress folder.id serverUidvalidity p.high
  return (p.high, serverUidvalidity)

/-- Returns the new high-water UID with the server's current UIDVALIDITY. -/
def syncFolder (accountId : AccountId) (folder : FolderConfig) : BackendAction (U32 × U32) := do
  let mailbox ← selectFolder folder
  let serverUidvalidity ← serverUidvalidity folder mailbox
  let lastUid ← checkUidvalidity folder serverUidvalidity
  syncFrom accountId folder mailbox serverUidvalidity lastUid

end MailKeep
