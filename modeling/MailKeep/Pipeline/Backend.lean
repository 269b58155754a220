import MailKeep.Database.Error
import MailKeep.Database.Jobs
import MailKeep.Database.SyncState
import MailKeep.Imap.Types
import MailKeep.Program.Safe

/-! What the sync tasks and the job workers act on, one operation at a time: the mail server,
the two blob stores, the database with one transaction a step, the status and the clock. -/
namespace MailKeep
open Program

structure Draw where
  now : DateTimeUtc
  tokens : RecordTokens

inductive Txn
  | enqueueRaw (jobType : String) (payload : ParseMessageJob) (priority : Int)
  | recordSyncProgress (folderId : FolderId) (uidvalidity lastUid : U32) (lastSyncedAt : DateTimeUtc)
  | deleteLocationsForFolder (folderId : FolderId)
  | recordParsedMessage (payload : ParseMessageJob) (parsed : ParsedMessage)
  | claimNext
  | complete (job : Job)
  | fail (job : Job) (error : String)
  | failTerminal (job : Job) (error : String)

abbrev Txn.Result : Txn → Type
  | enqueueRaw _ _ _ => Job
  | recordSyncProgress _ _ _ _ => Unit
  | deleteLocationsForFolder _ => Nat
  | recordParsedMessage _ _ => RecordedMessage
  | claimNext => Option Job
  | complete _ => Job
  | fail _ _ => Job
  | failTerminal _ _ => Job

def Txn.body (d : Draw) : (t : Txn) → Transaction t.Result
  | enqueueRaw jobType payload priority => JobRepository.enqueueRaw d.now jobType payload priority
  | recordSyncProgress folderId uidvalidity lastUid lastSyncedAt =>
    FolderRepository.updateSyncState folderId uidvalidity lastUid lastSyncedAt
  | deleteLocationsForFolder folderId => MessageLocationRepository.deleteByFolderId folderId
  | recordParsedMessage payload parsed =>
    MailKeep.recordParsedMessage d.tokens payload.accountId payload.folderId payload.uid payload.uidvalidity
      payload.internalDate payload.flags parsed
  | claimNext => JobRepository.claimNext d.now
  | complete job => JobRepository.complete d.now job
  | fail job error => JobRepository.fail d.now job error
  | failTerminal job error => JobRepository.failTerminal d.now job error

/-- What the history of a run keeps, newest first: what the server said, which writes of the
sync state went through, and which calls of the sync task were entered or have returned. -/
inductive Event
  | connected
  | selected (folder : FolderConfig) (mailbox : Mailbox) (recorded : Option U32)
  | rollover (folderId : FolderId) (uidvalidity : U32)
  | unchanged (folderId : FolderId) (uidvalidity : U32)
  | fetched (folderId : FolderId) (fromUid toUid : U32)
  | ingested (payload : ParseMessageJob)
  | persisted (folderId : FolderId) (uidvalidity lastUid : U32)
  | dropped (folderId : FolderId)
  | placed (messageId : MessageId) (payload : ParseMessageJob)
  | passed (folder : FolderConfig)
deriving DecidableEq

def Txn.event? : (t : Txn) → t.Result → Option Event
  | recordSyncProgress folderId uidvalidity lastUid _, _ => some (.persisted folderId uidvalidity lastUid)
  | deleteLocationsForFolder folderId, _ => some (.dropped folderId)
  | recordParsedMessage payload _, recorded => some (.placed recorded.messageId payload)
  | enqueueRaw _ _ _, _ | claimNext, _ | complete _, _ | fail _ _, _ | failTerminal _ _, _ => none

structure World where
  db : Database
  raw : AccountId → ContentHash → Option Bytes
  attachments : AccountId → ContentHash → Option Bytes
  status : AccountId → SyncStatus
  log : List Event

inductive IdleOutcome
  | woken
  | cancelled
  | failed (error : String)
deriving DecidableEq

inductive BackendOp
  | connect
  | logout
  | select (folder : FolderConfig)
  | uidFetch (folder : FolderConfig) (mailbox : Mailbox) (fromUid toUid : U32)
  | idle
  | isCancelled
  | sleep (seconds : Nat)
  | now
  | setStatus (accountId : AccountId) (change : StatusChange)
  | putRaw (accountId : AccountId) (plaintext : Bytes)
  | getRaw (accountId : AccountId) (key : ContentHash)
  | putAttachment (accountId : AccountId) (plaintext : Bytes)
  | transact (t : Txn)
  | note (e : Event)

abbrev BackendOp.Value : BackendOp → Type
  | connect => Except Error Unit
  | select _ => Except ImapError Mailbox
  | uidFetch _ _ _ _ => Except ImapError (List (Except ImapError Fetch))
  | idle => IdleOutcome
  | isCancelled => Bool
  | sleep _ => Bool
  | now => DateTimeUtc
  | putRaw _ _ => Except Error ContentHash
  | getRaw _ _ => Except Error Bytes
  | putAttachment _ _ => Except Error ContentHash
  | transact t => Except Error t.Result
  | logout | setStatus _ _ | note _ => Unit

/-- A store that fails may have placed the blob already. -/
structure PutFault where
  text : String
  placed : Bool

inductive GetFault
  | io (text : String)
  | decryption

def GetFault.error : GetFault → Error
  | io text => .infrastructure text
  | decryption => .decryptionFailed

/-- The server, the clock and the user say what they like; a store or a transaction may fail. -/
abbrev BackendOp.Choice : BackendOp → Type
  | putRaw _ _ => Option PutFault
  | getRaw _ _ => Option GetFault
  | putAttachment _ _ => Option PutFault
  | transact _ => Except DbErr Draw
  | logout | setStatus _ _ | note _ => Unit
  | connect => Except Error Unit
  | select _ => Except ImapError Mailbox
  | uidFetch _ _ _ _ => Except ImapError (List (Except ImapError Fetch))
  | idle => IdleOutcome
  | isCancelled => Bool
  | sleep _ => Bool
  | now => DateTimeUtc

/-- The blob is there from now on; one that was there stays. -/
def placeBlob (store : AccountId → ContentHash → Option Bytes) (accountId : AccountId) (key : ContentHash)
    (plaintext : Bytes) : AccountId → ContentHash → Option Bytes := fun a k =>
  if a = accountId ∧ k = key then some ((store a k).getD plaintext) else store a k

/-- `put_if_absent` as its callers see it: the reply and the store it leaves. -/
def putBlob (computeHash : Bytes → ContentHash) (store : AccountId → ContentHash → Option Bytes)
    (accountId : AccountId) (plaintext : Bytes) :
    Option PutFault → Except Error ContentHash × (AccountId → ContentHash → Option Bytes)
  | none => (.ok (computeHash plaintext), placeBlob store accountId (computeHash plaintext) plaintext)
  | some ⟨text, true⟩ => (.error (.infrastructure text), placeBlob store accountId (computeHash plaintext) plaintext)
  | some ⟨text, false⟩ => (.error (.infrastructure text), store)

theorem putBlob_ne_none {computeHash : Bytes → ContentHash} {store : AccountId → ContentHash → Option Bytes}
    {accountId a : AccountId} {plaintext : Bytes} {c : Option PutFault} {k : ContentHash} :
    (putBlob computeHash store accountId plaintext c).2 a k ≠ none ↔
      store a k ≠ none ∨ c.all PutFault.placed = true ∧ a = accountId ∧ k = computeHash plaintext := by
  have placed : placeBlob store accountId (computeHash plaintext) plaintext a k ≠ none ↔
      store a k ≠ none ∨ a = accountId ∧ k = computeHash plaintext := by
    unfold placeBlob
    by_cases same : a = accountId ∧ k = computeHash plaintext
    · simp [same]
    · simp [same]
  rcases c with _ | ⟨text, _ | _⟩
  · exact placed.trans (or_congr_right (by simp))
  · simp [putBlob]
  · exact placed.trans (or_congr_right (by simp))

def recordedUidvalidity (folders : Keyed.Table Folder.id) (folderId : FolderId) : Option U32 :=
  (folders.find? folderId).bind Folder.uidvalidity

/-- The world with no history yet. -/
def World.atStart (w : World) : World := { w with log := [] }

def World.push (w : World) (e : Event) : World := { w with log := e :: w.log }

/-- A transaction commits with its event or leaves the world as it was. -/
def World.transact (w : World) (t : Txn) : Except DbErr Draw → Except Error t.Result × World
  | .error e => (.error (.repositoryError (handleDberr e)), w)
  | .ok d =>
    match t.body d w.db with
    | .error e => (.error e, w)
    | .ok (r, db) => (.ok r, { w with db := db, log := (t.event? r).toList ++ w.log })

def backendExec (computeHash : Bytes → ContentHash) : (o : BackendOp) → o.Choice → World → o.Value × World
  | .connect, .ok (), w => (.ok (), w.push .connected)
  | .connect, .error e, w => (.error e, w)
  | .logout, _, w => ((), w)
  | .select folder, .ok mailbox, w =>
    (.ok mailbox, w.push (.selected folder mailbox (recordedUidvalidity w.db.folders folder.id)))
  | .select _, .error e, w => (.error e, w)
  | .uidFetch folder _ fromUid toUid, items, w => (items, w.push (.fetched folder.id fromUid toUid))
  | .idle, outcome, w => (outcome, w)
  | .isCancelled, b, w => (b, w)
  | .sleep _, b, w => (b, w)
  | .now, t, w => (t, w)
  | .setStatus accountId change, _, w =>
    ((), { w with status := Function.update w.status accountId (change.apply (w.status accountId)) })
  | .putRaw accountId plaintext, c, w =>
    ((putBlob computeHash w.raw accountId plaintext c).1,
      { w with raw := (putBlob computeHash w.raw accountId plaintext c).2 })
  | .getRaw accountId key, none, w =>
    (match w.raw accountId key with
      | some bytes => .ok bytes
      | none => .error (.blobNotFound accountId key.asHex), w)
  | .getRaw _ _, some f, w => (.error f.error, w)
  | .putAttachment accountId plaintext, c, w =>
    ((putBlob computeHash w.attachments accountId plaintext c).1,
      { w with attachments := (putBlob computeHash w.attachments accountId plaintext c).2 })
  | .transact t, c, w => w.transact t c
  | .note e, _, w => ((), w.push e)

/-- A transaction fails and nothing has happened, or it goes through. -/
theorem World.transact_cases (w : World) (t : Txn) (c : Except DbErr Draw) :
    (∃ e, w.transact t c = (.error e, w)) ∨
      ∃ d r db, c = .ok d ∧ t.body d w.db = .ok (r, db) ∧
        w.transact t c = (.ok r, { w with db := db, log := (t.event? r).toList ++ w.log }) := by
  cases c with
  | error e => exact .inl ⟨_, rfl⟩
  | ok d =>
    cases h : t.body d w.db with
    | error e => exact .inl ⟨e, by simp only [World.transact, h]⟩
    | ok p => exact .inr ⟨d, p.1, p.2, rfl, h, by simp only [World.transact, h]⟩

private theorem World.transact_stores (w : World) (t : Txn) (c : Except DbErr Draw) :
    (w.transact t c).2.raw = w.raw ∧ (w.transact t c).2.attachments = w.attachments := by
  rcases w.transact_cases t c with ⟨e, he⟩ | ⟨d, r, db, -, -, hok⟩
  · rw [he]
    exact ⟨rfl, rfl⟩
  · rw [hok]
    exact ⟨rfl, rfl⟩

/-- Only the two writes of blobs change a store. -/
theorem backendExec_stores {computeHash : Bytes → ContentHash} {o : BackendOp} {c : o.Choice} {w : World}
    (raw : ∀ accountId plaintext, o ≠ .putRaw accountId plaintext)
    (attachments : ∀ accountId plaintext, o ≠ .putAttachment accountId plaintext) :
    (backendExec computeHash o c w).2.raw = w.raw ∧ (backendExec computeHash o c w).2.attachments =
      w.attachments := by
  cases o with
  | putRaw accountId plaintext => exact absurd rfl (raw accountId plaintext)
  | putAttachment accountId plaintext => exact absurd rfl (attachments accountId plaintext)
  | transact t => exact w.transact_stores t c
  | connect | select _ => cases c <;> exact ⟨rfl, rfl⟩
  | getRaw _ _ => cases c <;> exact ⟨rfl, rfl⟩
  | logout | uidFetch _ _ _ _ | idle | isCancelled | sleep _ | now | setStatus _ _ | note _ => exact ⟨rfl, rfl⟩

abbrev backendSignature : Signature := ⟨BackendOp, BackendOp.Value⟩

abbrev backend (computeHash : Bytes → ContentHash) : Machine where
  toSignature := backendSignature
  State := World
  Choice := BackendOp.Choice
  exec := backendExec computeHash

abbrev BackendProg (α : Type) := Prog backendSignature α

abbrev BackendAction (α : Type) := Action backendSignature Error α

namespace Backend

def perform (o : BackendOp) : BackendAction o.Value := .mk (.call o fun reply => .ret (.ok reply))

def getRaw (accountId : AccountId) (key : ContentHash) : BackendAction Bytes :=
  .mk (.call (BackendOp.getRaw accountId key) .ret)

def putRaw (accountId : AccountId) (plaintext : Bytes) : BackendAction ContentHash :=
  .mk (.call (BackendOp.putRaw accountId plaintext) .ret)

def putAttachment (accountId : AccountId) (plaintext : Bytes) : BackendAction ContentHash :=
  .mk (.call (BackendOp.putAttachment accountId plaintext) .ret)

def transact (t : Txn) : BackendAction t.Result := .mk (.call (BackendOp.transact t) .ret)

def note (e : Event) : BackendAction Unit := perform (.note e)

end Backend
/-- An installation to run on: one account with its inbox, and an environment in which nothing fails. -/
def workAccount : Account where
  id := 1
  version := 1
  userId := 1
  displayName := "Work"
  emailAddress := "me@example.org"
  server := ⟨"imap.example.org", 993, .tls⟩
  username := "me"
  credentials := []
  enabled := true
  status := .syncing
  lastError := none
  lastSyncedAt := none

def inbox (uidvalidity : Option U32) (lastUid : U32) : Folder where
  id := 7
  version := 1
  accountId := 1
  path := "INBOX"
  displayName := none
  specialUse := some .inbox
  enabled := true
  idleEnabled := true
  uidvalidity := uidvalidity
  lastUid := lastUid
  lastSyncedAt := none
  lastError := none

theorem workAccount_ids : ([workAccount].map Account.id).Nodup := List.nodup_singleton _

def inboxWorld (uidvalidity : Option U32) (lastUid : U32) : World where
  db := {
    accounts := ⟨[workAccount], workAccount_ids⟩
    folders := ⟨[inbox uidvalidity lastUid], by simp⟩
    messages := .empty
    locations := .empty
    attachments := .empty
    jobs := .empty
    nextJobId := 1 }
  raw _ _ := none
  attachments _ _ := none
  status _ := initialStatus
  log := []

/-- The server answers from `mailbox` and `answers`; tokens are drawn from `token` on. -/
def calm (mailbox : Mailbox) (answers : U32 → U32 → List (Except ImapError Fetch)) (token : Nat) :
    (o : BackendOp) → o.Choice
  | .connect => .ok ()
  | .select _ => .ok mailbox
  | .uidFetch _ _ a b => .ok (answers a b)
  | .idle => .woken
  | .isCancelled => false
  | .sleep _ => false
  | .now => 0
  | .putRaw _ _ | .putAttachment _ _ | .getRaw _ _ => none
  | .transact _ => .ok ⟨0, ⟨token, fun i => token + i, token⟩⟩
  | .logout | .setStatus _ _ | .note _ => ()

/-- A stand-in for the hash: the first byte, 32 times. -/
def firstByte (bytes : Bytes) : ContentHash := ⟨Vector.replicate 32 (bytes.headD 0)⟩

end MailKeep
