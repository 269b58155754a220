import MailKeep.Core.Types
import MailKeep.Keyed.Table

/-! The rows of the relational store and the store as a whole. -/
namespace MailKeep

inductive TlsMode
  | tls
  | startTls
deriving DecidableEq

instance Port.neZero : NeZero 65536 := ⟨by decide⟩

structure ImapServerConfig where
  host : String
  port : Fin 65536
  tls : TlsMode
deriving DecidableEq

inductive AccountStatus
  | pendingFirstSync
  | syncing
  | idle
  | error
  | disabled
deriving DecidableEq

structure Account where
  id : AccountId
  version : Nat
  userId : UserId
  displayName : String
  emailAddress : String
  server : ImapServerConfig
  username : String
  credentials : Bytes
  enabled : Bool
  status : AccountStatus
  lastError : Option String
  lastSyncedAt : Option DateTimeUtc
deriving DecidableEq

inductive SpecialUse
  | inbox
  | sent
  | drafts
  | trash
  | archive
  | junk
  | all
deriving DecidableEq

structure Folder where
  id : FolderId
  version : Nat
  accountId : AccountId
  path : String
  displayName : Option String
  specialUse : Option SpecialUse
  enabled : Bool
  idleEnabled : Bool
  uidvalidity : Option U32
  lastUid : U32
  lastSyncedAt : Option DateTimeUtc
  lastError : Option String
deriving DecidableEq

structure NamedAddress where
  address : String
  name : Option String
deriving DecidableEq

structure Envelope where
  rfc822MessageId : String
  contentHash : ContentHash
  subject : Option String
  fromAddress : String
  fromName : Option String
  toAddresses : List NamedAddress
  ccAddresses : List NamedAddress
  bccAddresses : List NamedAddress
  replyToAddresses : List NamedAddress
  sentDate : Option DateTimeUtc
  inReplyTo : Option String
  references : List String
  snippet : String
  sizeBytes : Int
deriving DecidableEq

structure Message extends Envelope where
  id : MessageId
  version : Nat
  accountId : AccountId
  hasAttachments : Bool
  attachmentCount : Int
  indexed : Bool
deriving DecidableEq

structure MessageFlags where
  seen : Bool
  answered : Bool
  flagged : Bool
  draft : Bool
  deleted : Bool
  recent : Bool
  custom : List String
deriving DecidableEq

structure MessageLocation where
  id : Nat
  version : Nat
  messageId : MessageId
  folderId : FolderId
  uid : U32
  uidvalidity : U32
  flags : MessageFlags
  internalDate : DateTimeUtc
deriving DecidableEq

structure ParsedAttachment where
  contentHash : ContentHash
  filename : Option String
  contentType : String
  sizeBytes : Int
  isInline : Bool
  contentId : Option String
deriving DecidableEq

structure MessageAttachment extends ParsedAttachment where
  id : Nat
  version : Nat
  messageId : MessageId
  accountId : AccountId
deriving DecidableEq

structure ParsedMessage extends Envelope where
  attachments : List ParsedAttachment
deriving DecidableEq

/-- The payload of a `parse_message` job. -/
structure ParseMessageJob where
  accountId : AccountId
  folderId : FolderId
  uid : U32
  uidvalidity : U32
  contentHash : ContentHash
  internalDate : DateTimeUtc
  flags : MessageFlags
deriving DecidableEq

inductive JobStatus
  | pending
  | running
  | completed
  | failed
deriving DecidableEq

structure Job where
  id : JobId
  jobType : String
  payload : ParseMessageJob
  status : JobStatus
  priority : Int
  attempt : Nat
  maxAttempts : Nat
  version : Nat
  scheduledAt : DateTimeUtc
  startedAt : Option DateTimeUtc
  completedAt : Option DateTimeUtc
  errorMessage : Option String
deriving DecidableEq

/-- Every table keeps its primary key distinct; job ids come from a counter. -/
structure Database where
  accounts : Keyed.Table Account.id
  folders : Keyed.Table Folder.id
  messages : Keyed.Table Message.id
  locations : Keyed.Table MessageLocation.id
  attachments : Keyed.Table MessageAttachment.id
  jobs : Keyed.Table Job.id
  nextJobId : JobId

/-- The statements of one transaction: on an error the store is left as it was. -/
abbrev Transaction (α : Type) := StateT Database (Except Error) α

theorem Transaction.bind_eq_ok {α β : Type} {x : Transaction α} {f : α → Transaction β}
    {db db' : Database} {b : β} :
    (x >>= f) db = .ok (b, db') ↔ ∃ a mid, x db = .ok (a, mid) ∧ f a mid = .ok (b, db') := by
  constructor
  · intro h
    change (x db >>= fun r => f r.1 r.2) = .ok (b, db') at h
    cases hx : x db with
    | error e => rw [hx] at h; cases h
    | ok r => exact ⟨r.1, r.2, rfl, by rw [hx] at h; exact h⟩
  · rintro ⟨a, mid, hx, hf⟩
    change (x db >>= fun r => f r.1 r.2) = .ok (b, db')
    rw [hx]
    exact hf

theorem Transaction.pure_eq_ok {α : Type} {a b : α} {db db' : Database} :
    (pure a : Transaction α) db = .ok (b, db') ↔ a = b ∧ db = db' := by
  change Except.ok (a, db) = .ok (b, db') ↔ _
  simp

end MailKeep
