import MailKeep.Pipeline.Backend

/-! The handler of a `parse_message` job: reads the raw blob, stores the attachments, records the message. -/
namespace MailKeep
open Program Backend

structure ExtractedAttachment where
  bytes : Bytes
  filename : Option String
  contentType : String
  isInline : Bool
  contentId : Option String
deriving DecidableEq

structure ParsedEml where
  rfc822MessageId : String
  subject : Option String
  fromAddress : String
  fromName : Option String
  toAddresses : List NamedAddress
  ccAddresses : List NamedAddress
  bccAddresses : List NamedAddress
  replyToAddresses : List NamedAddress
  sentDate : Option DateTimeUtc
  inReplyTo : Option String
  references : List String
  snippet : String
  sizeBytes : Int
  attachments : List ExtractedAttachment
deriving DecidableEq

/-- The parser, a function of the blob and of its hash, which names a message that has no id. -/
abbrev ParseEml := ContentHash → Bytes → Except Error ParsedEml

def ParsedEml.message (parsed : ParsedEml) (contentHash : ContentHash)
    (attachments : List ParsedAttachment) : ParsedMessage where
  rfc822MessageId := parsed.rfc822MessageId
  contentHash := contentHash
  subject := parsed.subject
  fromAddress := parsed.fromAddress
  fromName := parsed.fromName
  toAddresses := parsed.toAddresses
  ccAddresses := parsed.ccAddresses
  bccAddresses := parsed.bccAddresses
  replyToAddresses := parsed.replyToAddresses
  sentDate := parsed.sentDate
  inReplyTo := parsed.inReplyTo
  references := parsed.references
  snippet := parsed.snippet
  sizeBytes := parsed.sizeBytes
  attachments := attachments

namespace ParseMessageHandler

def storeAttachments (accountId : AccountId) : List ExtractedAttachment → BackendAction (List ParsedAttachment)
  | [] => pure []
  | att :: atts => do
    let hash ← putAttachment accountId att.bytes
    let rest ← storeAttachments accountId atts
    return ⟨hash, att.filename, att.contentType, att.bytes.length, att.isInline, att.contentId⟩ :: rest

def handle (parseEml : ParseEml) (payload : ParseMessageJob) : BackendAction Unit := do
  let raw ← getRaw payload.accountId payload.contentHash
  let parsed ← liftResult (parseEml payload.contentHash raw)
  let attachments ← storeAttachments payload.accountId parsed.attachments
  let _ ← transact (.recordParsedMessage payload (parsed.message payload.contentHash attachments))

end ParseMessageHandler
end MailKeep
