import MailKeep.Accounts.Installation
import MailKeep.Database.MessageReads
import MailKeep.Frontend.MessageList
import MailKeep.Pipeline.Workers

/-! The viewer of a message, in an installation whose sync passes, workers, indexer, deletions and pages go on. -/
namespace MailKeep
open Program

structure RenderedBody where
  html : Option String
  text : Option String
  hasRemoteContent : Bool
deriving DecidableEq

structure AttachmentDto where
  token : String
  filename : Option String
  contentType : String
  sizeBytes : Int
deriving DecidableEq

structure MessageViewDto where
  token : String
  subject : Option String
  sender : String
  recipients : List String
  cc : List String
  dateDisplay : Option String
  bodyHtml : Option String
  bodyText : Option String
  hasRemoteContent : Bool
  attachments : List AttachmentDto
deriving DecidableEq

/-- What the page takes from elsewhere: the texts of tokens and the renderer of a raw message. -/
structure ViewerParts where
  parseMessageToken : String → Except Error MessageId
  formatMessageToken : MessageId → String
  formatAttachmentToken : Nat → String
  render : Bytes → Bool → Except Error RenderedBody

/-- Whole seconds, rounded towards zero, in the largest unit they fill. -/
def relativeTime (date now : DateTimeUtc) : String :=
  let secs := (now - date).tdiv 1000000000
  if secs < 60 then "just now"
  else if secs / 60 < 60 then toString (secs / 60) ++ "m ago"
  else if secs / 60 / 60 < 24 then toString (secs / 60 / 60) ++ "h ago"
  else toString (secs / 60 / 60 / 24) ++ "d ago"

def NamedAddress.display (a : NamedAddress) : String := a.name.getD a.address

/-- `rendered` is missing where the blob is. -/
def buildDto (parts : ViewerParts) (message : Message) (attachments : List MessageAttachment)
    (rendered : Option RenderedBody) (now : DateTimeUtc) : MessageViewDto where
  token := parts.formatMessageToken message.id
  subject := message.subject
  sender := message.fromName.getD message.fromAddress
  recipients := message.toAddresses.map NamedAddress.display
  cc := message.ccAddresses.map NamedAddress.display
  dateDisplay := message.sentDate.map (relativeTime · now)
  bodyHtml := rendered.bind RenderedBody.html
  bodyText := rendered.bind RenderedBody.text
  hasRemoteContent := (rendered.map RenderedBody.hasRemoteContent).getD false
  attachments := attachments.map fun a => ⟨parts.formatAttachmentToken a.id, a.filename, a.contentType, a.sizeBytes⟩

/-- `retired` is a history: the ids of the accounts that have gone. -/
structure Viewing where
  installation : Installation
  retired : List AccountId

namespace Viewing

abbrev world (s : Viewing) : World := s.installation.world

def next (s : Viewing) (t : Installation) : Viewing where
  installation := t
  retired := (s.world.db.accounts.rows.filter fun a => (t.world.db.accounts.find? a.id).isNone).map Account.id ++ s.retired

def getMessage (s : Viewing) (userId : UserId) (messageId : MessageId) :
    Option DbErr → Except Error (Option (Message × List MessageAttachment))
  | some e => .error (.repositoryError (handleDberr e))
  | none => (MessageService.getMessageWithAttachments userId messageId s.world.db).map Prod.fst

end Viewing

inductive ViewingOp
  | installation (o : InstallationOp)
  | getMessage (userId : UserId) (messageId : MessageId)

abbrev ViewingOp.Value : ViewingOp → Type
  | installation o => o.Value
  | getMessage _ _ => Except Error (Option (Message × List MessageAttachment))

abbrev ViewingOp.Choice : ViewingOp → Type
  | installation o => o.Choice
  | getMessage _ _ => Option DbErr

abbrev viewingSignature : Signature := ⟨ViewingOp, ViewingOp.Value⟩

abbrev viewing (computeHash : Bytes → ContentHash) (platform : Platform) (cases : Unicode.CaseData) : Machine where
  toSignature := viewingSignature
  State := Viewing
  Choice := ViewingOp.Choice
  exec
    | .installation o, c, s =>
      let (reply, t) := (installation computeHash platform cases).exec o c s.installation
      (reply, s.next t)
    | .getMessage userId messageId, c, s => (s.getMessage userId messageId c, s)

abbrev ViewingAction (ε α : Type) := Action viewingSignature ε α

namespace Viewing

def onInstallation : Embedding installationSignature viewingSignature := ⟨.installation, fun _ r => r⟩

def onBackend : Embedding backendSignature viewingSignature := ⟨fun o => .installation (.backend o), fun _ r => r⟩

def onIndex : Embedding indexSignature viewingSignature := ⟨fun o => .installation (.index o), fun _ r => r⟩

def onUsers : Embedding userSignature viewingSignature := ⟨fun o => .installation (.user o), fun _ r => r⟩

def findMessage (userId : UserId) (messageId : MessageId) : ViewingAction Error (Option (Message × List MessageAttachment)) :=
  .mk (.call (ViewingOp.getMessage userId messageId) .ret)

end Viewing

/-- The body of a message whose blob is there; without it the headers are shown alone. -/
def fetchBody (parts : ViewerParts) (message : Message) (loadRemote : Bool) :
    ViewingAction ServerFnError (Option RenderedBody) := do
  match ← attempt (Viewing.onBackend.act (Backend.getRaw message.accountId message.contentHash)) with
  | .ok raw => do
    let rendered ← liftResult ((parts.render raw loadRemote).mapError toServerErr)
    return some rendered
  | .error (.blobNotFound _ _) => return none
  | .error e => throw (toServerErr e)

def viewMessage (parts : ViewerParts) (actor : Option AuthUser) (token : String) (loadRemote : Bool) :
    ViewingAction ServerFnError MessageViewDto := do
  let user ← liftResult (sessionUser actor)
  let messageId ← liftResult ((parts.parseMessageToken token).mapError toServerErr)
  match ← mapErr toServerErr (Viewing.findMessage user.id messageId) with
  | none => throw "message not found"
  | some (message, attachments) => do
    let rendered ← fetchBody parts message loadRemote
    let now ← Viewing.onBackend.act (ε := ServerFnError) (.mk (.call BackendOp.now fun now => .ret (.ok now)))
    return buildDto parts message attachments rendered now

inductive Errand
  | pass (accountId : AccountId) (folder : FolderConfig)
  | work
  | drain
  | page (request : UserAction ServerFnError Reply)
  | deleteAccount (actor : Option AuthUser) (accountToken : String)
  | view (actor : Option AuthUser) (token : String) (loadRemote : Bool)

section
variable (parts : ViewerParts) (parseEml : ParseEml) (tantivy : Tantivy) (extractBody : Bytes → Option String)
variable (parseAccountToken : String → Except Error AccountId)

def silently {ε α : Type} (text : ε → ServerFnError) (x : ViewingAction ε α) :
    ViewingAction ServerFnError (Option MessageViewDto) := do
  let _ ← mapErr text x
  return none

def Errand.program : Errand → ViewingAction ServerFnError (Option MessageViewDto)
  | pass accountId folder => silently toServerErr (Viewing.onBackend.act (passOnce accountId folder))
  | work => silently toServerErr (Viewing.onBackend.act (workOnce parseEml))
  | drain => silently toServerErr (Viewing.onIndex.act (drainOnce tantivy extractBody))
  | page request => silently id (Viewing.onUsers.act request)
  | deleteAccount actor accountToken =>
    silently id (Viewing.onInstallation.act (AccountActions.deleteAccount parseAccountToken actor accountToken))
  | view actor token loadRemote => do
    let dto ← viewMessage parts actor token loadRemote
    return some dto

end
end MailKeep
