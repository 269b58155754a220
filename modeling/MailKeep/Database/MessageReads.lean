import MailKeep.Database.Accounts

/-! The reads of single messages and of one account's messages. -/
namespace MailKeep
open Ranked

namespace MessageRepository

/-- The rows of the account in the order the list shows them. -/
def listing (db : Database) (accountId : AccountId) : List Message :=
  sortDesc listingKey (db.messages.rows.filter (·.accountId = accountId))

def listForAccount (accountId : AccountId) (limit offset : U32) : Transaction (List Message) := fun db =>
  if accountId = 0 then .error (.invalidId accountId)
  else .ok (page (listing db accountId) offset limit, db)

def findByIdForUser (userId : UserId) (messageId : MessageId) : Transaction (Option Message) := fun db =>
  if userId = 0 then .error (.invalidId userId)
  else if messageId = 0 then .error (.invalidId messageId)
  else .ok ((db.messages.find? messageId).filter (·.accountId ∈ db.ownedAccounts userId), db)

end MessageRepository

def MessageAttachmentRepository.listForMessage (messageId : MessageId) : Transaction (List MessageAttachment) := fun db =>
  if messageId = 0 then .error (.invalidId messageId)
  else .ok (db.attachments.rows.filter (·.messageId = messageId), db)

namespace MessageService

def getMessageWithAttachments (userId : UserId) (messageId : MessageId) :
    Transaction (Option (Message × List MessageAttachment)) := do
  match ← MessageRepository.findByIdForUser userId messageId with
  | none => return none
  | some message => do
    let attachments ← MessageAttachmentRepository.listForMessage message.id
    return some (message, attachments)

end MessageService
end MailKeep
