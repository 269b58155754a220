import MailKeep.Imap.SyncFolder
import MailKeep.Jobs.Worker
import MailKeep.Parser.Handler

/-! Sync passes and parse workers side by side, over the server, the blob stores and the database they share. -/
namespace MailKeep
open Program Backend

def Report.of : Except Error Unit → Report
  | .ok () => .complete
  | .error e => if e.isTransient then .fail e.text else .failTerminal e.text

def Report.send (job : Job) : Report → BackendAction Job
  | complete => transact (.complete job)
  | fail error => transact (.fail job error)
  | failTerminal error => transact (.failTerminal job error)

def dispatch (parseEml : ParseEml) (job : Job) : BackendAction Unit :=
  if job.jobType = "parse_message" then ParseMessageHandler.handle parseEml job.payload
  else throw (.infrastructure ("no handler registered for job type '" ++ job.jobType ++ "'"))

/-- One turn of the loop of `JobWorker::run` up to what it does to the backend: waiting and shutdown are left out. -/
def workOnce (parseEml : ParseEml) : BackendAction Unit := do
  match ← transact .claimNext with
  | none => pure ()
  | some job =>
    let outcome ← attempt (dispatch parseEml job)
    let _ ← (Report.of outcome).send job

def passOnce (accountId : AccountId) (folder : FolderConfig) : BackendAction Unit := do
  let _ ← syncFolder accountId folder

/-- Any number of passes, over folders that are there, and of turns of workers. -/
def pipelineSystem {computeHash : Bytes → ContentHash} {ι : Type} (parseEml : ParseEml)
    (allowed : (backend computeHash).Allowed) : System (backend computeHash) ι (Except Error Unit) where
  allowed := allowed
  root s _ p := (∃ accountId folder, s.db.Knows accountId folder.id ∧ p = (passOnce accountId folder).run) ∨
    p = (workOnce parseEml).run
  env _ _ := False
  crash _ _ := False

def plainMail : ParsedEml where
  rfc822MessageId := ""
  subject := none
  fromAddress := "you@example.org"
  fromName := none
  toAddresses := []
  ccAddresses := []
  bccAddresses := []
  replyToAddresses := []
  sentDate := none
  inReplyTo := none
  references := []
  snippet := ""
  sizeBytes := 1
  attachments := []

end MailKeep
