import MailKeep.Database.MessageReads
import MailKeep.Keyed.Select
import Mathlib.Algebra.BigOperators.Group.List.Basic
import Mathlib.Algebra.Ring.Int.Defs

/-! What a user's requests read, and the rows they read it from. -/
namespace MailKeep
open Ranked

/-- Sizes are of plaintexts; an attachment that several messages of an account share counts once. -/
structure ArchiveStats where
  messageCount : Nat
  attachmentCount : Int
  storageBytes : Int
  accountCount : Nat
  lastSyncedAt : Option DateTimeUtc
deriving DecidableEq

def StatsRepository.archiveStats (db : Database) (userId : UserId) : ArchiveStats :=
  let messages := db.messages.rows.filter (·.accountId ∈ db.ownedAccounts userId)
  let attachments := db.attachments.rows.filter (·.accountId ∈ db.ownedAccounts userId)
  let distinctAttachments := (attachments.map fun t => (t.accountId, t.contentHash, t.sizeBytes)).dedup
  { messageCount := messages.length
    attachmentCount := (messages.map Message.attachmentCount).sum
    storageBytes := (messages.map fun m => m.sizeBytes).sum + (distinctAttachments.map fun t => t.2.2).sum
    accountCount := (AccountRepository.listForUser db userId).length
    lastSyncedAt := ((db.folders.rows.filter (·.accountId ∈ db.ownedAccounts userId)).filterMap Folder.lastSyncedAt).max? }

/-- Reads of a session of the user; the account list also reads when each account was last synced, which is left out. -/
inductive UserRead
  | listAccounts
  | getAccount (accountId : AccountId)
  | listFolders (accountId : AccountId)
  | listMessages (accountId : AccountId) (limit offset : U32)
  | getMessage (messageId : MessageId)
  | archiveStats

namespace UserRead

abbrev Result : UserRead → Type
  | listAccounts => List Account
  | getAccount _ => Account
  | listFolders _ => List Folder
  | listMessages _ _ _ => List Message
  | getMessage _ => Option (Message × List MessageAttachment)
  | archiveStats => ArchiveStats

/-- Folders and messages of an account are read behind the ownership gate. -/
def body (userId : UserId) : (r : UserRead) → Transaction r.Result
  | listAccounts => fun db => .ok (AccountRepository.listForUser db userId, db)
  | getAccount accountId => AccountService.ownAccount userId accountId
  | listFolders accountId => do
    let _ ← AccountService.ownAccount userId accountId
    fun db => (FolderRepository.listForAccount db accountId).map fun folders => (folders, db)
  | listMessages accountId limit offset => do
    let _ ← AccountService.ownAccount userId accountId
    MessageRepository.listForAccount accountId limit offset
  | getMessage messageId => MessageService.getMessageWithAttachments userId messageId
  | archiveStats => fun db => .ok (StatsRepository.archiveStats db userId, db)

def answer (userId : UserId) (db : Database) (r : UserRead) : Except Error r.Result := (r.body userId db).map Prod.fst

end UserRead

def Database.own (db : Database) (userId : UserId) : Database where
  accounts := db.accounts.filter (·.userId = userId)
  folders := db.folders.filter (·.accountId ∈ db.ownedAccounts userId)
  messages := db.messages.filter (·.accountId ∈ db.ownedAccounts userId)
  locations := .empty
  attachments := db.attachments.filter (·.accountId ∈ db.ownedAccounts userId)
  jobs := .empty
  nextJobId := 0

/-- Attachment rows are of the account of their message. -/
def Database.AttachedWithin (db : Database) : Prop :=
  ∀ t ∈ db.attachments, ∃ m ∈ db.messages, m.id = t.messageId ∧ m.accountId = t.accountId

section
variable {db : Database} {userId : UserId}

theorem Database.mem_ownedAccounts {accountId : AccountId} :
    accountId ∈ db.ownedAccounts userId ↔ ∃ a ∈ db.accounts, a.userId = userId ∧ a.id = accountId := by
  simp [ownedAccounts, AccountRepository.listForUser, Keyed.Table.mem_def, and_assoc]

@[simp] theorem Database.own_ownedAccounts : (db.own userId).ownedAccounts userId = db.ownedAccounts userId := by
  simp [ownedAccounts, AccountRepository.listForUser, own, Keyed.Table.filter]

/-- The gate looks at the user's rows only. -/
private theorem own_gate (accountId : AccountId) :
    AccountService.ownAccount userId accountId (db.own userId) =
      (AccountService.ownAccount userId accountId db).map fun r => (r.1, db.own userId) := by
  have found : AccountRepository.findByIdForUser userId accountId (db.own userId) =
      (AccountRepository.findByIdForUser userId accountId db).map fun r => (r.1, db.own userId) := by
    unfold AccountRepository.findByIdForUser
    split
    · rfl
    · change Except.ok (((db.accounts.filter (·.userId = userId)).find? accountId).filter _, _) = _
      rw [Keyed.Table.find?_filter, Option.filter_filter]
      simp [Except.map]
  change (AccountRepository.findByIdForUser userId accountId (db.own userId) >>= _) =
    (AccountRepository.findByIdForUser userId accountId db >>= _).map _
  rw [found]
  cases AccountRepository.findByIdForUser userId accountId db with
  | error e => rfl
  | ok r =>
    obtain ⟨r, db'⟩ := r
    cases r <;> rfl

/-- What is read behind the gate. -/
private theorem own_gated {α : Type} {accountId : AccountId} {rest : Transaction α}
    (own : accountId ∈ db.ownedAccounts userId → (rest (db.own userId)).map Prod.fst = (rest db).map Prod.fst) :
    ((AccountService.ownAccount userId accountId >>= fun _ => rest) (db.own userId)).map Prod.fst =
      ((AccountService.ownAccount userId accountId >>= fun _ => rest) db).map Prod.fst := by
  change ((AccountService.ownAccount userId accountId (db.own userId)) >>= fun r => rest r.2).map Prod.fst =
    ((AccountService.ownAccount userId accountId db) >>= fun r => rest r.2).map Prod.fst
  rw [own_gate]
  cases passed : AccountService.ownAccount userId accountId db with
  | error e => rfl
  | ok r =>
    obtain ⟨account, db'⟩ := r
    obtain ⟨rfl, there, rfl, of_user⟩ := AccountService.ownAccount_ok passed
    exact own (Database.mem_ownedAccounts.mpr ⟨account, there, of_user, rfl⟩)

private theorem own_listForAccount {accountId : AccountId} (own : accountId ∈ db.ownedAccounts userId) :
    FolderRepository.listForAccount (db.own userId) accountId = FolderRepository.listForAccount db accountId := by
  unfold FolderRepository.listForAccount
  split
  · rfl
  · refine congrArg (Except.ok ·.rows) (Keyed.Table.filter_filter_of_imp (t := db.folders) fun f _ same => ?_)
    rw [decide_eq_true_eq] at same ⊢
    exact same ▸ own

private theorem own_listing {accountId : AccountId} (own : accountId ∈ db.ownedAccounts userId) :
    MessageRepository.listing (db.own userId) accountId = MessageRepository.listing db accountId := by
  refine congrArg (sortDesc listingKey ·.rows) (Keyed.Table.filter_filter_of_imp (t := db.messages) fun m _ same => ?_)
  rw [decide_eq_true_eq] at same ⊢
  exact same ▸ own

theorem MessageRepository.findByIdForUser_ok {messageId : MessageId} {found : Option Message} {db' : Database}
    (h : findByIdForUser userId messageId db = .ok (found, db')) :
    db' = db ∧ ∀ m, found = some m → m ∈ db.messages ∧ m.accountId ∈ db.ownedAccounts userId := by
  unfold findByIdForUser at h
  split at h
  · cases h
  · split at h
    · cases h
    · cases h
      refine ⟨rfl, fun m there => ?_⟩
      obtain ⟨stored, own⟩ := Option.filter_eq_some_iff.mp there
      exact ⟨(Keyed.Table.find?_eq_some.mp stored).1, of_decide_eq_true own⟩

/-- The attachments of a message of the user's are the user's too. -/
private theorem own_listForMessage (within : db.AttachedWithin) {m : Message} (stored : m ∈ db.messages)
    (own : m.accountId ∈ db.ownedAccounts userId) :
    (MessageAttachmentRepository.listForMessage m.id (db.own userId)).map Prod.fst =
      (MessageAttachmentRepository.listForMessage m.id db).map Prod.fst := by
  unfold MessageAttachmentRepository.listForMessage
  split
  · rfl
  · refine congrArg (Except.ok ·.rows) (Keyed.Table.filter_filter_of_imp (t := db.attachments) fun t attached same => ?_)
    rw [decide_eq_true_eq] at same ⊢
    obtain ⟨m', stored', of_message, of_account⟩ := within t attached
    rw [← of_account, Keyed.Table.eq_of_key stored' stored (of_message.trans same)]
    exact own

private theorem own_getMessage (within : db.AttachedWithin) (messageId : MessageId) :
    (MessageService.getMessageWithAttachments userId messageId (db.own userId)).map Prod.fst =
      (MessageService.getMessageWithAttachments userId messageId db).map Prod.fst := by
  have found : MessageRepository.findByIdForUser userId messageId (db.own userId) =
      (MessageRepository.findByIdForUser userId messageId db).map fun r => (r.1, db.own userId) := by
    unfold MessageRepository.findByIdForUser
    split
    · rfl
    · split
      · rfl
      · rw [Database.own_ownedAccounts]
        change Except.ok (((db.messages.filter _).find? messageId).filter _, _) = _
        rw [Keyed.Table.find?_filter, Option.filter_filter]
        simp [Except.map]
  change (MessageRepository.findByIdForUser userId messageId (db.own userId) >>= _).map _ =
    (MessageRepository.findByIdForUser userId messageId db >>= _).map _
  rw [found]
  cases read : MessageRepository.findByIdForUser userId messageId db with
  | error e => rfl
  | ok r =>
    obtain ⟨message?, db'⟩ := r
    obtain ⟨rfl, own⟩ := MessageRepository.findByIdForUser_ok read
    cases message? with
    | none => rfl
    | some m =>
      have same := own_listForMessage within (own m rfl).1 (own m rfl).2
      have joined (x : Except Error (List MessageAttachment × Database)) :
          (x >>= fun r => Except.ok (some (m, r.1), r.2)).map Prod.fst =
            (x.map Prod.fst).map fun attachments => some (m, attachments) := by
        cases x <;> rfl
      change (MessageAttachmentRepository.listForMessage m.id (db'.own userId) >>= fun r =>
          Except.ok (some (m, r.1), r.2)).map Prod.fst =
        (MessageAttachmentRepository.listForMessage m.id db' >>= fun r => Except.ok (some (m, r.1), r.2)).map Prod.fst
      rw [joined, joined, same]

private theorem own_archiveStats : StatsRepository.archiveStats
    (db.own userId) userId = StatsRepository.archiveStats db userId := by
  have accounts : AccountRepository.listForUser (db.own userId) userId = AccountRepository.listForUser db userId :=
    congrArg (·.rows) (Keyed.Table.filter_filter_of_imp (t := db.accounts) fun _ _ own => own)
  have folders : (db.own userId).folders.rows.filter (·.accountId ∈ db.ownedAccounts userId) =
      db.folders.rows.filter (·.accountId ∈ db.ownedAccounts userId) :=
    congrArg (·.rows) (Keyed.Table.filter_filter_of_imp (t := db.folders) fun _ _ own => own)
  have messages : (db.own userId).messages.rows.filter (·.accountId ∈ db.ownedAccounts userId) =
      db.messages.rows.filter (·.accountId ∈ db.ownedAccounts userId) :=
    congrArg (·.rows) (Keyed.Table.filter_filter_of_imp (t := db.messages) fun _ _ own => own)
  have attachments : (db.own userId).attachments.rows.filter (·.accountId ∈ db.ownedAccounts userId) =
      db.attachments.rows.filter (·.accountId ∈ db.ownedAccounts userId) :=
    congrArg (·.rows) (Keyed.Table.filter_filter_of_imp (t := db.attachments) fun _ _ own => own)
  unfold StatsRepository.archiveStats
  rw [Database.own_ownedAccounts, accounts, folders, messages, attachments]

/-- A user's reads see the rows of the user's own accounts and nothing else. -/
theorem UserRead.answer_own (within : db.AttachedWithin) (r : UserRead) :
    r.answer userId (db.own userId) = r.answer userId db := by
  cases r with
  | listAccounts =>
    exact congrArg (Except.ok ·.rows) (Keyed.Table.filter_filter_of_imp (t := db.accounts) fun _ _ own => own)
  | getAccount accountId =>
    unfold answer
    change (AccountService.ownAccount userId accountId (db.own userId)).map Prod.fst = _
    rw [own_gate]
    change _ = (AccountService.ownAccount userId accountId db).map Prod.fst
    cases AccountService.ownAccount userId accountId db <;> rfl
  | listFolders accountId =>
    refine own_gated fun own => ?_
    rw [own_listForAccount own]
    cases FolderRepository.listForAccount db accountId <;> rfl
  | listMessages accountId limit offset =>
    refine own_gated fun own => ?_
    unfold MessageRepository.listForAccount
    rw [own_listing own]
    split <;> rfl
  | getMessage messageId => exact own_getMessage within messageId
  | archiveStats => exact congrArg Except.ok own_archiveStats

end
end MailKeep
