import MailKeep.Accounts.Announcements
import MailKeep.Accounts.Deletion
import MailKeep.Accounts.FolderSelection
import MailKeep.Database.UserReads
import MailKeep.Pipeline.Backend

/-! What one user reads is changed by writes to the user's own accounts only. -/
namespace MailKeep

theorem FolderRepository.create_inserts {row saved : Folder} {db db' : Database}
    (h : FolderRepository.create row db = .ok (saved, db')) :
    db' = { db with folders := db'.folders } ∧ db.folders.insert row = some db'.folders := by
  unfold FolderRepository.create at h
  split at h
  · cases h
  · split at h
    · cases h
    · split at h
      · cases h
      · rename_i inserted
        cases h
        exact ⟨rfl, inserted⟩

theorem MessageAttachmentRepository.create_inserts {row saved : MessageAttachment} {db db' : Database}
    (h : MessageAttachmentRepository.create row db = .ok (saved, db')) :
    db' = { db with attachments := db'.attachments } ∧ db.attachments.insert row = some db'.attachments := by
  unfold MessageAttachmentRepository.create at h
  split at h
  · cases h
  · split at h
    · cases h
    · split at h
      · cases h
      · split at h
        · cases h
        · rename_i inserted
          cases h
          exact ⟨rfl, inserted⟩

structure Database.SameFor (userId : UserId) (db db' : Database) : Prop where
  accounts : db'.accounts.filter (·.userId = userId) = db.accounts.filter (·.userId = userId)
  folders : db'.folders.filter (·.accountId ∈ db.ownedAccounts userId) =
    db.folders.filter (·.accountId ∈ db.ownedAccounts userId)
  messages : db'.messages.filter (·.accountId ∈ db.ownedAccounts userId) =
    db.messages.filter (·.accountId ∈ db.ownedAccounts userId)
  attachments : db'.attachments.filter (·.accountId ∈ db.ownedAccounts userId) =
    db.attachments.filter (·.accountId ∈ db.ownedAccounts userId)

namespace Database.SameFor
variable {userId : UserId} {db db' db'' : Database}

theorem refl (userId : UserId) (db : Database) : SameFor userId db db := ⟨rfl, rfl, rfl, rfl⟩

theorem owned (h : SameFor userId db db') : db'.ownedAccounts userId = db.ownedAccounts userId :=
  congrArg (fun t => t.rows.map Account.id) h.accounts

theorem trans (h : SameFor userId db db') (h' : SameFor userId db' db'') : SameFor userId db db'' := by
  obtain ⟨accounts, folders, messages, attachments⟩ := h'
  rw [h.owned] at folders messages attachments
  exact ⟨accounts.trans h.accounts, folders.trans h.folders, messages.trans h.messages,
    attachments.trans h.attachments⟩

private theorem own_eq (h : SameFor userId db db') : db'.own userId = db.own userId := by
  unfold own
  rw [h.owned, h.accounts, h.folders, h.messages, h.attachments]

/-- A write to other tables. -/
theorem elsewhere (accounts : db'.accounts = db.accounts) (folders : db'.folders = db.folders)
    (messages : db'.messages = db.messages) (attachments : db'.attachments = db.attachments) :
    SameFor userId db db' := by
  refine ⟨?_, ?_, ?_, ?_⟩
  · rw [accounts]
  · rw [folders]
  · rw [messages]
  · rw [attachments]

/-- A rewrite of another user's account. -/
theorem updateAccount {accountId : AccountId} {f : Account → Account} {hf : ∀ a, (f a).id = a.id}
    (user : ∀ a, (f a).userId = a.userId) (foreign : accountId ∉ db.ownedAccounts userId) :
    SameFor userId db (db.updateAccount accountId f hf) := by
  refine ⟨@Keyed.Table.filter_update_out _ _ _ _ _ _ f hf fun a there same => ?_, rfl, rfl, rfl⟩
  have other : a.userId ≠ userId := fun own =>
    foreign (Database.mem_ownedAccounts.mpr ⟨a, there, own, of_decide_eq_true same⟩)
  rw [user a]
  exact ⟨decide_eq_false other, decide_eq_false other⟩

/-- A rewrite of a folder of another user's account. -/
private theorem updateFolder {folderId : FolderId} {f : Folder → Folder} {hf : ∀ r, (f r).id = r.id}
    (account : ∀ r, (f r).accountId = r.accountId)
    (foreign : ∀ r ∈ db.folders, r.id = folderId → r.accountId ∉ db.ownedAccounts userId) :
    SameFor userId db { db with folders := db.folders.update (·.id = folderId) f hf } := by
  refine ⟨rfl, @Keyed.Table.filter_update_out _ _ _ _ _ _ f hf fun r there same => ?_, rfl, rfl⟩
  have other := foreign r there (of_decide_eq_true same)
  rw [account r]
  exact ⟨decide_eq_false other, decide_eq_false other⟩

/-- Accounts that go with all that hangs on them, when none is the user's. -/
theorem deleteAccounts (within : db.AttachedWithin) {gone : AccountId → Bool}
    (foreign : ∀ a ∈ db.ownedAccounts userId, gone a = false) : SameFor userId db (db.deleteAccounts gone) := by
  refine ⟨?_, ?_, ?_, ?_⟩
  · refine Keyed.Table.filter_filter_of_imp fun a there own => ?_
    rw [foreign a.id (Database.mem_ownedAccounts.mpr ⟨a, there, of_decide_eq_true own, rfl⟩)]
    rfl
  · refine Keyed.Table.filter_filter_of_imp fun f _ own => ?_
    rw [foreign _ (of_decide_eq_true own)]
    rfl
  · refine Keyed.Table.filter_filter_of_imp fun m _ own => ?_
    rw [foreign _ (of_decide_eq_true own)]
    rfl
  · refine Keyed.Table.filter_filter_of_imp fun t there own => ?_
    obtain ⟨m, stored, of_message, of_account⟩ := within t there
    have found : db.messages.find? t.messageId = some m := Keyed.Table.find?_eq_some.mpr ⟨stored, of_message⟩
    dsimp only
    rw [found, Option.any_some, of_account, foreign _ (of_decide_eq_true own)]
    rfl

/-- New folders of another user's account. -/
theorem createRows {accountId : AccountId} (foreign : accountId ∉ db.ownedAccounts userId) {rows : List NewFolderRow}
    {saved : List Folder} (h : FolderRepository.createRows accountId rows db = .ok (saved, db')) :
    SameFor userId db db' := by
  induction rows generalizing saved db with
  | nil =>
    obtain ⟨-, rfl⟩ := Transaction.pure_eq_ok.mp h
    exact .refl userId db
  | cons new rest ih =>
    unfold FolderRepository.createRows at h
    split at h
    · cases h
    · obtain ⟨_, mid, first, h⟩ := Transaction.bind_eq_ok.mp h
      obtain ⟨_, _, others, h⟩ := Transaction.bind_eq_ok.mp h
      obtain ⟨-, rfl⟩ := Transaction.pure_eq_ok.mp h
      have one : SameFor userId db mid := by
        obtain ⟨rest, inserted⟩ := FolderRepository.create_inserts first
        rw [rest]
        exact ⟨rfl, Keyed.Table.filter_insert_out inserted (decide_eq_false foreign), rfl, rfl⟩
      exact one.trans (ih (one.owned ▸ foreign) others)

/-- Attachment rows of another user's account. -/
theorem createMany {accountId : AccountId} (foreign : accountId ∉ db.ownedAccounts userId)
    {rows saved : List MessageAttachment} (of_account : ∀ t ∈ rows, t.accountId = accountId)
    (h : MessageAttachmentRepository.createMany rows db = .ok (saved, db')) : SameFor userId db db' := by
  induction rows generalizing saved db with
  | nil =>
    obtain ⟨-, rfl⟩ := Transaction.pure_eq_ok.mp h
    exact .refl userId db
  | cons row rows ih =>
    obtain ⟨_, mid, first, h⟩ := Transaction.bind_eq_ok.mp h
    obtain ⟨_, _, others, h⟩ := Transaction.bind_eq_ok.mp h
    obtain ⟨-, rfl⟩ := Transaction.pure_eq_ok.mp h
    have one : SameFor userId db mid := by
      obtain ⟨rest, inserted⟩ := MessageAttachmentRepository.create_inserts first
      rw [rest]
      refine ⟨rfl, rfl, rfl, Keyed.Table.filter_insert_out inserted (decide_eq_false ?_)⟩
      rw [of_account row List.mem_cons_self]
      exact foreign
    exact one.trans (ih (one.owned ▸ foreign) (fun t later => of_account t (List.mem_cons_of_mem row later)) others)

/-- A recording in another user's account. -/
theorem record {accountId : AccountId} (foreign : accountId ∉ db.ownedAccounts userId) {tokens : RecordTokens}
    {folderId : FolderId} {uid uidvalidity : U32} {internalDate : DateTimeUtc} {flags : MessageFlags}
    {parsed : ParsedMessage} {r : RecordedMessage}
    (h : recordParsedMessage tokens accountId folderId uid uidvalidity internalDate flags parsed db = .ok (r, db')) :
    SameFor userId db db' := by
  obtain ⟨recorded, mid, found, h⟩ := Transaction.bind_eq_ok.mp h
  obtain ⟨saved, _, placed, h⟩ := Transaction.bind_eq_ok.mp h
  obtain ⟨rfl, rfl⟩ := Transaction.pure_eq_ok.mp h
  have archived : SameFor userId db mid := by
    rcases findOrCreateMessage_cases found with ⟨_, _, _, rfl⟩ | ⟨created, _, message, attachments, -⟩
    · exact .refl userId mid
    · obtain ⟨-, rest, inserted⟩ := MessageRepository.create_ok message
      have first : SameFor userId db created := by
        rw [rest]
        exact ⟨rfl, rfl, Keyed.Table.filter_insert_out inserted (decide_eq_false foreign), rfl⟩
      refine first.trans (createMany (first.owned ▸ foreign) ?_ attachments)
      intro t there
      obtain ⟨⟨a, i⟩, -, rfl⟩ := List.mem_map.mp there
      rfl
  obtain ⟨rest, -⟩ := MessageLocationRepository.upsert_ok placed
  rw [rest]
  exact archived.trans (.elsewhere rfl rfl rfl rfl)

end Database.SameFor
namespace Database.AttachedWithin
variable {db db' : Database}

theorem of_same (h : db.AttachedWithin) (messages : db'.messages = db.messages)
    (attachments : db'.attachments = db.attachments) : db'.AttachedWithin := by
  unfold AttachedWithin
  rw [messages, attachments]
  exact h

theorem deleteAccounts (h : db.AttachedWithin) (gone : AccountId → Bool) : (db.deleteAccounts gone).AttachedWithin := by
  intro t there
  obtain ⟨attached, kept⟩ := Keyed.Table.mem_filter.mp there
  rw [Bool.and_eq_true] at kept
  obtain ⟨m, stored, of_message, of_account⟩ := h t attached
  exact ⟨m, Keyed.Table.mem_filter.mpr ⟨stored, of_account.symm ▸ kept.2⟩, of_message, of_account⟩

theorem createMany (h : db.AttachedWithin) {rows saved : List MessageAttachment}
    (of_message : ∀ t ∈ rows, ∃ m ∈ db.messages, m.id = t.messageId ∧ m.accountId = t.accountId)
    (created : MessageAttachmentRepository.createMany rows db = .ok (saved, db')) : db'.AttachedWithin := by
  induction rows generalizing saved db with
  | nil =>
    obtain ⟨-, rfl⟩ := Transaction.pure_eq_ok.mp created
    exact h
  | cons row rows ih =>
    obtain ⟨_, mid, first, created⟩ := Transaction.bind_eq_ok.mp created
    obtain ⟨_, _, others, created⟩ := Transaction.bind_eq_ok.mp created
    obtain ⟨-, rfl⟩ := Transaction.pure_eq_ok.mp created
    obtain ⟨rest, inserted⟩ := MessageAttachmentRepository.create_inserts first
    have messages : mid.messages = db.messages := by rw [rest]
    refine ih (fun t there => ?_) (fun t later => messages ▸ of_message t (List.mem_cons_of_mem row later)) others
    rw [messages]
    rcases (Keyed.Table.mem_of_insert inserted).mp there with before | rfl
    · exact h t before
    · exact of_message t List.mem_cons_self

theorem record (h : db.AttachedWithin) {accountId : AccountId} {tokens : RecordTokens}
    {folderId : FolderId} {uid uidvalidity : U32} {internalDate : DateTimeUtc} {flags : MessageFlags}
    {parsed : ParsedMessage} {r : RecordedMessage}
    (recorded : recordParsedMessage tokens accountId folderId uid uidvalidity internalDate flags parsed db = .ok (r, db')) :
    db'.AttachedWithin := by
  obtain ⟨_, mid, found, recorded⟩ := Transaction.bind_eq_ok.mp recorded
  obtain ⟨_, _, placed, recorded⟩ := Transaction.bind_eq_ok.mp recorded
  obtain ⟨rfl, rfl⟩ := Transaction.pure_eq_ok.mp recorded
  have archived : mid.AttachedWithin := by
    rcases findOrCreateMessage_cases found with ⟨_, _, _, rfl⟩ | ⟨created, _, message, attachments, -⟩
    · exact h
    · obtain ⟨-, rest, inserted⟩ := MessageRepository.create_ok message
      refine createMany (fun t there => ?_) (fun t there => ?_) attachments
      · rw [rest] at there
        obtain ⟨m, stored, same⟩ := h t there
        exact ⟨m, (Keyed.Table.mem_of_insert inserted).mpr (.inl stored), same⟩
      · obtain ⟨⟨a, i⟩, -, rfl⟩ := List.mem_map.mp there
        exact ⟨_, (Keyed.Table.mem_of_insert inserted).mpr (.inr rfl), rfl, rfl⟩
  obtain ⟨rest, -⟩ := MessageLocationRepository.upsert_ok placed
  rw [rest]
  exact archived.of_same rfl rfl

end Database.AttachedWithin

/-- The writes of account calls, passes and workers; the indexer's marks on message rows are left out. -/
inductive DatabaseWrite
  | account (w : AccountWrite)
  | createFolders (accountId : AccountId) (folders : List NewFolderRow)
  | setFolderEnabled (folderId : FolderId) (enabled : Bool)
  | archive (d : Draw) (t : Txn)

namespace DatabaseWrite

def body (users : Users) (db : Database) : DatabaseWrite → Except Error (Users × Database)
  | account w => (w.body users db).map Prod.snd
  | createFolders accountId folders => (FolderRepository.createMany accountId folders db).map fun r => (users, r.2)
  | setFolderEnabled folderId enabled => (FolderRepository.updateEnabled folderId enabled db).map fun r => (users, r.2)
  | archive d t => (t.body d db).map fun r => (users, r.2)

/-- A transaction that fails leaves the store as it was. -/
def apply (users : Users) (db : Database) (w : DatabaseWrite) : Users × Database :=
  match w.body users db with
  | .ok s => s
  | .error _ => (users, db)

def FolderOf (db : Database) (userId : UserId) (folderId : FolderId) : Prop :=
  ∃ f ∈ db.folders, f.id = folderId ∧ f.accountId ∈ db.ownedAccounts userId

/-- The write is the user's own, or it is made for one of the user's accounts. -/
def Concerns (db : Database) (userId : UserId) : DatabaseWrite → Prop
  | account (.insert new) => new.userId = userId
  | account (.update actor _ _ _) | account (.enable actor _) | account (.disable actor _)
  | account (.delete actor _) | account (.deleteUser actor) => actor = userId
  | account (.setStatus accountId _ _) | createFolders accountId _ => accountId ∈ db.ownedAccounts userId
  | setFolderEnabled folderId _ | archive _ (.recordSyncProgress folderId _ _ _) => FolderOf db userId folderId
  | archive _ (.recordParsedMessage payload _) => payload.accountId ∈ db.ownedAccounts userId
  | archive _ _ => False

variable {users : Users} {db db' : Database} {userId : UserId}

/-- The transactions on jobs touch no other table. -/
private theorem jobs_elsewhere {t : Txn} {d : Draw} {r : t.Result} (h : t.body d db = .ok (r, db')) :
    (db'.accounts = db.accounts ∧ db'.folders = db.folders ∧ db'.messages = db.messages ∧
      db'.attachments = db.attachments) ∨
    (∃ folderId uidvalidity lastUid syncedAt, t = .recordSyncProgress folderId uidvalidity lastUid syncedAt ∧
      db' = db.setSyncState folderId uidvalidity lastUid syncedAt) ∨
    ∃ payload parsed, t = .recordParsedMessage payload parsed := by
  have rewritten {f : Job → Job} {j : Job} (w : Job.Rewritten f j db db') :
      db'.accounts = db.accounts ∧ db'.folders = db.folders ∧ db'.messages = db.messages ∧
        db'.attachments = db.attachments := by
    rw [w.rest]
    exact ⟨rfl, rfl, rfl, rfl⟩
  cases t with
  | enqueueRaw jobType payload priority =>
    obtain ⟨-, -, rest, -⟩ := JobRepository.enqueueRaw_ok h
    rw [rest]
    exact .inl ⟨rfl, rfl, rfl, rfl⟩
  | recordSyncProgress folderId uidvalidity lastUid syncedAt =>
    exact .inr (.inl ⟨folderId, uidvalidity, lastUid, syncedAt, rfl, (FolderRepository.updateSyncState_ok h).2⟩)
  | deleteLocationsForFolder folderId =>
    rw [MessageLocationRepository.deleteByFolderId_ok h]
    exact .inl ⟨rfl, rfl, rfl, rfl⟩
  | recordParsedMessage payload parsed => exact .inr (.inr ⟨payload, parsed, rfl⟩)
  | claimNext =>
    rcases JobRepository.claimNext_ok h with ⟨-, rfl⟩ | ⟨j, -, -, -, w⟩
    · exact .inl ⟨rfl, rfl, rfl, rfl⟩
    · exact .inl (rewritten w)
  | complete job =>
    obtain ⟨j, -, -, w⟩ := JobRepository.complete_ok h
    exact .inl (rewritten w)
  | fail job error =>
    obtain ⟨j, -, -, w | ⟨-, w⟩⟩ := JobRepository.fail_ok h
    · exact .inl (rewritten w)
    · exact .inl (rewritten w)
  | failTerminal job error =>
    obtain ⟨j, -, -, w⟩ := JobRepository.failTerminal_ok h
    exact .inl (rewritten w)

theorem map_ok {α β : Type} {x : Except Error α} {f : α → β} {b : β} (h : x.map f = .ok b) :
    ∃ a, x = .ok a ∧ f a = b := by
  cases x with
  | error e => cases h
  | ok a => exact ⟨a, rfl, Except.ok.inj h⟩

theorem onAccounts_ok {α : Type} {t : Transaction α} {a : α} {users' : Users}
    (h : AccountWrite.onAccounts users t db = .ok (a, users', db')) : t db = .ok (a, db') := by
  obtain ⟨⟨a', mid⟩, run, same⟩ := map_ok h
  cases same
  exact run

/-- An account of one user is none of another's. -/
private theorem not_owned {accountId : AccountId} {account : Account} {actor : UserId} (there : account ∈ db.accounts)
    (same : account.id = accountId) (own : account.userId = actor) (other : actor ≠ userId) :
    accountId ∉ db.ownedAccounts userId := by
  intro owned
  obtain ⟨a, there', own', same'⟩ := Database.mem_ownedAccounts.mp owned
  obtain rfl := Keyed.Table.eq_of_key there' there (same'.trans same.symm)
  exact other (own.symm.trans own')

private theorem updated_userId (account existing : Account) : (account.updated existing).userId = existing.userId := by
  unfold Account.updated
  dsimp only
  split <;> rfl

private theorem setFlags_same {actor : UserId} {accountId : AccountId} {enabled : Bool} {status : AccountStatus}
    {account : Account} (other : actor ≠ userId)
    (h : (do
      let account ← AccountService.ownAccount actor accountId
      AccountRepository.setEnabled accountId enabled
      AccountRepository.setStatus accountId status none
      return account : Transaction Account) db = .ok (account, db')) :
    Database.SameFor userId db db' := by
  obtain ⟨a, _, passed, -⟩ := Transaction.bind_eq_ok.mp h
  obtain ⟨-, there, same, own⟩ := AccountService.ownAccount_ok passed
  have foreign := not_owned there same own other
  rw [AccountService.setFlags_ok h]
  have first : Database.SameFor userId db (db.updateAccount accountId (·.setEnabled enabled) fun _ => rfl) :=
    .updateAccount (fun _ => rfl) foreign
  exact first.trans (.updateAccount (fun _ => rfl) (first.owned ▸ foreign))

private theorem account_same {w : AccountWrite} {r : w.Result} {users' : Users} (within : db.AttachedWithin)
    (foreign : ¬ Concerns db userId (.account w)) (h : w.body users db = .ok (r, users', db')) :
    Database.SameFor userId db db' := by
  cases w with
  | insert new =>
    have inserted := onAccounts_ok h
    unfold AccountRepository.insert at inserted
    split at inserted
    · cases inserted
    · split at inserted
      · cases inserted
      · rename_i fresh
        cases inserted
        exact ⟨Keyed.Table.filter_insert_out fresh (decide_eq_false foreign), rfl, rfl, rfl⟩
  | update actor accountId expectedVersion change =>
    obtain ⟨existing, there, same, own, -, -, rfl⟩ := AccountService.updateAccount_ok (onAccounts_ok h)
    exact .updateAccount (fun a => updated_userId _ a) (not_owned there same own foreign)
  | enable actor accountId => exact setFlags_same foreign (onAccounts_ok h)
  | disable actor accountId => exact setFlags_same foreign (onAccounts_ok h)
  | setStatus accountId status lastError =>
    rw [AccountRepository.rewrite_ok (onAccounts_ok h)]
    exact .updateAccount (fun _ => rfl) foreign
  | delete actor accountId =>
    have deleted := onAccounts_ok h
    obtain ⟨existing, _, passed, -⟩ := Transaction.bind_eq_ok.mp deleted
    obtain ⟨-, there, same, own⟩ := AccountService.ownAccount_ok passed
    obtain ⟨-, -, rfl⟩ := AccountService.deleteAccount_ok deleted
    refine .deleteAccounts within fun a owned => decide_eq_false ?_
    rintro rfl
    exact not_owned there same own foreign owned
  | deleteUser id =>
    obtain ⟨_, -, same⟩ := map_ok h
    cases same
    refine .deleteAccounts within fun a owned => ?_
    obtain ⟨account, there, own, rfl⟩ := Database.mem_ownedAccounts.mp owned
    have found : db.accounts.find? account.id = some account := Keyed.Table.find?_eq_some.mpr ⟨there, rfl⟩
    rw [found, Option.any_some, own]
    exact decide_eq_false fun same => foreign same.symm

private theorem account_attached {w : AccountWrite} {r : w.Result} {users' : Users} (within : db.AttachedWithin)
    (h : w.body users db = .ok (r, users', db')) : db'.AttachedWithin := by
  cases w with
  | insert new =>
    have inserted := onAccounts_ok h
    unfold AccountRepository.insert at inserted
    split at inserted
    · cases inserted
    · split at inserted
      · cases inserted
      · cases inserted
        exact within
  | update actor accountId expectedVersion change =>
    obtain ⟨_, -, -, -, -, -, rfl⟩ := AccountService.updateAccount_ok (onAccounts_ok h)
    exact within
  | enable actor accountId =>
    rw [AccountService.setFlags_ok (onAccounts_ok h)]
    exact within
  | disable actor accountId =>
    rw [AccountService.setFlags_ok (onAccounts_ok h)]
    exact within
  | setStatus accountId status lastError =>
    rw [AccountRepository.rewrite_ok (onAccounts_ok h)]
    exact within
  | delete actor accountId =>
    obtain ⟨-, -, rfl⟩ := AccountService.deleteAccount_ok (onAccounts_ok h)
    exact within.deleteAccounts _
  | deleteUser id =>
    obtain ⟨_, -, same⟩ := map_ok h
    cases same
    exact within.deleteAccounts _

theorem createMany_rows {accountId : AccountId} {folders : List NewFolderRow} {saved : List Folder}
    (h : FolderRepository.createMany accountId folders db = .ok (saved, db')) :
    FolderRepository.createRows accountId folders db = .ok (saved, db') := by
  unfold FolderRepository.createMany at h
  split at h
  · cases h
  · exact h

private theorem createRows_rest {accountId : AccountId} {rows : List NewFolderRow} {saved : List Folder}
    (h : FolderRepository.createRows accountId rows db = .ok (saved, db')) : db' = { db with folders := db'.folders } := by
  induction rows generalizing saved db with
  | nil =>
    obtain ⟨-, rfl⟩ := Transaction.pure_eq_ok.mp h
    rfl
  | cons new rest ih =>
    unfold FolderRepository.createRows at h
    split at h
    · cases h
    · obtain ⟨_, mid, first, h⟩ := Transaction.bind_eq_ok.mp h
      obtain ⟨_, _, others, h⟩ := Transaction.bind_eq_ok.mp h
      obtain ⟨-, rfl⟩ := Transaction.pure_eq_ok.mp h
      have later := ih others
      rw [(FolderRepository.create_inserts first).1] at later
      exact later

theorem updateEnabled_ok {folderId : FolderId} {enabled : Bool} {u : Unit}
    (h : FolderRepository.updateEnabled folderId enabled db = .ok (u, db')) : db' = db.setFolderEnabled folderId enabled := by
  unfold FolderRepository.updateEnabled at h
  split at h
  · cases h
  · split at h
    · cases h
    · cases h
      rfl

private theorem body_same {w : DatabaseWrite} {users' : Users} (within : db.AttachedWithin)
    (foreign : ¬ w.Concerns db userId)
    (h : w.body users db = .ok (users', db')) : Database.SameFor userId db db' := by
  cases w with
  | account w =>
    obtain ⟨⟨r, _, _⟩, done, same⟩ := map_ok h
    cases same
    exact account_same within foreign done
  | createFolders accountId folders =>
    obtain ⟨⟨r, _⟩, done, same⟩ := map_ok h
    cases same
    exact .createRows foreign (createMany_rows done)
  | setFolderEnabled folderId enabled =>
    obtain ⟨⟨r, _⟩, done, same⟩ := map_ok h
    cases same
    rw [updateEnabled_ok done]
    exact .updateFolder (fun _ => rfl) fun f there same owned => foreign ⟨f, there, same, owned⟩
  | archive d t =>
    obtain ⟨⟨r, _⟩, done, same⟩ := map_ok h
    cases same
    rcases jobs_elsewhere done with ⟨accounts, folders, messages, attachments⟩ |
      ⟨folderId, uidvalidity, lastUid, syncedAt, rfl, rest⟩ | ⟨payload, parsed, rfl⟩
    · exact .elsewhere accounts folders messages attachments
    · rw [rest]
      exact .updateFolder (fun _ => rfl) fun f there same owned => foreign ⟨f, there, same, owned⟩
    · exact .record foreign done

private theorem body_attached {w : DatabaseWrite} {users' : Users} (within : db.AttachedWithin)
    (h : w.body users db = .ok (users', db')) : db'.AttachedWithin := by
  cases w with
  | account w =>
    obtain ⟨⟨r, _, _⟩, done, same⟩ := map_ok h
    cases same
    exact account_attached within done
  | createFolders accountId folders =>
    obtain ⟨⟨r, _⟩, done, same⟩ := map_ok h
    cases same
    have rest := createRows_rest (createMany_rows done)
    exact within.of_same (by rw [rest]) (by rw [rest])
  | setFolderEnabled folderId enabled =>
    obtain ⟨⟨r, _⟩, done, same⟩ := map_ok h
    cases same
    rw [updateEnabled_ok done]
    exact within
  | archive d t =>
    obtain ⟨⟨r, _⟩, done, same⟩ := map_ok h
    cases same
    rcases jobs_elsewhere done with ⟨-, -, messages, attachments⟩ |
      ⟨folderId, uidvalidity, lastUid, syncedAt, rfl, rest⟩ | ⟨payload, parsed, rfl⟩
    · exact within.of_same messages attachments
    · rw [rest]
      exact within
    · exact within.record done

/-- One write that is not the user's concern leaves the user's rows as they are. -/
private theorem apply_same {w : DatabaseWrite} (within : db.AttachedWithin) (foreign : ¬ w.Concerns db userId) :
    (w.apply users db).2.AttachedWithin ∧ Database.SameFor userId db (w.apply users db).2 := by
  unfold apply
  cases done : w.body users db with
  | error e => exact ⟨within, .refl userId db⟩
  | ok s => exact ⟨body_attached within done, body_same within foreign done⟩

def NoneConcerns (userId : UserId) : Users × Database → List DatabaseWrite → Prop
  | _, [] => True
  | s, w :: ws => ¬ w.Concerns s.2 userId ∧ NoneConcerns userId (w.apply s.1 s.2) ws

private theorem run_same {ws : List DatabaseWrite} (within : db.AttachedWithin)
    (foreign : NoneConcerns userId (users, db) ws) :
    (ws.foldl (fun s w => w.apply s.1 s.2) (users, db)).2.AttachedWithin ∧
      Database.SameFor userId db (ws.foldl (fun s w => w.apply s.1 s.2) (users, db)).2 := by
  induction ws generalizing users db with
  | nil => exact ⟨within, .refl userId db⟩
  | cons w ws ih =>
    obtain ⟨here, rest⟩ := foreign
    obtain ⟨attached, first⟩ : (w.apply users db).2.AttachedWithin ∧ Database.SameFor userId db (w.apply users db).2 :=
      apply_same within here
    obtain ⟨attached, others⟩ := ih attached rest
    exact ⟨attached, first.trans others⟩

end DatabaseWrite

/-- Whatever the others do and whatever is synced for them, each read of a user has the answer it had before. -/
theorem foreign_writes_unread {users : Users} {db : Database} {userId : UserId} {ws : List DatabaseWrite}
    (within : db.AttachedWithin) (foreign : DatabaseWrite.NoneConcerns userId (users, db) ws) (read : UserRead) :
    read.answer userId (ws.foldl (fun s w => w.apply s.1 s.2) (users, db)).2 = read.answer userId db := by
  obtain ⟨within', same⟩ := DatabaseWrite.run_same within foreign
  rw [← UserRead.answer_own within', ← UserRead.answer_own within, same.own_eq]

private def twoUsers : Database :=
  { (inboxWorld (some 1) 1).db with
    accounts := ⟨[workAccount, { workAccount with id := 5, userId := 2 }], by decide⟩
    folders := ⟨[inbox (some 1) 1, { inbox (some 1) 1 with id := 8, accountId := 5 }], by decide⟩ }

private def mailForTwo : List DatabaseWrite :=
  [.archive ⟨0, ⟨10, fun i => 20 + i, 30⟩⟩ (.recordParsedMessage { letterJob with accountId := 5, folderId := 8 } newMail),
    .account (.delete 2 5)]

theorem foreign_writes_unread_two : UserRead.archiveStats.answer 1
    (mailForTwo.foldl (fun s w => w.apply s.1 s.2) (annServer.users, twoUsers)).2 =
      UserRead.archiveStats.answer 1 twoUsers := by
  have within : twoUsers.AttachedWithin := fun _ attached => by cases attached
  have another : (5 : Nat) ∉ twoUsers.ownedAccounts 1 := by decide
  have notMine : ¬ (2 : Nat) = 1 := by decide
  have foreign : DatabaseWrite.NoneConcerns 1 (annServer.users, twoUsers) mailForTwo := ⟨another, notMine, trivial⟩
  exact foreign_writes_unread within foreign .archiveStats

end MailKeep
