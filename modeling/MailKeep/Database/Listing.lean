import MailKeep.Database.Schema
import MailKeep.Ranked.Page
import Mathlib.Data.List.Dedup
import Mathlib.Order.WithBot

/-! The reads a search makes: accounts of a user, folders of an account, messages by folder. -/
namespace MailKeep
open Ranked

def AccountRepository.listForUser (db : Database) (userId : UserId) : List Account :=
  db.accounts.rows.filter (·.userId = userId)

def FolderRepository.listForAccount (db : Database) (accountId : AccountId) : Except Error (List Folder) :=
  if accountId = 0 then .error (.invalidId accountId)
  else .ok (db.folders.rows.filter (·.accountId = accountId))

def Database.located (db : Database) (messageId : MessageId) (folderIds : List FolderId) : Bool :=
  db.locations.rows.any fun l => l.messageId = messageId && l.folderId ∈ folderIds

theorem Database.located_iff {db : Database} {messageId : MessageId} {folderIds : List FolderId} :
    db.located messageId folderIds = true ↔
      ∃ l ∈ db.locations, l.messageId = messageId ∧ l.folderId ∈ folderIds := by
  simp [located, Keyed.Table.mem_def]

def Database.ownedAccounts (db : Database) (userId : UserId) : List AccountId :=
  (AccountRepository.listForUser db userId).map Account.id

/-- Newest first, undated last, then by descending id. -/
def listingKey (m : Message) : Lex (WithBot Int × Nat) := toLex (m.sentDate, m.id)

theorem listingKey_nodup (t : Keyed.Table Message.id) (p : Message → Bool) :
    ((t.rows.filter p).map listingKey).Nodup := by
  refine List.Nodup.map_on ?_ ((List.Nodup.of_map _ t.nodup).filter p)
  intro x hx y hy he
  have hid : x.id = y.id := congrArg (fun k => (ofLex k).2) he
  exact t.eq_of_key (List.mem_filter.mp hx).1 (List.mem_filter.mp hy).1 hid

namespace MessageRepository

/-- In at least one folder of every required group and in none of the excluded folders. -/
def inFolders (db : Database) (includeGroups : List (List FolderId)) (exclude : List FolderId)
    (messageId : MessageId) : Bool :=
  includeGroups.all (db.located messageId) && (exclude.isEmpty || !db.located messageId exclude)

def foldersQuery (db : Database) (userId : UserId) (includeGroups : List (List FolderId))
    (exclude : List FolderId) (m : Message) : Bool :=
  m.accountId ∈ db.ownedAccounts userId && inFolders db includeGroups exclude m.id

def listAndCountByFoldersForUser (db : Database) (userId : UserId)
    (includeGroups : List (List FolderId)) (exclude : List FolderId) (limit offset : U32) :
    Except Error (Nat × List Message) :=
  if userId = 0 then .error (.invalidId userId)
  else
    let rows := db.messages.rows.filter (foldersQuery db userId includeGroups exclude)
    .ok (rows.length, page (sortDesc listingKey rows) offset limit)

def listByIdsForUser (db : Database) (userId : UserId) (ids : List MessageId) : Except Error (List Message) :=
  if userId = 0 then .error (.invalidId userId)
  else if ids.isEmpty then .ok []
  else .ok (db.messages.rows.filter fun m => m.id ∈ ids && m.accountId ∈ db.ownedAccounts userId)

end MessageRepository

def MessageLocationRepository.filterMessageIdsInFolders (db : Database) (messageIds : List MessageId)
    (folderIds : List FolderId) : List MessageId :=
  if messageIds.isEmpty || folderIds.isEmpty then []
  else ((db.locations.rows.filter fun l => l.messageId ∈ messageIds && l.folderId ∈ folderIds).map
    MessageLocation.messageId).dedup

theorem MessageLocationRepository.mem_filterMessageIdsInFolders {db : Database} {messageIds : List MessageId}
    {folderIds : List FolderId} {id : MessageId} :
    id ∈ filterMessageIdsInFolders db messageIds folderIds ↔
      id ∈ messageIds ∧ db.located id folderIds = true := by
  rw [Database.located_iff, filterMessageIdsInFolders]
  split
  · rename_i h
    rcases Bool.or_eq_true_iff.mp h with h | h <;> simp [List.isEmpty_iff.mp h]
  · simp only [List.mem_dedup, List.mem_map, List.mem_filter, Bool.and_eq_true, decide_eq_true_eq,
      Keyed.Table.mem_def]
    constructor
    · rintro ⟨l, ⟨hl, hm, hf⟩, rfl⟩
      exact ⟨hm, l, hl, rfl, hf⟩
    · rintro ⟨hm, l, hl, rfl, hf⟩
      exact ⟨l, ⟨hl, hm, hf⟩, rfl⟩

end MailKeep
