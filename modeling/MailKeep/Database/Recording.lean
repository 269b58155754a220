import MailKeep.Database.Schema

/-! Recording a parsed message: find the row of its content or create it, then place it in its folder. -/
namespace MailKeep

def constraintError (message : String) : Error := .repositoryError (.constraint message)

/-- The token ids one recording draws: for the message, for each of its attachments and for its location. -/
structure RecordTokens where
  message : MessageId
  attachment : Nat → Nat
  location : Nat

/-- `i32::try_from(len).unwrap_or(i32::MAX)`. -/
def attachmentCount (n : Nat) : Int := if n ≤ 2147483647 then n else 2147483647

def ParsedMessage.toRow (parsed : ParsedMessage) (id : MessageId) (accountId : AccountId) : Message where
  toEnvelope := parsed.toEnvelope
  id := id
  version := 1
  accountId := accountId
  hasAttachments := !parsed.attachments.isEmpty
  attachmentCount := MailKeep.attachmentCount parsed.attachments.length
  indexed := false

def ParsedMessage.attachmentRows (parsed : ParsedMessage) (ids : Nat → Nat) (messageId : MessageId)
    (accountId : AccountId) : List MessageAttachment :=
  parsed.attachments.zipIdx.map fun (a, i) => ⟨a, ids i, 1, messageId, accountId⟩

namespace MessageRepository

def findByAccountAndContentHash (accountId : AccountId) (contentHash : ContentHash) :
    Transaction (Option Message) := fun db =>
  if accountId = 0 then .error (.invalidId accountId)
  else .ok (db.messages.rows.find? fun m => m.accountId = accountId && m.contentHash = contentHash, db)

/-- The unique index on account and content, the foreign key on the account and the primary key. -/
def create (row : Message) : Transaction Message := fun db =>
  if row.accountId = 0 then .error (.invalidId row.accountId)
  else if db.messages.rows.any (fun m => m.accountId = row.accountId && m.contentHash = row.contentHash) then
    .error (constraintError "UNIQUE constraint failed: messages.account_id, messages.content_hash")
  else if (db.accounts.find? row.accountId).isNone then
    .error (constraintError "Foreign key violation: FOREIGN KEY constraint failed")
  else match db.messages.insert row with
  | none => .error (constraintError "UNIQUE constraint failed: messages.id")
  | some messages => .ok (row, { db with messages := messages })

end MessageRepository

namespace MessageAttachmentRepository

def create (row : MessageAttachment) : Transaction MessageAttachment := fun db =>
  if row.messageId = 0 then .error (.invalidId row.messageId)
  else if row.accountId = 0 then .error (.invalidId row.accountId)
  else if (db.messages.find? row.messageId).isNone || (db.accounts.find? row.accountId).isNone then
    .error (constraintError "Foreign key violation: FOREIGN KEY constraint failed")
  else match db.attachments.insert row with
  | none => .error (constraintError "UNIQUE constraint failed: message_attachments.id")
  | some attachments => .ok (row, { db with attachments := attachments })

def createMany : List MessageAttachment → Transaction (List MessageAttachment)
  | [] => pure []
  | row :: rows => do
    let saved ← create row
    let inserted ← createMany rows
    return saved :: inserted

end MessageAttachmentRepository

/-- A saved change of a location: the version goes up and the place of the message is rewritten. -/
def MessageLocation.moved (l row : MessageLocation) : MessageLocation :=
  { l with
    version := l.version + 1
    uid := row.uid
    uidvalidity := row.uidvalidity
    flags := row.flags
    internalDate := row.internalDate }

@[simp] theorem MessageLocation.moved_id (l row : MessageLocation) : (l.moved row).id = l.id := rfl

def Database.moveLocation (db : Database) (id : Nat) (row : MessageLocation) : Keyed.Table MessageLocation.id :=
  db.locations.update (·.id = id) (·.moved row) fun l => l.moved_id row

private theorem Database.mem_moveLocation {db : Database} {id : Nat} {row l : MessageLocation} :
    l ∈ db.moveLocation id row ↔ ∃ l₀ ∈ db.locations, l = if l₀.id = id then l₀.moved row else l₀ := by
  rw [moveLocation, Keyed.Table.mem_update]
  simp only [decide_eq_true_eq]

namespace MessageLocationRepository

/-- Find the location of the message in the folder and update it, or insert the row. -/
def upsert (row : MessageLocation) : Transaction MessageLocation := fun db =>
  if row.messageId = 0 then .error (.invalidId row.messageId)
  else if row.folderId = 0 then .error (.invalidId row.folderId)
  else match db.locations.rows.find? (fun l => l.messageId = row.messageId && l.folderId = row.folderId) with
  | some found =>
    .ok (found.moved row, { db with locations := db.moveLocation found.id row })
  | none =>
    if (db.messages.find? row.messageId).isNone || (db.folders.find? row.folderId).isNone then
      .error (constraintError "Foreign key violation: FOREIGN KEY constraint failed")
    else match db.locations.insert row with
    | none => .error (constraintError "UNIQUE constraint failed: message_locations.id")
    | some locations => .ok (row, { db with locations := locations })

end MessageLocationRepository

structure RecordedMessage where
  messageId : MessageId
  created : Bool
deriving DecidableEq

/-- After a constraint error: the row that another worker archived for the same content. -/
def dedupToWinner (accountId : AccountId) (contentHash : ContentHash) : Transaction RecordedMessage := do
  match ← MessageRepository.findByAccountAndContentHash accountId contentHash with
  | some winner => return ⟨winner.id, false⟩
  | none => throw (.repositoryError .conflict)

def createMessage (tokens : RecordTokens) (accountId : AccountId) (parsed : ParsedMessage) :
    Transaction RecordedMessage := fun db =>
  match MessageRepository.create (parsed.toRow tokens.message accountId) db with
  | .ok (message, db) => (do
    let _ ← MessageAttachmentRepository.createMany (parsed.attachmentRows tokens.attachment message.id accountId)
    return ⟨message.id, true⟩ : Transaction RecordedMessage) db
  | .error (.repositoryError (.constraint _)) => dedupToWinner accountId parsed.contentHash db
  | .error e => .error e

def findOrCreateMessage (tokens : RecordTokens) (accountId : AccountId) (parsed : ParsedMessage) :
    Transaction RecordedMessage := do
  match ← MessageRepository.findByAccountAndContentHash accountId parsed.contentHash with
  | some existing => return ⟨existing.id, false⟩
  | none => createMessage tokens accountId parsed

def recordParsedMessage (tokens : RecordTokens) (accountId : AccountId) (folderId : FolderId)
    (uid uidvalidity : U32) (internalDate : DateTimeUtc) (flags : MessageFlags) (parsed : ParsedMessage) :
    Transaction RecordedMessage := do
  let recorded ← findOrCreateMessage tokens accountId parsed
  let _ ← MessageLocationRepository.upsert
    ⟨tokens.location, 1, recorded.messageId, folderId, uid, uidvalidity, flags, internalDate⟩
  return recorded

/-- `after` holds the place of the message in the folder, instead of the one `before` had, if any. -/
structure PlacedIn (messageId : MessageId) (folderId : FolderId) (uid uidvalidity : U32)
    (before after : Keyed.Table MessageLocation.id) (saved : MessageLocation) : Prop where
  at_place : saved.messageId = messageId ∧ saved.folderId = folderId
  as_given : saved.uid = uid ∧ saved.uidvalidity = uidvalidity
  mem : saved ∈ after
  others : ∀ l ∈ after, l = saved ∨ l ∈ before ∧ l.id ≠ saved.id
  kept : ∀ l ∈ before, l ∈ after ∨ l.id = saved.id ∧ l.messageId = messageId ∧ l.folderId = folderId
  replaced : ∀ l ∈ before, l.messageId = messageId → l.folderId = folderId →
    ∃ l₀ ∈ before, l₀.id = saved.id ∧ l₀.messageId = messageId ∧ l₀.folderId = folderId

theorem MessageLocationRepository.upsert_ok {row saved : MessageLocation} {db db' : Database}
    (h : upsert row db = .ok (saved, db')) :
    db' = { db with locations := db'.locations } ∧
      PlacedIn row.messageId row.folderId row.uid row.uidvalidity db.locations db'.locations saved := by
  unfold upsert at h
  split at h
  · cases h
  split at h
  · cases h
  split at h
  · rename_i found hf
    cases h
    have hmem : found ∈ db.locations := List.mem_of_find?_eq_some hf
    obtain ⟨hm, hd⟩ : found.messageId = row.messageId ∧ found.folderId = row.folderId := by
      simpa using List.find?_some hf
    refine ⟨rfl, ⟨hm, hd⟩, ⟨rfl, rfl⟩, Database.mem_moveLocation.mpr ⟨found, hmem, by simp⟩, ?_, ?_,
      fun _ _ _ _ => ⟨found, hmem, rfl, hm, hd⟩⟩
    · intro l hl
      obtain ⟨l₀, hl₀, rfl⟩ := Database.mem_moveLocation.mp hl
      by_cases he : l₀.id = found.id
      · exact .inl (by rw [Keyed.Table.eq_of_key hl₀ hmem he]; simp)
      · exact .inr (by simpa [he] using hl₀)
    · intro l hl
      by_cases he : l.id = found.id
      · rw [Keyed.Table.eq_of_key hl hmem he]
        exact .inr ⟨rfl, hm, hd⟩
      · exact .inl (Database.mem_moveLocation.mpr ⟨l, hl, by simp [he]⟩)
  · rename_i hf
    split at h
    · cases h
    split at h
    · cases h
    · rename_i locations hi
      cases h
      obtain ⟨hfresh, -⟩ := Keyed.Table.insert_eq_some hi
      refine ⟨rfl, ⟨rfl, rfl⟩, ⟨rfl, rfl⟩, (Keyed.Table.mem_of_insert hi).mpr (.inr rfl), ?_, ?_, ?_⟩
      · intro l hl
        rcases (Keyed.Table.mem_of_insert hi).mp hl with hb | rfl
        · exact .inr ⟨hb, hfresh l hb⟩
        · exact .inl rfl
      · exact fun l hl => .inl ((Keyed.Table.mem_of_insert hi).mpr (.inl hl))
      · intro l hl hm hd
        have := List.find?_eq_none.mp hf l hl
        simp [hm, hd] at this

/-- A message row of the content is there and the rows of before are kept. -/
structure Archived (accountId : AccountId) (contentHash : ContentHash) (fresh : MessageId) (before after : Database)
    (messageId : MessageId) : Prop where
  accounts : after.accounts = before.accounts
  folders : after.folders = before.folders
  locations : after.locations = before.locations
  jobs : after.jobs = before.jobs
  nextJobId : after.nextJobId = before.nextJobId
  row : ∃ m ∈ after.messages, m.id = messageId ∧ m.accountId = accountId ∧ m.contentHash = contentHash
  kept : ∀ m ∈ before.messages, m ∈ after.messages
  added : ∀ m ∈ after.messages, m ∈ before.messages ∨ m.id = fresh

private theorem MessageRepository.findByAccountAndContentHash_ok {accountId : AccountId} {contentHash : ContentHash}
    {found : Option Message} {db db' : Database}
    (h : findByAccountAndContentHash accountId contentHash db = .ok (found, db')) :
    db' = db ∧ ∀ m, found = some m → m ∈ db.messages ∧ m.accountId = accountId ∧ m.contentHash = contentHash := by
  unfold findByAccountAndContentHash at h
  split at h
  · cases h
  · cases h
    refine ⟨rfl, fun m hm => ⟨List.mem_of_find?_eq_some hm, ?_⟩⟩
    simpa using List.find?_some hm

theorem MessageRepository.create_ok {row m : Message} {db db' : Database} (h : create row db = .ok (m, db')) :
    m = row ∧ db' = { db with messages := db'.messages } ∧ db.messages.insert row = some db'.messages := by
  unfold create at h
  split at h
  · cases h
  split at h
  · cases h
  split at h
  · cases h
  split at h
  · cases h
  · rename_i messages hi
    cases h
    exact ⟨rfl, rfl, hi⟩

theorem MessageAttachmentRepository.createMany_ok {rows saved : List MessageAttachment} {db db' : Database}
    (h : createMany rows db = .ok (saved, db')) : db' = { db with attachments := db'.attachments } := by
  induction rows generalizing saved db with
  | nil => exact (Transaction.pure_eq_ok.mp h).2 ▸ rfl
  | cons row rows ih =>
    obtain ⟨m, mid, hc, h⟩ := Transaction.bind_eq_ok.mp h
    obtain ⟨_, mid', hr, h⟩ := Transaction.bind_eq_ok.mp h
    obtain ⟨-, rfl⟩ := Transaction.pure_eq_ok.mp h
    have hmid : mid = { db with attachments := mid.attachments } := by
      unfold create at hc
      repeat' split at hc
      all_goals cases hc
      rfl
    have := ih hr
    rw [hmid] at this
    exact this

theorem Archived.found {accountId : AccountId} {contentHash : ContentHash} {fresh : MessageId} {db : Database}
    {m : Message} (h : m ∈ db.messages ∧ m.accountId = accountId ∧ m.contentHash = contentHash) :
    Archived accountId contentHash fresh db db m.id :=
  ⟨rfl, rfl, rfl, rfl, rfl, ⟨m, h.1, rfl, h.2⟩, fun _ hm => hm, fun _ hm => .inl hm⟩

/-- The content is there from before, or it is new and so are its row and those of its attachments. -/
theorem findOrCreateMessage_cases {tokens : RecordTokens} {accountId : AccountId} {parsed : ParsedMessage}
    {r : RecordedMessage} {db db' : Database} (h : findOrCreateMessage tokens accountId parsed db = .ok (r, db')) :
    (∃ m, (m ∈ db.messages ∧ m.accountId = accountId ∧ m.contentHash = parsed.contentHash) ∧
      r = ⟨m.id, false⟩ ∧ db' = db) ∨
    ∃ mid saved, MessageRepository.create (parsed.toRow tokens.message accountId) db =
        .ok (parsed.toRow tokens.message accountId, mid) ∧
      MessageAttachmentRepository.createMany
        (parsed.attachmentRows tokens.attachment tokens.message accountId) mid = .ok (saved, db') ∧
      r = ⟨tokens.message, true⟩ := by
  obtain ⟨found, mid, hf, h⟩ := Transaction.bind_eq_ok.mp h
  obtain ⟨rfl, hfound⟩ := MessageRepository.findByAccountAndContentHash_ok hf
  cases found with
  | some existing =>
    obtain ⟨rfl, rfl⟩ := Transaction.pure_eq_ok.mp h
    exact .inl ⟨existing, hfound existing rfl, rfl, rfl⟩
  | none =>
    change createMessage tokens accountId parsed mid = _ at h
    unfold createMessage at h
    split at h
    · rename_i m created hc
      obtain ⟨rfl, -, -⟩ := MessageRepository.create_ok hc
      obtain ⟨saved, _, hr, h⟩ := Transaction.bind_eq_ok.mp h
      obtain ⟨rfl, rfl⟩ := Transaction.pure_eq_ok.mp h
      exact .inr ⟨created, saved, hc, hr, rfl⟩
    · -- another transaction has created the message meanwhile
      obtain ⟨found, mid, hf, h⟩ := Transaction.bind_eq_ok.mp h
      obtain ⟨rfl, hfound⟩ := MessageRepository.findByAccountAndContentHash_ok hf
      cases found with
      | none => cases h
      | some winner =>
        obtain ⟨rfl, rfl⟩ := Transaction.pure_eq_ok.mp h
        exact .inl ⟨winner, hfound winner rfl, rfl, rfl⟩
    · cases h

theorem findOrCreateMessage_ok {tokens : RecordTokens} {accountId : AccountId} {parsed : ParsedMessage}
    {r : RecordedMessage} {db db' : Database} (h : findOrCreateMessage tokens accountId parsed db = .ok (r, db')) :
    Archived accountId parsed.contentHash tokens.message db db' r.messageId := by
  rcases findOrCreateMessage_cases h with ⟨m, there, rfl, rfl⟩ | ⟨mid, saved, hc, hr, rfl⟩
  · exact .found there
  · obtain ⟨-, hmid, hi⟩ := MessageRepository.create_ok hc
    have hat := MessageAttachmentRepository.createMany_ok hr
    rw [hmid] at hat
    have hms : db'.messages = mid.messages := by rw [hat]
    refine ⟨by rw [hat], by rw [hat], by rw [hat], by rw [hat], by rw [hat], ?_, ?_, ?_⟩ <;> rw [hms]
    · exact ⟨_, (Keyed.Table.mem_of_insert hi).mpr (.inr rfl), rfl, rfl, rfl⟩
    · exact fun m hm => (Keyed.Table.mem_of_insert hi).mpr (.inl hm)
    · intro m hm
      rcases (Keyed.Table.mem_of_insert hi).mp hm with hb | rfl
      · exact .inl hb
      · exact .inr rfl

/-- A recording archives the content and then places its row in the folder. -/
theorem recordParsedMessage_ok {tokens : RecordTokens} {accountId : AccountId} {folderId : FolderId}
    {uid uidvalidity : U32} {internalDate : DateTimeUtc} {flags : MessageFlags} {parsed : ParsedMessage}
    {r : RecordedMessage} {db db' : Database}
    (h : recordParsedMessage tokens accountId folderId uid uidvalidity internalDate flags parsed db = .ok (r, db')) :
    ∃ mid saved, Archived accountId parsed.contentHash tokens.message db mid r.messageId ∧
      db' = { mid with locations := db'.locations } ∧
      PlacedIn r.messageId folderId uid uidvalidity db.locations db'.locations saved := by
  obtain ⟨recorded, mid, hm, h⟩ := Transaction.bind_eq_ok.mp h
  obtain ⟨saved, mid', hu, h⟩ := Transaction.bind_eq_ok.mp h
  obtain ⟨rfl, rfl⟩ := Transaction.pure_eq_ok.mp h
  obtain ⟨hdb, hp⟩ := MessageLocationRepository.upsert_ok hu
  have ha := findOrCreateMessage_ok hm
  exact ⟨mid, saved, ha, hdb, ha.locations ▸ hp⟩

structure RecordTokens.Fresh (tokens : RecordTokens) (db : Database) : Prop where
  nonzero : tokens.message ≠ 0
  message : ∀ m ∈ db.messages, m.id ≠ tokens.message
  attachment : ∀ a ∈ db.attachments, ∀ i, a.id ≠ tokens.attachment i
  distinct : Function.Injective tokens.attachment
  location : ∀ l ∈ db.locations, l.id ≠ tokens.location

structure Database.Knows (db : Database) (accountId : AccountId) (folderId : FolderId) : Prop where
  account : accountId ≠ 0 ∧ ∃ a ∈ db.accounts, a.id = accountId
  folder : folderId ≠ 0 ∧ ∃ f ∈ db.folders, f.id = folderId

private theorem MessageRepository.create_total {row : Message} {db : Database} {messages : Keyed.Table Message.id}
    (hacc : row.accountId ≠ 0 ∧ ∃ a ∈ db.accounts, a.id = row.accountId)
    (hnew : db.messages.rows.any (fun m => m.accountId = row.accountId && m.contentHash = row.contentHash) = false)
    (hi : db.messages.insert row = some messages) : create row db = .ok
      (row, { db with messages := messages }) := by
  obtain ⟨acc, ha, hid⟩ := hacc.2
  unfold create
  rw [if_neg hacc.1, hnew, ← hid, Keyed.Table.find?_isNone ha, hi]
  rfl

private theorem MessageAttachmentRepository.createMany_total {accountId : AccountId} {message : Message}
    {ids : Nat → Nat} (distinct : Function.Injective ids) (atts : List ParsedAttachment) (k : Nat) {db : Database}
    (hid : message.id ≠ 0) (hm : message ∈ db.messages)
    (hacc : accountId ≠ 0 ∧ ∃ a ∈ db.accounts, a.id = accountId)
    (fresh : ∀ a ∈ db.attachments, ∀ i, k ≤ i → a.id ≠ ids i) :
    ∃ saved db', createMany ((atts.zipIdx k).map fun (a, i) => ⟨a, ids i, 1, message.id, accountId⟩) db =
      .ok (saved, db') := by
  induction atts generalizing k db with
  | nil => exact ⟨[], db, rfl⟩
  | cons att atts ih =>
    obtain ⟨acc, ha, rfl⟩ := hacc.2
    obtain ⟨attachments, hi⟩ : ∃ attachments,
        db.attachments.insert ⟨att, ids k, 1, message.id, acc.id⟩ = some attachments :=
      Keyed.Table.insert_isSome fun a h => fresh a h k (Nat.le_refl k)
    obtain ⟨saved, db', hr⟩ := @ih (k + 1) { db with attachments := attachments } hm hacc (by
      intro a h i hki
      rcases (Keyed.Table.mem_of_insert hi).mp h with hb | rfl
      · exact fresh a hb i (by omega)
      · exact fun he => absurd (distinct he) (by omega))
    refine ⟨⟨att, ids k, 1, message.id, acc.id⟩ :: saved, db', Transaction.bind_eq_ok.mpr
      ⟨_, { db with attachments := attachments }, ?_, Transaction.bind_eq_ok.mpr ⟨_, _, hr, rfl⟩⟩⟩
    simp only [create, hid, hacc.1, if_false, Keyed.Table.find?_isNone hm, Keyed.Table.find?_isNone ha, Bool.or_false, hi]
    rfl

private theorem MessageLocationRepository.upsert_total {row : MessageLocation} {db : Database}
    (hm : row.messageId ≠ 0 ∧ ∃ m ∈ db.messages, m.id = row.messageId)
    (hf : row.folderId ≠ 0 ∧ ∃ f ∈ db.folders, f.id = row.folderId)
    (fresh : ∀ l ∈ db.locations, l.id ≠ row.id) : ∃ saved db', upsert row db = .ok (saved, db') := by
  obtain ⟨m, hm', hmid⟩ := hm.2
  obtain ⟨f, hf', hfid⟩ := hf.2
  obtain ⟨locations, hi⟩ := Keyed.Table.insert_isSome fresh
  unfold upsert
  rw [if_neg hm.1, if_neg hf.1]
  split
  · exact ⟨_, _, rfl⟩
  · rw [← hmid, ← hfid, Keyed.Table.find?_isNone hm', Keyed.Table.find?_isNone hf', hi]
    exact ⟨_, _, rfl⟩

private theorem findOrCreateMessage_total {tokens : RecordTokens} {accountId : AccountId} {parsed : ParsedMessage}
    {db : Database} (fresh : tokens.Fresh db) (hacc : accountId ≠ 0 ∧ ∃ a ∈ db.accounts, a.id = accountId) :
    ∃ r db', findOrCreateMessage tokens accountId parsed db = .ok (r, db') := by
  obtain ⟨acc, ha, hid⟩ := hacc.2
  have hfind : MessageRepository.findByAccountAndContentHash accountId parsed.contentHash db = .ok
      (db.messages.rows.find? fun m => m.accountId = accountId && m.contentHash = parsed.contentHash, db) := by
    rw [MessageRepository.findByAccountAndContentHash, if_neg hacc.1]
  cases hfound : db.messages.rows.find? fun m => m.accountId = accountId && m.contentHash = parsed.contentHash with
  | some existing => exact ⟨_, _, Transaction.bind_eq_ok.mpr ⟨_, _, hfound ▸ hfind, rfl⟩⟩
  | none =>
    have hany : db.messages.rows.any (fun m => m.accountId = accountId && m.contentHash = parsed.contentHash) = false :=
      List.any_eq_false.mpr (List.find?_eq_none.mp hfound)
    obtain ⟨messages, hi⟩ : ∃ messages,
        db.messages.insert (parsed.toRow tokens.message accountId) = some messages :=
      Keyed.Table.insert_isSome fresh.message
    have hcreate := @MessageRepository.create_total (parsed.toRow tokens.message accountId) db messages hacc hany hi
    obtain ⟨saved, db', hatt⟩ := @MessageAttachmentRepository.createMany_total accountId _ tokens.attachment
      fresh.distinct parsed.attachments 0 { db with messages := messages } fresh.nonzero
      ((Keyed.Table.mem_of_insert hi).mpr (.inr rfl)) hacc fun a h i _ => fresh.attachment a h i
    refine ⟨⟨tokens.message, true⟩, db', Transaction.bind_eq_ok.mpr ⟨_, _, hfound ▸ hfind, ?_⟩⟩
    simp only [createMessage, hcreate]
    exact Transaction.bind_eq_ok.mpr ⟨_, _, hatt, rfl⟩

/-- With fresh tokens and its account and folder in place, a recording does not fail. -/
theorem recordParsedMessage_total {tokens : RecordTokens} {accountId : AccountId} {folderId : FolderId}
    (uid uidvalidity : U32) (internalDate : DateTimeUtc) (flags : MessageFlags) (parsed : ParsedMessage)
    {db : Database} (fresh : tokens.Fresh db) (known : db.Knows accountId folderId)
    (ids : ∀ m ∈ db.messages, m.id ≠ 0) :
    ∃ r db', recordParsedMessage tokens accountId folderId uid uidvalidity internalDate flags parsed db =
      .ok (r, db') := by
  obtain ⟨r, mid, hm⟩ := findOrCreateMessage_total fresh known.account
  have ha := findOrCreateMessage_ok hm
  have hid : r.messageId ≠ 0 := by
    obtain ⟨m, hmem, he, -⟩ := ha.row
    rcases ha.added m hmem with hb | hf
    · exact he ▸ ids m hb
    · exact he ▸ hf ▸ fresh.nonzero
  obtain ⟨m, hmem, he, -⟩ := ha.row
  obtain ⟨saved, db', hu⟩ := @MessageLocationRepository.upsert_total
    ⟨tokens.location, 1, r.messageId, folderId, uid, uidvalidity, flags, internalDate⟩ mid
    ⟨hid, m, hmem, he⟩ (ha.folders ▸ known.folder) (ha.locations ▸ fresh.location)
  exact ⟨r, db', Transaction.bind_eq_ok.mpr ⟨_, _, hm, Transaction.bind_eq_ok.mpr ⟨_, _, hu, rfl⟩⟩⟩

end MailKeep
