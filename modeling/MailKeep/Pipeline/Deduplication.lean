import MailKeep.Pipeline.Workers

/-! Sequences of recordings: each content has one row with the attachments of the call that created it, each
place one location with what the last call for it brought. -/
namespace MailKeep

/-- A call of `record_parsed_message`, with the token ids it draws. -/
structure RecordCall where
  tokens : RecordTokens
  accountId : AccountId
  folderId : FolderId
  uid : U32
  uidvalidity : U32
  internalDate : DateTimeUtc
  flags : MessageFlags
  parsed : ParsedMessage

def RecordCall.body (call : RecordCall) : Transaction RecordedMessage :=
  recordParsedMessage call.tokens call.accountId call.folderId call.uid call.uidvalidity call.internalDate call.flags call.parsed

/-- The store, and the calls that have committed with their replies, newest first. -/
structure Recordings where
  db : Database
  log : List (RecordCall × RecordedMessage)

/-- One call: its transaction commits, or fails and changes nothing. -/
def Recordings.attempt (s : Recordings) (call : RecordCall) (fault : Option DbErr) :
    Except Error RecordedMessage × Recordings :=
  match fault with
  | some e => (.error (.repositoryError (handleDberr e)), s)
  | none =>
    match call.body s.db with
    | .error e => (.error e, s)
    | .ok (r, db) => (.ok r, ⟨db, (call, r) :: s.log⟩)

def Recordings.run (start : Database) (calls : List (RecordCall × Option DbErr)) : Recordings :=
  calls.foldl (fun s c => (s.attempt c.1 c.2).2) ⟨start, []⟩

def Database.attachmentsOf (db : Database) (messageId : MessageId) : List MessageAttachment :=
  db.attachments.rows.filter (·.messageId = messageId)

/-- What the schema keeps: the unique indexes on content and on place, and the foreign key of the attachments. -/
structure Database.Indexed (db : Database) : Prop where
  content : ∀ m ∈ db.messages, ∀ m' ∈ db.messages, m.accountId = m'.accountId →
    m.contentHash = m'.contentHash → m = m'
  place : ∀ l ∈ db.locations, ∀ l' ∈ db.locations, l.messageId = l'.messageId → l.folderId = l'.folderId → l = l'
  owner : ∀ t ∈ db.attachments, ∃ m ∈ db.messages, m.id = t.messageId

/-- The row was there at the start and has the attachments it had, or just one call has created it and its attachments. -/
inductive Recordings.Origin (start : Database) (s : Recordings) (m : Message) : Prop
  | start (there : m ∈ start.messages) (same : s.db.attachmentsOf m.id = start.attachmentsOf m.id)
      (never : s.log.filter (fun e => e.2.created && e.2.messageId = m.id) = [])
  | created (call : RecordCall) (once : s.log.filter (fun e => e.2.created && e.2.messageId = m.id) = [(call, ⟨m.id, true⟩)])
      (row : m = call.parsed.toRow m.id call.accountId)
      (attachments : s.db.attachmentsOf m.id = call.parsed.attachmentRows call.tokens.attachment m.id call.accountId)

def Recordings.lastPlacing (s : Recordings) (messageId : MessageId) (folderId : FolderId) : Option RecordCall :=
  (s.log.find? fun e => e.2.messageId = messageId && e.1.folderId = folderId).map Prod.fst

structure MessageLocation.AsPlaced (l : MessageLocation) (messageId : MessageId) (call : RecordCall) : Prop where
  messageId : l.messageId = messageId
  folderId : l.folderId = call.folderId
  uid : l.uid = call.uid
  uidvalidity : l.uidvalidity = call.uidvalidity
  flags : l.flags = call.flags

structure Recordings.Sound (start : Database) (s : Recordings) : Prop where
  indexed : s.db.Indexed
  resolved : ∀ e ∈ s.log, ∃ m ∈ s.db.messages, m.id = e.2.messageId ∧ m.accountId = e.1.accountId ∧
    m.contentHash = e.1.parsed.contentHash
  origin : ∀ m ∈ s.db.messages, s.Origin start m
  placed : ∀ messageId folderId call, s.lastPlacing messageId folderId = some call →
    ∃ l ∈ s.db.locations, l.AsPlaced messageId call ∧ call.folderId = folderId
  untouched : ∀ l, s.lastPlacing l.messageId l.folderId = none → (l ∈ s.db.locations ↔ l ∈ start.locations)

theorem MessageAttachmentRepository.createMany_rows {rows saved : List MessageAttachment} {db db' : Database}
    (h : createMany rows db = .ok (saved, db')) : db'.attachments.rows = db.attachments.rows ++ rows := by
  induction rows generalizing saved db with
  | nil => rw [(Transaction.pure_eq_ok.mp h).2, List.append_nil]
  | cons row rows ih =>
    obtain ⟨m, mid, hc, h⟩ := Transaction.bind_eq_ok.mp h
    obtain ⟨_, mid', hr, h⟩ := Transaction.bind_eq_ok.mp h
    obtain ⟨-, rfl⟩ := Transaction.pure_eq_ok.mp h
    have first : mid.attachments.rows = db.attachments.rows ++ [row] := by
      unfold create at hc
      split at hc
      · cases hc
      split at hc
      · cases hc
      split at hc
      · cases hc
      split at hc
      · cases hc
      · rename_i attachments hi
        cases hc
        exact (Keyed.Table.insert_eq_some hi).2
    rw [ih hr, first, List.append_assoc, List.singleton_append]

/-- A content that is there stays as it is; a new one gets its row and the rows of its attachments. -/
inductive Archival (call : RecordCall) (before after : Database) (r : RecordedMessage) : Prop
  | found (same : after = before) (old : r.created = false) (row : ∃ m ∈ before.messages, m.id = r.messageId ∧
      m.accountId = call.accountId ∧ m.contentHash = call.parsed.contentHash)
  | created (reply : r = ⟨call.tokens.message, true⟩)
      (new : ∀ m ∈ before.messages, m.accountId = call.accountId → m.contentHash ≠ call.parsed.contentHash)
      (fresh : ∀ m ∈ before.messages, m.id ≠ call.tokens.message)
      (messages : after.messages.rows = before.messages.rows ++ [call.parsed.toRow call.tokens.message call.accountId])
      (attachments : after.attachments.rows = before.attachments.rows ++
        call.parsed.attachmentRows call.tokens.attachment call.tokens.message call.accountId)
      (locations : after.locations = before.locations)

private theorem MessageRepository.create_new {row m : Message} {db db' : Database} (h : create row db = .ok (m, db')) :
    ∀ m' ∈ db.messages, m'.accountId = row.accountId → m'.contentHash ≠ row.contentHash := by
  unfold create at h
  split at h
  · cases h
  split at h
  · cases h
  · rename_i free
    intro m' hm' account content
    exact free (List.any_eq_true.mpr ⟨m', hm', by simp [account, content]⟩)

theorem findOrCreateMessage_archival {call : RecordCall} {r : RecordedMessage} {db db' : Database}
    (h : findOrCreateMessage call.tokens call.accountId call.parsed db = .ok (r, db')) :
      Archival call db db' r := by
  rcases findOrCreateMessage_cases h with ⟨m, there, rfl, rfl⟩ | ⟨mid, saved, hc, hr, rfl⟩
  · exact .found rfl rfl ⟨m, there.1, rfl, there.2⟩
  · obtain ⟨-, hmid, hi⟩ := MessageRepository.create_ok hc
    have rows := MessageAttachmentRepository.createMany_rows hr
    have rest := MessageAttachmentRepository.createMany_ok hr
    obtain ⟨fresh, messages⟩ := Keyed.Table.insert_eq_some hi
    refine .created rfl (MessageRepository.create_new hc) fresh ?_ ?_ ?_
    · rw [rest]
      exact messages
    · rw [rows, hmid]
    · rw [rest, hmid]

theorem MessageLocationRepository.upsert_flags {row saved : MessageLocation} {db db' : Database}
    (h : upsert row db = .ok (saved, db')) : saved.flags = row.flags := by
  unfold upsert at h
  split at h
  · cases h
  split at h
  · cases h
  split at h
  · cases h
    rfl
  split at h
  · cases h
  split at h
  · cases h
  · cases h
    rfl

/-- The locations after a call: its own is where the call has put it, the others are as they were. -/
structure Placing (call : RecordCall) (r : RecordedMessage) (before after : Keyed.Table MessageLocation.id)
    (saved : MessageLocation) : Prop extends PlacedIn r.messageId call.folderId call.uid call.uidvalidity before after saved where
  flags : saved.flags = call.flags

theorem RecordCall.body_ok {call : RecordCall} {r : RecordedMessage} {db db' : Database}
    (h : call.body db = .ok (r, db')) :
    ∃ mid saved, Archival call db mid r ∧ db' = { mid with locations := db'.locations } ∧
      Placing call r db.locations db'.locations saved := by
  obtain ⟨recorded, mid, hm, h⟩ := Transaction.bind_eq_ok.mp h
  obtain ⟨saved, mid', hu, h⟩ := Transaction.bind_eq_ok.mp h
  obtain ⟨rfl, rfl⟩ := Transaction.pure_eq_ok.mp h
  obtain ⟨hdb, hp⟩ := MessageLocationRepository.upsert_ok hu
  have locations := (findOrCreateMessage_ok hm).locations
  exact ⟨mid, saved, findOrCreateMessage_archival hm, hdb, { locations ▸ hp with flags := MessageLocationRepository.upsert_flags hu }⟩

namespace Placing
variable {call : RecordCall} {r : RecordedMessage} {before after : Keyed.Table MessageLocation.id}
    {saved : MessageLocation}

private theorem asPlaced (h : Placing call r before after saved) : saved.AsPlaced r.messageId call :=
  ⟨h.at_place.1, h.at_place.2, h.as_given.1, h.as_given.2, h.flags⟩

/-- A location of another message or another folder. -/
theorem elsewhere (h : Placing call r before after saved) {l : MessageLocation}
    (other : ¬ (r.messageId = l.messageId ∧ call.folderId = l.folderId)) : l ∈ after ↔ l ∈ before := by
  constructor
  · intro hl
    rcases h.others l hl with rfl | old
    · exact absurd ⟨h.at_place.1.symm, h.at_place.2.symm⟩ other
    · exact old.1
  · intro hl
    rcases h.kept l hl with kept | ⟨-, message, folder⟩
    · exact kept
    · exact absurd ⟨message.symm, folder.symm⟩ other

theorem unique (h : Placing call r before after saved)
    (place : ∀ l ∈ before, ∀ l' ∈ before, l.messageId = l'.messageId → l.folderId = l'.folderId → l = l') :
    ∀ l ∈ after, ∀ l' ∈ after, l.messageId = l'.messageId → l.folderId = l'.folderId → l = l' := by
  have only : ∀ l ∈ after, l.messageId = r.messageId → l.folderId = call.folderId → l = saved := by
    intro l hl message folder
    rcases h.others l hl with same | ⟨old, differs⟩
    · exact same
    · obtain ⟨l₀, hl₀, hid, message₀, folder₀⟩ := h.replaced l old message folder
      rw [place l old l₀ hl₀ (message.trans message₀.symm) (folder.trans folder₀.symm)] at differs
      exact absurd hid differs
  intro l hl l' hl' message folder
  by_cases here : r.messageId = l.messageId ∧ call.folderId = l.folderId
  · rw [only l hl here.1.symm here.2.symm, only l' hl' (message.symm.trans here.1.symm) (folder.symm.trans here.2.symm)]
  · exact place l ((h.elsewhere here).mp hl) l' ((h.elsewhere (message ▸ folder ▸ here)).mp hl') message folder

end Placing

/-- The messages after a call: those of before, and the new one if the call has created it. -/
theorem Archival.mem_messages {call : RecordCall} {before after : Database} {r : RecordedMessage}
    (h : Archival call before after r) {m : Message} :
    m ∈ after.messages ↔ m ∈ before.messages ∨ r.created = true ∧
      m = call.parsed.toRow call.tokens.message call.accountId := by
  cases h with
  | found same old _ => simp [same, old]
  | created reply _ _ messages _ _ => rw [Keyed.Table.mem_def, messages, List.mem_append, List.mem_singleton, reply, Keyed.Table.mem_def]; simp

theorem Archival.row {call : RecordCall} {before after : Database} {r : RecordedMessage}
    (h : Archival call before after r) :
    ∃ m ∈ after.messages, m.id = r.messageId ∧ m.accountId = call.accountId ∧
      m.contentHash = call.parsed.contentHash := by
  cases h with
  | found same _ row => exact same ▸ row
  | created reply new fresh messages attachments locations =>
    have arch : Archival call before after r := .created reply new fresh messages attachments locations
    exact ⟨_, arch.mem_messages.mpr (.inr ⟨by rw [reply], rfl⟩), by rw [reply]; rfl, rfl, rfl⟩

/-- The unique index on content holds on. -/
theorem Archival.content {call : RecordCall} {before after : Database} {r : RecordedMessage}
    (h : Archival call before after r)
    (unique : ∀ m ∈ before.messages, ∀ m' ∈ before.messages, m.accountId = m'.accountId → m.contentHash = m'.contentHash → m = m') :
    ∀ m ∈ after.messages, ∀ m' ∈ after.messages, m.accountId = m'.accountId →
      m.contentHash = m'.contentHash → m = m' := by
  cases h with
  | found same _ _ => exact same ▸ unique
  | created reply new fresh messages attachments locations =>
    have arch : Archival call before after r := .created reply new fresh messages attachments locations
    intro m hm m' hm' account content
    rcases arch.mem_messages.mp hm with old | ⟨-, rfl⟩
    · rcases arch.mem_messages.mp hm' with old' | ⟨-, rfl⟩
      · exact unique m old m' old' account content
      · exact absurd content (new m old account)
    · rcases arch.mem_messages.mp hm' with old' | ⟨-, rfl⟩
      · exact absurd content.symm (new m' old' account.symm)
      · rfl

theorem ParsedMessage.attachmentRows_owner {parsed : ParsedMessage} {ids : Nat → Nat} {messageId : MessageId}
    {accountId : AccountId} {t : MessageAttachment} (h : t ∈ parsed.attachmentRows ids messageId accountId) :
    t.messageId = messageId := by
  obtain ⟨_, -, rfl⟩ := List.mem_map.mp h
  rfl

section
variable {before after : Database} {parsed : ParsedMessage} {ids : Nat → Nat} {messageId : MessageId} {accountId : AccountId}

/-- The rows of a new message's attachments are of no message that was there. -/
theorem Database.attachmentsOf_append_of_ne
    (rows : after.attachments.rows = before.attachments.rows ++ parsed.attachmentRows ids messageId accountId)
    {id : MessageId} (other : id ≠ messageId) : after.attachmentsOf id = before.attachmentsOf id := by
  have none_added : (parsed.attachmentRows ids messageId accountId).filter (·.messageId = id) = [] := by
    refine List.filter_eq_nil_iff.mpr fun t ht own => other ?_
    exact (of_decide_eq_true own).symm.trans (ParsedMessage.attachmentRows_owner ht)
  unfold attachmentsOf
  rw [rows, List.filter_append, none_added, List.append_nil]

theorem Database.attachmentsOf_append_self
    (rows : after.attachments.rows = before.attachments.rows ++ parsed.attachmentRows ids messageId accountId)
    (fresh : ∀ t ∈ before.attachments, t.messageId ≠ messageId) :
    after.attachmentsOf messageId = parsed.attachmentRows ids messageId accountId := by
  have none_owned : before.attachments.rows.filter (·.messageId = messageId) = [] :=
    List.filter_eq_nil_iff.mpr fun t ht own => fresh t ht (of_decide_eq_true own)
  unfold attachmentsOf
  rw [rows, List.filter_append, none_owned, List.nil_append, List.filter_eq_self]
  exact fun t ht => decide_eq_true (ParsedMessage.attachmentRows_owner ht)

end

namespace Recordings.Sound
variable {start : Database} {s : Recordings} {call : RecordCall} {r : RecordedMessage} {mid after : Database}

private theorem of_start (h : start.Indexed) : Sound start ⟨start, []⟩ where
  indexed := h
  resolved := fun _ he => absurd he List.not_mem_nil
  origin := fun _ hm => .start hm rfl rfl
  placed := fun _ _ _ newest => absurd newest (Option.some_ne_none _).symm
  untouched := fun _ _ => Iff.rfl

private theorem owner (h : Sound start s) (arch : Archival call s.db mid r) :
    ∀ t ∈ mid.attachments, ∃ m ∈ mid.messages, m.id = t.messageId := by
  cases arch with
  | found same _ _ => exact same ▸ h.indexed.owner
  | created reply new fresh messages attachments locations =>
    have arch : Archival call s.db mid r := .created reply new fresh messages attachments locations
    intro t ht
    rw [Keyed.Table.mem_def, attachments, List.mem_append] at ht
    rcases ht with old | added
    · obtain ⟨m, hm, own⟩ := h.indexed.owner t old
      exact ⟨m, arch.mem_messages.mpr (.inl hm), own⟩
    · exact ⟨_, arch.mem_messages.mpr (.inr ⟨by rw [reply], rfl⟩), (ParsedMessage.attachmentRows_owner added).symm⟩

/-- The rows of the attachments of each message keep their origin; those of a new message come from the call. -/
private theorem origin_after (h : Sound start s) (arch : Archival call s.db mid r)
    (messages : after.messages = mid.messages)
    (attachments : after.attachments = mid.attachments) :
    ∀ m ∈ after.messages, Origin start ⟨after, (call, r) :: s.log⟩ m := by
  intro m hm
  rw [messages] at hm
  cases arch with
  | found same old _ =>
    subst same
    have rows : after.attachmentsOf m.id = s.db.attachmentsOf m.id := by
      rw [Database.attachmentsOf, attachments]
      rfl
    have log : ((call, r) :: s.log).filter (fun e => e.2.created && e.2.messageId = m.id) =
        s.log.filter (fun e => e.2.created && e.2.messageId = m.id) := List.filter_cons_of_neg (by simp [old])
    cases h.origin m hm with
    | start there same never => exact .start there (rows.trans same) (log.trans never)
    | created call once row attachments => exact .created call (log.trans once) row (rows.trans attachments)
  | created reply new fresh messages' attachments' locations =>
    have arch : Archival call s.db mid r := .created reply new fresh messages' attachments' locations
    have added : after.attachments.rows = s.db.attachments.rows ++
        call.parsed.attachmentRows call.tokens.attachment call.tokens.message call.accountId := by
      rw [attachments]
      exact attachments'
    rcases arch.mem_messages.mp hm with old | ⟨-, rfl⟩
    · have log : ((call, r) :: s.log).filter (fun e => e.2.created && e.2.messageId = m.id) =
          s.log.filter (fun e => e.2.created && e.2.messageId = m.id) :=
        List.filter_cons_of_neg (by simp [reply, (fresh m old).symm])
      have same : after.attachmentsOf m.id = s.db.attachmentsOf m.id := Database.attachmentsOf_append_of_ne added (fresh m old)
      cases h.origin m old with
      | start there same' never => exact .start there (same.trans same') (log.trans never)
      | created call once row attachments => exact .created call (log.trans once) row (same.trans attachments)
    · have none_before : s.log.filter (fun e => e.2.created && e.2.messageId = call.tokens.message) = [] := by
        apply List.filter_eq_nil_iff.mpr
        intro e he own
        obtain ⟨m, there, id, -⟩ := h.resolved e he
        have meant : e.2.created = true ∧ e.2.messageId = call.tokens.message := by simpa using own
        exact fresh m there (id.trans meant.2)
      have log : ((call, r) :: s.log).filter (fun e => e.2.created && e.2.messageId = call.tokens.message) =
          [(call, ⟨call.tokens.message, true⟩)] := by
        rw [List.filter_cons_of_pos (by simp [reply]), none_before, reply]
      have own : after.attachmentsOf call.tokens.message =
          call.parsed.attachmentRows call.tokens.attachment call.tokens.message call.accountId := by
        refine Database.attachmentsOf_append_self added fun t ht own => ?_
        obtain ⟨m, there, id⟩ := h.indexed.owner t ht
        exact fresh m there (id.trans own)
      exact .created call log rfl own

theorem commit (h : Sound start s) (ok : call.body s.db = .ok (r, after)) :
    Sound start ⟨after, (call, r) :: s.log⟩ := by
  obtain ⟨mid, saved, arch, rest, placing⟩ := RecordCall.body_ok ok
  have messages : after.messages = mid.messages := by rw [rest]
  have attachments : after.attachments = mid.attachments := by rw [rest]
  have placing_of {messageId : MessageId} {folderId : FolderId} :
      lastPlacing ⟨after, (call, r) :: s.log⟩ messageId folderId =
        if r.messageId = messageId ∧ call.folderId = folderId then some call else s.lastPlacing messageId folderId := by
    unfold lastPlacing
    rw [List.find?_cons]
    by_cases here : r.messageId = messageId ∧ call.folderId = folderId
    · simp [here]
    · rw [if_neg here]
      have off : (decide (r.messageId = messageId) && decide (call.folderId = folderId)) = false := by
        simpa using here
      simp only [off]
  refine ⟨⟨messages ▸ arch.content h.indexed.content, placing.unique h.indexed.place, attachments ▸ messages ▸ h.owner arch⟩, ?_,
    h.origin_after arch messages attachments, ?_, ?_⟩
  · intro e he
    rw [messages]
    rcases List.mem_cons.mp he with rfl | old
    · exact arch.row
    · obtain ⟨m, hm, found⟩ := h.resolved e old
      exact ⟨m, arch.mem_messages.mpr (.inl hm), found⟩
  · intro messageId folderId last newest
    rw [placing_of] at newest
    split at newest
    · rename_i here
      obtain rfl := Option.some.inj newest
      exact ⟨saved, placing.mem, here.1 ▸ placing.asPlaced, here.2⟩
    · rename_i other
      obtain ⟨l, hl, put, folder⟩ := h.placed messageId folderId last newest
      refine ⟨l, (placing.elsewhere ?_).mpr hl, put, folder⟩
      rw [put.messageId, put.folderId, folder]
      exact other
  · intro l none
    rw [placing_of] at none
    split at none
    · cases none
    · rename_i other
      exact (placing.elsewhere other).trans (h.untouched l none)

theorem attempt (h : Sound start s) (call : RecordCall) (fault : Option DbErr) :
    Sound start (s.attempt call fault).2 := by
  unfold Recordings.attempt
  split
  · exact h
  · split
    · exact h
    · rename_i r db ok
      exact h.commit ok

/-- A content that some call has recorded stays as it is. -/
private theorem attempt_again (h : Sound start s) {e : RecordCall × RecordedMessage} (he : e ∈ s.log)
    {again : RecordCall}
    (account : again.accountId = e.1.accountId) (content : again.parsed.contentHash = e.1.parsed.contentHash)
    (fault : Option DbErr) : (s.attempt again fault).2.db.messages = s.db.messages ∧
      (s.attempt again fault).2.db.attachments = s.db.attachments := by
  unfold Recordings.attempt
  split
  · exact ⟨rfl, rfl⟩
  · split
    · exact ⟨rfl, rfl⟩
    · rename_i r db ok
      obtain ⟨mid, saved, arch, rest, -⟩ := RecordCall.body_ok ok
      obtain ⟨m, hm, -, there, same⟩ := h.resolved e he
      cases arch with
      | found same _ _ =>
        rw [rest, same]
        exact ⟨rfl, rfl⟩
      | created reply new fresh messages attachments locations =>
        exact absurd (same.trans content.symm) (new m hm (there.trans account.symm))

end Recordings.Sound

private theorem Recordings.run_sound {start : Database} (h : start.Indexed) (calls : List (RecordCall × Option DbErr)) :
    (run start calls).Sound start := by
  have step : ∀ s : Recordings, s.Sound start → (calls.foldl (fun s c => (s.attempt c.1 c.2).2) s).Sound start := by
    induction calls with
    | nil => exact fun s hs => hs
    | cons c rest ih => exact fun s hs => ih _ (hs.attempt c.1 c.2)
  exact step _ (.of_start h)

/-- Recording is idempotent and deduplicates: whatever calls were made and whichever of them failed, the store is
sound, and a call for a content that was recorded before changes no message and no attachment. -/
theorem recording_idempotent {start : Database} (indexed : start.Indexed)
    (calls : List (RecordCall × Option DbErr)) :
    (Recordings.run start calls).Sound start ∧
      ∀ e ∈ (Recordings.run start calls).log, ∀ (again : RecordCall) (fault : Option DbErr),
        again.accountId = e.1.accountId → again.parsed.contentHash = e.1.parsed.contentHash →
        ((Recordings.run start calls).attempt again fault).2.db.messages =
          (Recordings.run start calls).db.messages ∧
        ((Recordings.run start calls).attempt again fault).2.db.attachments =
          (Recordings.run start calls).db.attachments :=
  ⟨Recordings.run_sound indexed calls,
    fun _ he _ fault account content => (Recordings.run_sound indexed calls).attempt_again he account content fault⟩

def letter : ParsedMessage where
  rfc822MessageId := ""
  contentHash := firstByte [7]
  subject := none
  fromAddress := "you@example.org"
  fromName := none
  toAddresses := []
  ccAddresses := []
  bccAddresses := []
  replyToAddresses := []
  sentDate := none
  inReplyTo := none
  references := []
  snippet := ""
  sizeBytes := 1
  attachments := [⟨firstByte [8], none, "text/plain", 1, false, none⟩]

def letterCall (token : Nat) (uid : U32) : RecordCall :=
  ⟨⟨token, fun i => token + i, token⟩, 1, 7, uid, 4, 0, mapFlags [], letter⟩

/-- The second call moves the location and leaves the message and its attachment alone. -/
theorem recording_idempotent_twoUids :
    let s := Recordings.run (inboxWorld (some 4) 0).db [(letterCall 1 3, none), (letterCall 2 4, none)]
    s.Sound (inboxWorld (some 4) 0).db ∧ s.log.map (fun e => (e.2.messageId, e.2.created)) =
      [(1, false), (1, true)] ∧
      s.db.messages.rows.map Message.id = [1] ∧ s.db.attachments.rows.map (·.id) = [1] ∧
      s.db.locations.rows.map (fun l => (l.messageId, l.folderId, l.uid)) = [(1, 7, 4)] := by
  have indexed : (inboxWorld (some 4) 0).db.Indexed :=
    ⟨fun m hm => absurd hm (Keyed.Table.not_mem_empty m), fun l hl => absurd hl (Keyed.Table.not_mem_empty l),
      fun t ht => absurd ht (Keyed.Table.not_mem_empty t)⟩
  exact ⟨(recording_idempotent indexed _).1, by decide +kernel, by decide +kernel, by decide +kernel, by decide +kernel⟩

end MailKeep
