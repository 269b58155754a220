import MailKeep.Keyed.LastWrite
import MailKeep.Imap.ServedMail
import MailKeep.Pipeline.Deduplication

/-! The locations of a folder and the parse jobs that still wait to place more: what the folder will show in the end
does not change while a worker serves them. -/
namespace MailKeep
open Program Backend

/-- A location, with the content of its message in the place of the ids that are drawn. -/
structure LocationEntry where
  accountId : AccountId
  contentHash : ContentHash
  uid : U32
  uidvalidity : U32
  flags : MessageFlags
  internalDate : DateTimeUtc
deriving DecidableEq

def LocationEntry.content (e : LocationEntry) : AccountId × ContentHash := (e.accountId, e.contentHash)

def MessageLocation.entry (l : MessageLocation) (m : Message) : LocationEntry :=
  ⟨m.accountId, m.contentHash, l.uid, l.uidvalidity, l.flags, l.internalDate⟩

def ParseMessageJob.entry (p : ParseMessageJob) : LocationEntry :=
  ⟨p.accountId, p.contentHash, p.uid, p.uidvalidity, p.flags, p.internalDate⟩

def RecordCall.entry (call : RecordCall) : LocationEntry :=
  ⟨call.accountId, call.parsed.contentHash, call.uid, call.uidvalidity, call.flags, call.internalDate⟩

def Database.shown (db : Database) (folderId : FolderId) : Set LocationEntry :=
  {e | ∃ l ∈ db.locations, l.folderId = folderId ∧ ∃ m ∈ db.messages, m.id = l.messageId ∧ l.entry m = e}

/-- What the schema keeps: the unique indexes on content and on place, the foreign key of the locations, no id 0. -/
structure Database.Constrained (db : Database) : Prop where
  content : ∀ m ∈ db.messages, ∀ m' ∈ db.messages, m.accountId = m'.accountId →
    m.contentHash = m'.contentHash → m = m'
  place : ∀ l ∈ db.locations, ∀ l' ∈ db.locations, l.messageId = l'.messageId → l.folderId = l'.folderId → l = l'
  located : ∀ l ∈ db.locations, ∃ m ∈ db.messages, m.id = l.messageId
  ids : ∀ m ∈ db.messages, m.id ≠ 0

private theorem MessageLocationRepository.upsert_internalDate {row saved : MessageLocation} {db db' : Database}
    (h : upsert row db = .ok (saved, db')) : saved.internalDate = row.internalDate := by
  unfold upsert at h
  split at h
  · cases h
  split at h
  · cases h
  split at h
  · cases h
    rfl
  split at h
  · cases h
  split at h
  · cases h
  · cases h
    rfl

section
variable {call : RecordCall} {r : RecordedMessage} {db db' : Database}

/-- The entry of the call takes the place of the one that its content had in its folder. -/
theorem RecordCall.body_shown (h : call.body db = .ok (r, db')) (sound : db.Constrained)
    (nonzero : call.tokens.message ≠ 0) :
    db'.Constrained ∧ ∀ folderId, db'.shown folderId =
      if call.folderId = folderId then Keyed.write LocationEntry.content call.entry
        (db.shown folderId) else db.shown folderId := by
  obtain ⟨recorded, mid, hm, h⟩ := Transaction.bind_eq_ok.mp h
  obtain ⟨saved, mid', hu, h⟩ := Transaction.bind_eq_ok.mp h
  obtain ⟨rfl, rfl⟩ := Transaction.pure_eq_ok.mp h
  obtain ⟨rest, placedIn⟩ := MessageLocationRepository.upsert_ok hu
  have arch : Archival call db mid recorded := findOrCreateMessage_archival hm
  have placing : Placing call recorded db.locations mid'.locations saved :=
    { (findOrCreateMessage_ok hm).locations ▸ placedIn with flags := MessageLocationRepository.upsert_flags hu }
  have messages : mid'.messages = mid.messages := by rw [rest]
  have content := messages ▸ arch.content sound.content
  have old_kept : ∀ m ∈ db.messages, m ∈ mid'.messages := fun m hm => messages ▸ arch.mem_messages.mpr (.inl hm)
  obtain ⟨row, hrow, row_id, row_account, row_content⟩ := messages ▸ arch.row
  -- the message of a location of before is the one it had
  have same_message : ∀ l ∈ db.locations, ∀ m ∈ mid'.messages, m.id = l.messageId → m ∈ db.messages := by
    intro l hl m hm own
    obtain ⟨m₀, hm₀, own₀⟩ := sound.located l hl
    rwa [Keyed.Table.eq_of_key hm (old_kept m₀ hm₀) (own.trans own₀.symm)]
  have saved_entry : ∀ m ∈ mid'.messages, m.id = saved.messageId → saved.entry m = call.entry := by
    intro m hm own
    obtain rfl := Keyed.Table.eq_of_key hm hrow (own.trans (placing.at_place.1.trans row_id.symm))
    rw [MessageLocation.entry, RecordCall.entry, row_account, row_content, placing.as_given.1, placing.as_given.2, placing.flags,
      MessageLocationRepository.upsert_internalDate hu]
  -- a location of before that is still there is of another content or in another folder
  have other_content : ∀ l ∈ db.locations, l.id ≠ saved.id → l.folderId = call.folderId → ∀ m ∈ mid'.messages,
      m.id = l.messageId → (l.entry m).content ≠ call.entry.content := by
    intro l hl differs here m hm own same
    obtain ⟨account, hash⟩ := Prod.mk.inj same
    obtain rfl := content m hm row hrow (account.trans row_account.symm) (hash.trans row_content.symm)
    obtain ⟨l₀, hl₀, id, message, folder⟩ := placing.replaced l hl (own.symm.trans row_id) here
    rw [sound.place l hl l₀ hl₀ ((own.symm.trans row_id).trans message.symm) (here.trans folder.symm)] at differs
    exact differs id
  refine ⟨⟨content, placing.unique sound.place, fun l hl => ?_, fun m hm => ?_⟩, fun folderId => ?_⟩
  · rcases placing.others l hl with rfl | ⟨old, -⟩
    · exact ⟨row, hrow, row_id.trans placing.at_place.1.symm⟩
    · obtain ⟨m, hm, own⟩ := sound.located l old
      exact ⟨m, old_kept m hm, own⟩
  · rcases arch.mem_messages.mp (messages ▸ hm) with old | ⟨-, rfl⟩
    · exact sound.ids m old
    · exact nonzero
  · ext e
    constructor
    · rintro ⟨l, hl, here, m, hm, own, rfl⟩
      rcases placing.others l hl with rfl | ⟨old, differs⟩
      · rw [if_pos (placing.at_place.2.symm.trans here), saved_entry m hm own]
        exact .inl rfl
      · have before : l.entry m ∈ db.shown folderId := ⟨l, old, here, m, same_message l old m hm own, own, rfl⟩
        split
        · rename_i call_here
          exact .inr ⟨before, other_content l old differs (here.trans call_here.symm) m hm own⟩
        · exact before
    · intro he
      have kept : e ∈ db.shown folderId → (call.folderId = folderId → e.content ≠ call.entry.content) →
          e ∈ mid'.shown folderId := by
        rintro ⟨l, hl, here, m, hm, own, rfl⟩ other
        rcases placing.kept l hl with still | ⟨-, message, folder⟩
        · exact ⟨l, still, here, m, old_kept m hm, own, rfl⟩
        · obtain rfl := Keyed.Table.eq_of_key (old_kept m hm) hrow (own.trans (message.trans row_id.symm))
          refine absurd (Prod.ext ?_ ?_) (other (folder.symm.trans here))
          · exact row_account
          · exact row_content
      split at he
      · rename_i call_here
        rcases he with rfl | ⟨old, differs⟩
        · have own : row.id = saved.messageId := row_id.trans placing.at_place.1.symm
          exact ⟨saved, placing.mem, placing.at_place.2.trans call_here, row, hrow, own, saved_entry row hrow own⟩
        · exact kept old fun _ => differs
      · rename_i elsewhere
        exact kept he fun here => absurd here elsewhere

end
end MailKeep
