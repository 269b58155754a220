import MailKeep.Frontend.MessageView
import MailKeep.Pipeline.Deduplication

/-! Every archived message is what the parser makes of the mail that is stored for it, and every step keeps it so. -/
namespace MailKeep
open Program

def ExtractedAttachment.stored (computeHash : Bytes → ContentHash) (att : ExtractedAttachment) : ParsedAttachment :=
  ⟨computeHash att.bytes, att.filename, att.contentType, att.bytes.length, att.isInline, att.contentId⟩

def ParsedEml.recorded (computeHash : Bytes → ContentHash) (parsed : ParsedEml) (contentHash : ContentHash) : ParsedMessage :=
  parsed.message contentHash (parsed.attachments.map (·.stored computeHash))

section
variable (computeHash : Bytes → ContentHash) (parseEml : ParseEml)

/-- The row and its attachments are what the parser makes of the blob under the row's hash, and all of it is stored. -/
structure World.Keeps (w : World) (m : Message) (raw : Bytes) (parsed : ParsedEml) : Prop where
  blob : w.raw m.accountId m.contentHash = some raw
  digest : computeHash raw = m.contentHash
  parses : parseEml m.contentHash raw = .ok parsed
  row : m = ((parsed.recorded computeHash m.contentHash).toRow m.id m.accountId).withIndexed m.indexed
  attachments : ((w.db.attachmentsOf m.id).map (·.toParsedAttachment)).Perm (parsed.attachments.map (·.stored computeHash))
  owned : ∀ t ∈ w.db.attachmentsOf m.id, t.accountId = m.accountId
  blobs : ∀ att ∈ parsed.attachments, ∃ bytes,
    w.attachments m.accountId (computeHash att.bytes) = some bytes ∧ computeHash bytes = computeHash att.bytes

namespace Viewing

structure Intact (s : Viewing) : Prop where
  raw : ∀ a k bytes, s.world.raw a k = some bytes → computeHash bytes = k
  blobs : ∀ a k bytes, s.world.attachments a k = some bytes → computeHash bytes = k
  live : ∀ a ∈ s.world.db.accounts, a.id ∉ s.retired
  account : ∀ m ∈ s.world.db.messages, ∃ a ∈ s.world.db.accounts, a.id = m.accountId
  owner : ∀ t ∈ s.world.db.attachments, ∃ m ∈ s.world.db.messages, m.id = t.messageId
  kept : ∀ m ∈ s.world.db.messages, ∃ raw parsed, s.world.Keeps computeHash parseEml m raw parsed

end Viewing
end

namespace Viewing

/-- Of an account that has not gone nothing is lost; only the mark of a message that is indexed may change. -/
structure Preserves (s t : Viewing) : Prop where
  retired : ∀ a ∈ s.retired, a ∈ t.retired
  accounts : ∀ a ∈ s.world.db.accounts, a.id ∈ t.retired ∨
    ∃ a' ∈ t.world.db.accounts, a'.id = a.id ∧ a'.userId = a.userId
  raw : ∀ a k bytes, s.world.raw a k = some bytes → a ∈ t.retired ∨ t.world.raw a k = some bytes
  blobs : ∀ a k bytes, s.world.attachments a k = some bytes → a ∈ t.retired ∨ t.world.attachments a k = some bytes
  rows : ∀ m ∈ s.world.db.messages, m.accountId ∈ t.retired ∨
    (∃ indexed, m.withIndexed indexed ∈ t.world.db.messages) ∧
      t.world.db.attachmentsOf m.id = s.world.db.attachmentsOf m.id

namespace Preserves
variable {s t u : Viewing}

theorem refl (s : Viewing) : Preserves s s :=
  ⟨fun _ h => h, fun a ha => .inr ⟨a, ha, rfl, rfl⟩, fun _ _ _ h => .inr h, fun _ _ _ h => .inr h,
    fun m hm => .inr ⟨⟨m.indexed, hm⟩, rfl⟩⟩

theorem trans (h : Preserves s t) (h' : Preserves t u) : Preserves s u where
  retired := fun a ha => h'.retired a (h.retired a ha)
  accounts := fun a ha => by
    rcases h.accounts a ha with gone | ⟨b, hb, id, user⟩
    · exact .inl (h'.retired _ gone)
    · rcases h'.accounts b hb with gone | ⟨c, hc, id', user'⟩
      · exact .inl (id ▸ gone)
      · exact .inr ⟨c, hc, id'.trans id, user'.trans user⟩
  raw := fun a k bytes stored => (h.raw a k bytes stored).elim (fun gone => .inl (h'.retired _ gone)) (h'.raw a k bytes)
  blobs := fun a k bytes stored =>
    (h.blobs a k bytes stored).elim (fun gone => .inl (h'.retired _ gone)) (h'.blobs a k bytes)
  rows := fun m hm => by
    rcases h.rows m hm with gone | ⟨⟨b, hb⟩, attachments⟩
    · exact .inl (h'.retired _ gone)
    · rcases h'.rows _ hb with gone | ⟨⟨b', hb'⟩, attachments'⟩
      · exact .inl gone
      · exact .inr ⟨⟨b', hb'⟩, attachments'.trans attachments⟩

end Preserves

section
variable {computeHash : Bytes → ContentHash} {parseEml : ParseEml} {s t : Viewing}

theorem Preserves.keeps (p : Preserves s t) {m : Message} {raw : Bytes} {parsed : ParsedEml} (hm : m ∈ s.world.db.messages)
    (there : m.accountId ∉ t.retired) (h : s.world.Keeps computeHash parseEml m raw parsed) (indexed : Bool) :
    t.world.Keeps computeHash parseEml (m.withIndexed indexed) raw parsed := by
  obtain ⟨-, attachments⟩ := (p.rows m hm).resolve_left there
  refine ⟨(p.raw _ _ _ h.blob).resolve_left there, h.digest, h.parses, ?_, ?_, ?_, fun att ha => ?_⟩
  · conv_lhs => rw [h.row]
    rfl
  · change ((t.world.db.attachmentsOf m.id).map _).Perm _
    rw [attachments]
    exact h.attachments
  · change ∀ x ∈ t.world.db.attachmentsOf m.id, x.accountId = m.accountId
    rw [attachments]
    exact h.owned
  · obtain ⟨bytes, stored, digest⟩ := h.blobs att ha
    exact ⟨bytes, (p.blobs _ _ _ stored).resolve_left there, digest⟩

theorem Intact.present (h : Intact computeHash parseEml s) {m : Message} (hm : m ∈ s.world.db.messages) :
    m.accountId ∉ s.retired := by
  obtain ⟨a, ha, id⟩ := h.account m hm
  exact id ▸ h.live a ha

/-- A step after which each message is one of before or is archived as it should be. -/
theorem Intact.advance (h : Intact computeHash parseEml s) (p : Preserves s t)
    (raw : ∀ a k bytes, t.world.raw a k = some bytes → s.world.raw a k = some bytes ∨ computeHash bytes = k)
    (blobs : ∀ a k bytes, t.world.attachments a k = some bytes →
      s.world.attachments a k = some bytes ∨ computeHash bytes = k)
    (live : ∀ a ∈ t.world.db.accounts, a.id ∉ t.retired)
    (messages : ∀ m ∈ t.world.db.messages, (∃ a ∈ t.world.db.accounts, a.id = m.accountId) ∧
      ((∃ m₀ ∈ s.world.db.messages, ∃ indexed, m = m₀.withIndexed indexed) ∨
        ∃ raw parsed, t.world.Keeps computeHash parseEml m raw parsed))
    (owner : ∀ x ∈ t.world.db.attachments, ∃ m ∈ t.world.db.messages, m.id = x.messageId) :
    Intact computeHash parseEml t where
  raw := fun a k bytes stored => (raw a k bytes stored).elim (h.raw a k bytes) id
  blobs := fun a k bytes stored => (blobs a k bytes stored).elim (h.blobs a k bytes) id
  live := live
  account := fun m hm => (messages m hm).1
  owner := owner
  kept := fun m hm => by
    obtain ⟨⟨a, ha, id⟩, ⟨m₀, hm₀, indexed, rfl⟩ | new⟩ := messages m hm
    · have there : m₀.accountId ∉ t.retired := id ▸ live a ha
      obtain ⟨raw, parsed, kept⟩ := h.kept m₀ hm₀
      exact ⟨raw, parsed, p.keeps hm₀ there kept indexed⟩
    · exact new

end
end Viewing

/-- Blobs come, each under its hash, and none goes but those of accounts that have gone. -/
structure Stocked (computeHash : Bytes → ContentHash) (retired : List AccountId)
    (before after : AccountId → ContentHash → Option Bytes) : Prop where
  kept : ∀ a k bytes, before a k = some bytes → a ∈ retired ∨ after a k = some bytes
  hashed : ∀ a k bytes, after a k = some bytes → before a k = some bytes ∨ computeHash bytes = k

namespace Stocked
variable {computeHash : Bytes → ContentHash} {retired : List AccountId} {before after : AccountId → ContentHash → Option Bytes}

theorem of_eq (same : after = before) : Stocked computeHash retired before after :=
  ⟨fun _ _ _ h => .inr (same ▸ h), fun _ _ _ h => .inl (same ▸ h)⟩

private theorem widen (h : Stocked computeHash [] before after) : Stocked computeHash retired before after :=
  ⟨fun a k bytes stored => (h.kept a k bytes stored).imp_left fun gone => (by cases gone), h.hashed⟩

private theorem of_removed {accountId : AccountId} (gone : accountId ∈ retired) (left : ContentHash → Bool) :
    Stocked computeHash retired before (removeBlobs before accountId left) := by
  refine ⟨fun a k bytes stored => ?_, fun a k bytes stored => ?_⟩
  · by_cases same : a = accountId
    · exact .inl (same ▸ gone)
    · exact .inr ((if_neg fun here => same here.1).trans stored)
  · unfold removeBlobs at stored
    split at stored
    · cases stored
    · exact .inl stored

end Stocked

private theorem putBlob_stocked {computeHash : Bytes → ContentHash} (store : AccountId → ContentHash → Option Bytes)
    (accountId : AccountId) (plaintext : Bytes) (c : Option PutFault) :
    Stocked computeHash [] store (putBlob computeHash store accountId plaintext c).2 := by
  have placed : Stocked computeHash [] store (placeBlob store accountId (computeHash plaintext) plaintext) := by
    constructor
    · intro a k bytes stored
      refine .inr ?_
      unfold placeBlob
      split
      · rw [stored]
        rfl
      · exact stored
    · intro a k bytes stored
      unfold placeBlob at stored
      split at stored
      · rename_i here
        cases was : store a k with
        | some old =>
          rw [was] at stored
          exact .inl stored
        | none =>
          rw [was] at stored
          cases stored
          exact .inr here.2.symm
      · exact .inl stored
  rcases c with _ | ⟨text, _ | _⟩
  · exact placed
  · exact .of_eq rfl
  · exact placed

structure World.Aside (computeHash : Bytes → ContentHash) (s t : World) : Prop where
  accounts : t.db.accounts = s.db.accounts
  messages : t.db.messages = s.db.messages
  attachments : t.db.attachments = s.db.attachments
  raw : Stocked computeHash [] s.raw t.raw
  blobs : Stocked computeHash [] s.attachments t.attachments

theorem World.Aside.of_db {computeHash : Bytes → ContentHash} {s t : World} (accounts : t.db.accounts = s.db.accounts)
    (messages : t.db.messages = s.db.messages) (attachments : t.db.attachments = s.db.attachments) (raw : t.raw = s.raw)
    (blobs : t.attachments = s.attachments) : s.Aside computeHash t :=
  ⟨accounts, messages, attachments, .of_eq raw, .of_eq blobs⟩

def BackendOp.Records : BackendOp → Prop
  | transact (.recordParsedMessage _ _) => True
  | _ => False

theorem backendExec_aside {computeHash : Bytes → ContentHash} {o : BackendOp} (plain : ¬ o.Records) (c : o.Choice)
    (w : World) : w.Aside computeHash (backendExec computeHash o c w).2 := by
  have rewritten : ∀ {f : Job → Job} {j : Job} {db : Database} {log : List Event}, Job.Rewritten f j w.db db →
      w.Aside computeHash { w with db := db, log := log } := by
    intro f j db log h
    refine .of_db ?_ ?_ ?_ rfl rfl
    all_goals exact h.rest ▸ rfl
  cases o with
  | putRaw accountId plaintext => exact ⟨rfl, rfl, rfl, putBlob_stocked _ _ _ c, .of_eq rfl⟩
  | putAttachment accountId plaintext => exact ⟨rfl, rfl, rfl, .of_eq rfl, putBlob_stocked _ _ _ c⟩
  | connect | select _ | getRaw _ _ => cases c <;> exact .of_db rfl rfl rfl rfl rfl
  | logout | uidFetch _ _ _ _ | idle | isCancelled | sleep _ | now | setStatus _ _ | note _ =>
    exact .of_db rfl rfl rfl rfl rfl
  | transact x =>
    rcases w.transact_cases x c with ⟨e, he⟩ | ⟨d, r, db, rfl, body, ok⟩
    · change w.Aside computeHash (w.transact x c).2
      rw [he]
      exact .of_db rfl rfl rfl rfl rfl
    · change w.Aside computeHash (w.transact x (.ok d)).2
      rw [ok]
      cases x with
      | recordParsedMessage _ _ => exact absurd trivial plain
      | enqueueRaw jobType payload priority =>
        obtain ⟨-, -, rest, -⟩ := JobRepository.enqueueRaw_ok body
        refine .of_db ?_ ?_ ?_ rfl rfl
        all_goals exact rest ▸ rfl
      | recordSyncProgress folderId uidvalidity lastUid now =>
        obtain ⟨-, rfl⟩ := FolderRepository.updateSyncState_ok body
        exact .of_db rfl rfl rfl rfl rfl
      | deleteLocationsForFolder folderId =>
        obtain rfl := MessageLocationRepository.deleteByFolderId_ok body
        exact .of_db rfl rfl rfl rfl rfl
      | claimNext =>
        rcases JobRepository.claimNext_ok body with ⟨-, rfl⟩ | ⟨j, -, -, -, h⟩
        · exact .of_db rfl rfl rfl rfl rfl
        · exact rewritten h
      | complete job =>
        obtain ⟨j, -, -, h⟩ := JobRepository.complete_ok body
        exact rewritten h
      | fail job error =>
        obtain ⟨j, -, -, h | ⟨-, h⟩⟩ := JobRepository.fail_ok body
        · exact rewritten h
        · exact rewritten h
      | failTerminal job error =>
        obtain ⟨j, -, -, h⟩ := JobRepository.failTerminal_ok body
        exact rewritten h

/-- The indexer touches no row but for its mark. -/
private theorem indexExec_messages (o : IndexOp) (c : o.Choice) (w : IndexWorld) :
    (indexExec o c w).2.messages = w.messages ∨
      ∃ p indexed, (indexExec o c w).2.messages = (w.setIndexed p indexed).messages := by
  have either : ∀ {ε ε' α : Type} (toError : ε → ε') (value : α) (w' : IndexWorld) (c : Option (Fault ε)),
      (fallible toError value w w' c).2 = w ∨ (fallible toError value w w' c).2 = w' := by
    intro ε ε' α toError value w' c
    rcases c with _ | ⟨e, _ | _⟩
    · exact .inr rfl
    · exact .inl rfl
    · exact .inr rfl
  have quiet : ∀ {ε ε' α : Type} (toError : ε → ε') (value : α) {w' : IndexWorld} (c : Option (Fault ε)),
      w'.messages = w.messages → (fallible toError value w w' c).2.messages = w.messages := by
    intro ε ε' α toError value w' c same
    rcases either toError value w' c with h | h
    · rw [h]
    · rw [h, same]
  cases o with
  | markIndexed ids =>
    rcases either _ () _ c with same | marked
    · exact .inl (congrArg IndexWorld.messages same)
    · exact .inr ⟨_, _, congrArg IndexWorld.messages marked⟩
  | resetAllIndexed =>
    rcases either _ w.messages.rows.length _ c with same | marked
    · exact .inl (congrArg IndexWorld.messages same)
    · exact .inr ⟨fun _ => true, false, by simp only [indexExec, marked]⟩
  | openOrCreate schema =>
    refine .inl ?_
    simp only [indexExec]
    repeat' split
    all_goals rfl
  | writeSidecar text => rcases c with _ | _ <;> exact .inl rfl
  | removeEntry entry => exact .inl (quiet _ () c (by cases entry <;> rfl))
  | createDirAll | lockWriter | truncateSidecar | deleteAllDocuments | addDocument _ | commit =>
    exact .inl (quiet _ () c rfl)
  | listUnindexed limit => exact .inl (quiet _ (w.listUnindexed limit) c rfl)
  | openIndex | readDir | readSidecar | deleteTerm _ | getRaw _ | serve => exact .inl rfl

namespace Viewing
variable {computeHash : Bytes → ContentHash} {parseEml : ParseEml} {s t : Viewing} {after : Installation}

theorem mem_retired {a : AccountId} : a ∈ (s.next after).retired ↔
    a ∈ s.retired ∨ ∃ row ∈ s.world.db.accounts, row.id = a ∧ ∀ b ∈ after.world.db.accounts, b.id ≠ a := by
  have gone : ∀ row : Account, (after.world.db.accounts.find? row.id).isNone = true ↔
      ∀ b ∈ after.world.db.accounts, b.id ≠ row.id := by
    intro row
    rw [Option.isNone_iff_eq_none, Option.eq_none_iff_forall_ne_some]
    constructor
    · intro none b hb same
      exact none b (Keyed.Table.find?_eq_some.mpr ⟨hb, same⟩)
    · intro none b found
      obtain ⟨hb, same⟩ := Keyed.Table.find?_eq_some.mp found
      exact none b hb same
  change a ∈ (s.world.db.accounts.rows.filter _).map Account.id ++ s.retired ↔ _
  rw [List.mem_append, List.mem_map, or_comm]
  refine or_congr_right ⟨?_, ?_⟩
  · rintro ⟨row, hrow, rfl⟩
    obtain ⟨there, none⟩ := List.mem_filter.mp hrow
    exact ⟨row, there, rfl, (gone row).mp none⟩
  · rintro ⟨row, there, rfl, none⟩
    exact ⟨row, List.mem_filter.mpr ⟨there, (gone row).mpr none⟩, rfl⟩

/-- Where every account keeps its row none retires. -/
private theorem mem_retired_same (accounts : after.world.db.accounts = s.world.db.accounts) {a : AccountId} :
    a ∈ (s.next after).retired ↔ a ∈ s.retired := by
  rw [mem_retired, accounts]
  refine or_iff_left ?_
  rintro ⟨row, there, same, none⟩
  exact none row there same

structure Tended (computeHash : Bytes → ContentHash) (s t : Viewing) : Prop where
  raw : Stocked computeHash s.retired s.world.raw t.world.raw
  blobs : Stocked computeHash s.retired s.world.attachments t.world.attachments
  messages : ∀ m ∈ s.world.db.messages, ∃ indexed, m.withIndexed indexed ∈ t.world.db.messages
  marked : ∀ m ∈ t.world.db.messages, ∃ m₀ ∈ s.world.db.messages, ∃ indexed, m = m₀.withIndexed indexed
  attachments : t.world.db.attachments = s.world.db.attachments
  accounts : ∀ a ∈ s.world.db.accounts, ∃ a' ∈ t.world.db.accounts, a'.id = a.id ∧ a'.userId = a.userId
  created : ∀ a' ∈ t.world.db.accounts, (∃ a ∈ s.world.db.accounts, a.id = a'.id) ∨ a'.id ∉ s.retired
  retired : ∀ a, a ∈ t.retired ↔ a ∈ s.retired

theorem Intact.tended (h : Intact computeHash parseEml s) (step : Tended computeHash s t) :
    Intact computeHash parseEml t ∧ Preserves s t := by
  have account : ∀ m ∈ s.world.db.messages, ∃ a ∈ t.world.db.accounts, a.id = m.accountId := by
    intro m hm
    obtain ⟨a, ha, id⟩ := h.account m hm
    obtain ⟨a', ha', id', -⟩ := step.accounts a ha
    exact ⟨a', ha', id'.trans id⟩
  have keeps : Preserves s t := by
    refine ⟨fun a => (step.retired a).mpr, fun a ha => .inr (step.accounts a ha),
      fun a k bytes stored => (step.raw.kept a k bytes stored).imp_left (step.retired a).mpr,
      fun a k bytes stored => (step.blobs.kept a k bytes stored).imp_left (step.retired a).mpr,
      fun m hm => .inr ⟨step.messages m hm, ?_⟩⟩
    unfold Database.attachmentsOf
    rw [step.attachments]
  refine ⟨h.advance keeps step.raw.hashed step.blobs.hashed (fun a ha => ?_) (fun m hm => ?_) (fun x hx => ?_), keeps⟩
  · rw [step.retired]
    rcases step.created a ha with ⟨b, hb, same⟩ | new
    · exact same ▸ h.live b hb
    · exact new
  · obtain ⟨m₀, hm₀, indexed, rfl⟩ := step.marked m hm
    exact ⟨account m₀ hm₀, .inl ⟨m₀, hm₀, indexed, rfl⟩⟩
  · obtain ⟨m, hm, id⟩ := h.owner x (step.attachments ▸ hx)
    obtain ⟨indexed, there⟩ := step.messages m hm
    exact ⟨_, there, id⟩

/-- The same where the accounts keep their rows. -/
private theorem Tended.of_accounts (accounts : after.world.db.accounts = s.world.db.accounts)
    (raw : Stocked computeHash s.retired s.world.raw after.world.raw)
    (blobs : Stocked computeHash s.retired s.world.attachments after.world.attachments)
    (messages : ∀ m ∈ s.world.db.messages, ∃ indexed, m.withIndexed indexed ∈ after.world.db.messages)
    (marked : ∀ m ∈ after.world.db.messages, ∃ m₀ ∈ s.world.db.messages, ∃ indexed, m = m₀.withIndexed indexed)
    (attachments : after.world.db.attachments = s.world.db.attachments) : Tended computeHash s (s.next after) where
  raw := raw
  blobs := blobs
  messages := messages
  marked := marked
  attachments := attachments
  accounts := fun a ha => ⟨a, accounts ▸ ha, rfl, rfl⟩
  created := fun a ha => .inl ⟨a, accounts ▸ ha, rfl⟩
  retired := fun _ => mem_retired_same accounts

/-- And the messages, too. -/
theorem Tended.of_rows (accounts : after.world.db.accounts = s.world.db.accounts)
    (messages : after.world.db.messages = s.world.db.messages)
    (attachments : after.world.db.attachments = s.world.db.attachments)
    (raw : Stocked computeHash s.retired s.world.raw after.world.raw)
    (blobs : Stocked computeHash s.retired s.world.attachments after.world.attachments) :
    Tended computeHash s (s.next after) :=
  .of_accounts accounts raw blobs (fun m hm => ⟨m.indexed, messages ▸ hm⟩)
    (fun m hm => ⟨m, messages ▸ hm, m.indexed, rfl⟩) attachments

theorem Tended.of_aside (aside : s.world.Aside computeHash after.world) : Tended computeHash s (s.next after) :=
  .of_rows aside.accounts aside.messages aside.attachments aside.raw.widen aside.blobs.widen

theorem Tended.of_removePart {accountId : AccountId} (gone : accountId ∈ s.retired) (c : Option RemoveFault)
    (store : Store) (world : after.world = (s.installation.removePart accountId c store).world) :
    Tended computeHash s (s.next after) := by
  cases store with
  | raw =>
    refine .of_rows ?_ ?_ ?_ ?_ ?_
    all_goals rw [world]
    all_goals first | rfl | exact .of_removed gone _ | exact .of_eq rfl
  | attachments =>
    refine .of_rows ?_ ?_ ?_ ?_ ?_
    all_goals rw [world]
    all_goals first | rfl | exact .of_removed gone _ | exact .of_eq rfl
  | docs =>
    have same : (s.installation.removePart accountId c .docs).world = s.world := by
      rcases c with _ | ⟨e, left, _ | _, _ | _⟩
      all_goals rfl
    refine .of_rows ?_ ?_ ?_ ?_ ?_
    all_goals rw [world, same]
    all_goals exact .of_eq rfl

theorem Tended.of_index {o : IndexOp} {c : o.Choice} (world : after.world =
    { s.world with db := { s.world.db with messages := (indexExec o c s.installation.indexWorld).2.messages } }) :
    Tended computeHash s (s.next after) := by
  have marks : (∀ m ∈ s.world.db.messages, ∃ indexed, m.withIndexed indexed ∈ after.world.db.messages) ∧
      ∀ m ∈ after.world.db.messages, ∃ m₀ ∈ s.world.db.messages, ∃ indexed, m = m₀.withIndexed indexed := by
    rw [world]
    dsimp only
    rcases indexExec_messages o c s.installation.indexWorld with same | ⟨p, indexed, marked⟩
    · rw [same]
      exact ⟨fun m hm => ⟨m.indexed, hm⟩, fun m hm => ⟨m, hm, m.indexed, rfl⟩⟩
    · rw [marked]
      refine ⟨fun m hm => ?_, fun m hm => ?_⟩
      · by_cases chosen : p m = true
        · exact ⟨indexed, IndexWorld.mem_setIndexed.mpr ⟨m, hm, (if_pos chosen).symm⟩⟩
        · exact ⟨m.indexed, IndexWorld.mem_setIndexed.mpr ⟨m, hm, (if_neg chosen).symm⟩⟩
      · obtain ⟨m₀, hm₀, rfl⟩ := IndexWorld.mem_setIndexed.mp hm
        refine ⟨m₀, hm₀, if p m₀ then indexed else m₀.indexed, ?_⟩
        split <;> rfl
  refine .of_accounts ?_ (.of_eq ?_) (.of_eq ?_) marks.1 marks.2 ?_
  all_goals rw [world]

/-- Of a message whose account stays no attachment row goes. -/
private theorem Intact.attachmentsOf_deleteAccounts (h : Intact computeHash parseEml s) (gone : AccountId → Bool) {m : Message}
    (hm : m ∈ s.world.db.messages) (stays : gone m.accountId = false) :
    (s.world.db.deleteAccounts gone).attachmentsOf m.id = s.world.db.attachmentsOf m.id := by
  obtain ⟨raw, parsed, kept⟩ := h.kept m hm
  have found : s.world.db.messages.find? m.id = some m := Keyed.Table.find?_eq_some.mpr ⟨hm, rfl⟩
  unfold Database.attachmentsOf
  change (s.world.db.attachments.rows.filter _).filter _ = _
  rw [List.filter_filter]
  refine List.filter_congr fun x hx => ?_
  by_cases mine : x.messageId = m.id
  · have account : x.accountId = m.accountId := kept.owned x (List.mem_filter.mpr ⟨hx, decide_eq_true mine⟩)
    simp [mine, account, found, stays]
  · simp [mine]

section
variable {gone : AccountId → Bool} (world : after.world = { s.world with db := s.world.db.deleteAccounts gone })
include world

private theorem mem_accounts_of_deleted {a : Account} :
    a ∈ after.world.db.accounts ↔ a ∈ s.world.db.accounts ∧ gone a.id = false := by
  rw [world]
  change a ∈ s.world.db.accounts.filter _ ↔ _
  simp

private theorem mem_messages_of_deleted {m : Message} :
    m ∈ after.world.db.messages ↔ m ∈ s.world.db.messages ∧ gone m.accountId = false := by
  rw [world]
  change m ∈ s.world.db.messages.filter _ ↔ _
  simp

/-- An account retires that is there and goes, and no other. -/
private theorem mem_retired_of_deleted {id : AccountId} :
    id ∈ (s.next after).retired ↔ id ∈ s.retired ∨ ∃ a ∈ s.world.db.accounts, a.id = id ∧ gone id = true := by
  rw [mem_retired]
  refine or_congr_right (exists_congr fun a => and_congr_right fun ha => and_congr_right fun same => ?_)
  subst same
  constructor
  · refine fun none => Bool.eq_true_of_not_eq_false fun stays => ?_
    exact none a ((mem_accounts_of_deleted world).mpr ⟨ha, stays⟩) rfl
  · intro goes b hb same
    have stays := ((mem_accounts_of_deleted world).mp hb).2
    rw [same, goes] at stays
    cases stays

private theorem Intact.preserves_deleted (h : Intact computeHash parseEml s) : Preserves s (s.next after) where
  retired a ha := (mem_retired_of_deleted world).mpr (.inl ha)
  accounts a ha := by
    cases goes : gone a.id with
    | false => exact .inr ⟨a, (mem_accounts_of_deleted world).mpr ⟨ha, goes⟩, rfl, rfl⟩
    | true => exact .inl ((mem_retired_of_deleted world).mpr (.inr ⟨a, ha, rfl, goes⟩))
  raw a k bytes stored := by
    refine .inr ?_
    change after.world.raw a k = some bytes
    rw [world]
    exact stored
  blobs a k bytes stored := by
    refine .inr ?_
    change after.world.attachments a k = some bytes
    rw [world]
    exact stored
  rows m hm := by
    cases goes : gone m.accountId with
    | false =>
      refine .inr ⟨⟨m.indexed, (mem_messages_of_deleted world).mpr ⟨hm, goes⟩⟩, ?_⟩
      change after.world.db.attachmentsOf m.id = _
      rw [world]
      exact h.attachmentsOf_deleteAccounts gone hm goes
    | true =>
      obtain ⟨a, ha, id⟩ := h.account m hm
      exact .inl ((mem_retired_of_deleted world).mpr (.inr ⟨a, ha, id, goes⟩))

/-- Accounts go, with all that hangs on their rows. -/
theorem Intact.deleteAccounts (h : Intact computeHash parseEml s) :
    Intact computeHash parseEml (s.next after) ∧ Preserves s (s.next after) := by
  have keeps := h.preserves_deleted world
  have raw : after.world.raw = s.world.raw := by rw [world]
  have blobs : after.world.attachments = s.world.attachments := by rw [world]
  refine ⟨h.advance keeps (fun _ _ _ stored => .inl (raw ▸ stored)) (fun _ _ _ stored => .inl (blobs ▸ stored))
    (fun a ha retired => ?_) (fun m hm => ?_) fun x hx => ?_, keeps⟩
  · obtain ⟨there, stays⟩ := (mem_accounts_of_deleted world).mp ha
    rcases (mem_retired_of_deleted world).mp retired with old | ⟨-, -, -, goes⟩
    · exact h.live a there old
    · rw [stays] at goes
      cases goes
  · obtain ⟨there, stays⟩ := (mem_messages_of_deleted world).mp hm
    obtain ⟨a, ha, id⟩ := h.account m there
    exact ⟨⟨a, (mem_accounts_of_deleted world).mpr ⟨ha, id ▸ stays⟩, id⟩, .inl ⟨m, there, m.indexed, rfl⟩⟩
  · change x ∈ after.world.db.attachments at hx
    rw [world] at hx
    change x ∈ s.world.db.attachments.filter _ at hx
    obtain ⟨there, stays⟩ := Keyed.Table.mem_filter.mp hx
    obtain ⟨m, hm, id⟩ := h.owner x there
    refine ⟨m, (mem_messages_of_deleted world).mpr ⟨hm, ?_⟩, id⟩
    dsimp only at stays
    rw [← id, Keyed.Table.find?_eq_some.mpr ⟨hm, rfl⟩] at stays
    simpa using (Bool.and_eq_true_iff.mp stays).1

end

end Viewing

private theorem ParsedMessage.attachmentRows_parsed (parsed : ParsedMessage) (ids : Nat → Nat) (messageId : MessageId)
    (accountId : AccountId) :
    (parsed.attachmentRows ids messageId accountId).map (·.toParsedAttachment) = parsed.attachments := by
  rw [attachmentRows, List.map_map]
  exact List.zipIdx_map_fst 0 parsed.attachments

/-- A message that was not there is recorded only for an account that is. -/
private theorem recordParsedMessage_account {tokens : RecordTokens} {accountId : AccountId} {folderId : FolderId}
    {uid uidvalidity : U32} {internalDate : DateTimeUtc} {flags : MessageFlags} {parsed : ParsedMessage}
    {r : RecordedMessage} {db db' : Database}
    (ok : recordParsedMessage tokens accountId folderId uid uidvalidity internalDate flags parsed db = .ok (r, db')) :
    (∃ m ∈ db.messages, m.id = r.messageId) ∨ ∃ a ∈ db.accounts, a.id = accountId := by
  obtain ⟨recorded, mid, found, ok⟩ := Transaction.bind_eq_ok.mp ok
  obtain ⟨_, _, _, ok⟩ := Transaction.bind_eq_ok.mp ok
  obtain ⟨rfl, -⟩ := Transaction.pure_eq_ok.mp ok
  rcases findOrCreateMessage_cases found with ⟨m, there, rfl, -⟩ | ⟨_, _, created, -, rfl⟩
  · exact .inl ⟨m, there.1, rfl⟩
  · refine .inr ?_
    unfold MessageRepository.create at created
    split at created
    · cases created
    split at created
    · cases created
    split at created
    · cases created
    · rename_i there
      obtain ⟨a, found⟩ := Option.ne_none_iff_exists'.mp fun none => there (Option.isNone_iff_eq_none.mpr none)
      exact ⟨a, Keyed.Table.find?_eq_some.mp found⟩

namespace Viewing
variable {computeHash : Bytes → ContentHash} {parseEml : ParseEml} {s t : Viewing} {after : Installation}

/-- What a worker has read and stored by the time it records the message. -/
def Archivable (computeHash : Bytes → ContentHash) (parseEml : ParseEml) (s : Viewing) (payload : ParseMessageJob)
    (message : ParsedMessage) : Prop :=
  payload.accountId ∈ s.retired ∨ ∃ raw parsed,
    s.world.raw payload.accountId payload.contentHash = some raw ∧ parseEml payload.contentHash raw = .ok parsed ∧
    message = parsed.recorded computeHash payload.contentHash ∧
    ∀ att ∈ parsed.attachments, ∃ bytes, s.world.attachments payload.accountId (computeHash att.bytes) = some bytes

theorem Intact.recorded (h : Intact computeHash parseEml s) {payload : ParseMessageJob} {message : ParsedMessage}
    {tokens : RecordTokens} {r : RecordedMessage} {db : Database} {log : List Event}
    (ready : Archivable computeHash parseEml s payload message)
    (ok : recordParsedMessage tokens payload.accountId payload.folderId payload.uid payload.uidvalidity
      payload.internalDate payload.flags message s.world.db = .ok (r, db))
    (world : after.world = { s.world with db := db, log := log }) :
    Intact computeHash parseEml (s.next after) ∧ Preserves s (s.next after) := by
  have called : (RecordCall.mk tokens payload.accountId payload.folderId payload.uid payload.uidvalidity
    payload.internalDate payload.flags message).body s.world.db = .ok (r, db) := ok
  obtain ⟨mid, saved, archival, rest, -⟩ := RecordCall.body_ok called
  have accounts : after.world.db.accounts = s.world.db.accounts := by
    obtain ⟨mid', -, archived, rest', -⟩ := recordParsedMessage_ok ok
    rw [world, rest']
    exact archived.accounts
  cases archival with
  | found same _ _ =>
    refine h.tended (.of_rows accounts ?_ ?_ (.of_eq ?_) (.of_eq ?_))
    all_goals rw [world]
    all_goals dsimp only
    all_goals rw [rest, same]
  | created reply new fresh messages attachments _ =>
    obtain ⟨a, ha, id⟩ : ∃ a ∈ s.world.db.accounts, a.id = payload.accountId :=
      (recordParsedMessage_account ok).resolve_left fun ⟨m, hm, same⟩ => fresh m hm (same.trans (by rw [reply]))
    obtain ⟨raw, parsed, stored, parses, rfl, blobs⟩ := ready.resolve_left (id ▸ h.live a ha)
    have row : ∀ m, m ∈ after.world.db.messages ↔ m ∈ s.world.db.messages ∨
        m = (parsed.recorded computeHash payload.contentHash).toRow tokens.message payload.accountId := by
      intro m
      rw [world]
      change m ∈ db.messages ↔ _
      rw [rest, Keyed.Table.mem_def, messages, List.mem_append, List.mem_singleton, Keyed.Table.mem_def]
    have rows : after.world.db.attachments.rows = s.world.db.attachments.rows ++
        (parsed.recorded computeHash payload.contentHash).attachmentRows tokens.attachment tokens.message payload.accountId := by
      rw [world]
      change db.attachments.rows = _
      rw [rest]
      exact attachments
    have old : ∀ m ∈ s.world.db.messages, after.world.db.attachmentsOf m.id = s.world.db.attachmentsOf m.id :=
      fun m hm => Database.attachmentsOf_append_of_ne rows (fresh m hm)
    have own : after.world.db.attachmentsOf tokens.message =
        (parsed.recorded computeHash payload.contentHash).attachmentRows tokens.attachment tokens.message
          payload.accountId := by
      refine Database.attachmentsOf_append_self rows fun x hx same => ?_
      obtain ⟨m, hm, id⟩ := h.owner x hx
      exact fresh m hm (id.trans same)
    have retired : ∀ a, a ∈ (s.next after).retired ↔ a ∈ s.retired := fun _ => mem_retired_same accounts
    have raws : after.world.raw = s.world.raw := by rw [world]
    have blobStore : after.world.attachments = s.world.attachments := by rw [world]
    have keeps : Preserves s (s.next after) :=
      ⟨fun a => (retired a).mpr, fun a ha => .inr ⟨a, accounts ▸ ha, rfl, rfl⟩, fun _ _ _ h => .inr (raws ▸ h),
        fun _ _ _ h => .inr (blobStore ▸ h), fun m hm => .inr ⟨⟨m.indexed, (row m).mpr (.inl hm)⟩, old m hm⟩⟩
    refine ⟨h.advance keeps (fun _ _ _ h => .inl (raws ▸ h)) (fun _ _ _ h => .inl (blobStore ▸ h)) (fun b hb => ?_)
      (fun m hm => ?_) (fun x hx => ?_), keeps⟩
    · rw [retired]
      exact h.live b (accounts ▸ hb)
    · rcases (row m).mp hm with before | rfl
      · obtain ⟨b, hb, same⟩ := h.account m before
        exact ⟨⟨b, accounts ▸ hb, same⟩, .inl ⟨m, before, m.indexed, rfl⟩⟩
      · refine ⟨⟨a, accounts ▸ ha, id⟩, .inr ⟨raw, parsed, ?_⟩⟩
        refine ⟨raws ▸ stored, h.raw _ _ _ stored, parses, rfl, ?_, fun x hx => ?_, fun att hatt => ?_⟩
        · change (after.world.db.attachmentsOf tokens.message |>.map _).Perm _
          rw [own, ParsedMessage.attachmentRows_parsed]
          exact .refl _
        · change x ∈ after.world.db.attachmentsOf tokens.message at hx
          rw [own] at hx
          obtain ⟨_, -, rfl⟩ := List.mem_map.mp hx
          rfl
        · obtain ⟨bytes, there⟩ := blobs att hatt
          exact ⟨bytes, blobStore ▸ there, h.blobs _ _ _ there⟩
    · change x ∈ after.world.db.attachments.rows at hx
      rw [rows, List.mem_append] at hx
      rcases hx with before | new
      · obtain ⟨m, hm, same⟩ := h.owner x before
        exact ⟨m, (row m).mpr (.inl hm), same⟩
      · exact ⟨_, (row _).mpr (.inr rfl), (ParsedMessage.attachmentRows_owner new).symm⟩

end Viewing
end MailKeep
