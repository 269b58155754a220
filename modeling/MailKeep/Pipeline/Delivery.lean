import MailKeep.Imap.PassRules
import MailKeep.Pipeline.Workers

/-! What becomes of the messages whose ingestion was acknowledged: each waits for its parser, has its place, or
is known not to get one. -/
namespace MailKeep
open Program Backend

def Arrived (db : Database) (payload : ParseMessageJob) : Prop :=
  ∃ m ∈ db.messages, m.accountId = payload.accountId ∧ m.contentHash = payload.contentHash ∧
    ∃ l ∈ db.locations, l.messageId = m.id ∧ l.folderId = payload.folderId

def Unparsable (parseEml : ParseEml) (w : World) (payload : ParseMessageJob) : Prop :=
  ∃ bytes e, w.raw payload.accountId payload.contentHash = some bytes ∧
    parseEml payload.contentHash bytes = .error e

/-- The message has arrived or cannot, or a parse job for it waits, runs or has used up its attempts. -/
def Accounted (parseEml : ParseEml) (w : World) (payload : ParseMessageJob) : Prop :=
  Arrived w.db payload ∨ Unparsable parseEml w payload ∨
    ∃ j ∈ w.db.jobs, j.jobType = "parse_message" ∧ j.payload = payload ∧
      (j.status = .pending ∨ j.status = .running ∨ j.status = .failed ∧ j.maxAttempts ≤ j.attempt)

/-- Drawn tokens are new, and the server has each mailbox under the UIDVALIDITY that the pass knows. -/
def sameServer {computeHash : Bytes → ContentHash} : (backend computeHash).Allowed
  | s, .transact (.recordParsedMessage _ _), .ok d => d.tokens.Fresh s.db
  | _, .select folder, .ok mailbox => ∀ uidvalidity, mailbox.uidValidity = some uidvalidity →
    folder.rolledOver uidvalidity = false
  | _, _, _ => True

/-- A fault that meets the handler of a job is one of those `is_transient` names. -/
def retried {computeHash : Bytes → ContentHash} : (backend computeHash).Allowed
  | _, .getRaw _ _, some f => f.error.isTransient = true
  | _, .putAttachment _ _, some f => (Error.infrastructure f.text).isTransient = true
  | _, .transact (.recordParsedMessage _ _), .error e => (Error.repositoryError (handleDberr e)).isTransient = true
  | _, _, _ => True

/-- A later state of the same job. -/
structure Job.Follows (j j' : Job) : Prop where
  id : j'.id = j.id
  jobType : j'.jobType = j.jobType
  payload : j'.payload = j.payload
  maxAttempts : j'.maxAttempts = j.maxAttempts
  attempt : j.attempt ≤ j'.attempt

theorem Job.Follows.refl (j : Job) : j.Follows j := ⟨rfl, rfl, rfl, rfl, le_rfl⟩

theorem Job.Follows.trans {i j k : Job} (h : i.Follows j) (h' : j.Follows k) : i.Follows k :=
  ⟨h'.id.trans h.id, h'.jobType.trans h.jobType, h'.payload.trans h.payload, h'.maxAttempts.trans h.maxAttempts,
    h.attempt.trans h'.attempt⟩

structure Retains (s t : World) : Prop where
  knows : ∀ accountId folderId, s.db.Knows accountId folderId → t.db.Knows accountId folderId
  raw : ∀ accountId key bytes, s.raw accountId key = some bytes → t.raw accountId key = some bytes
  arrived : ∀ payload, Arrived s.db payload → Arrived t.db payload
  jobs : ∀ j ∈ s.db.jobs, ∃ j' ∈ t.db.jobs, j.Follows j'

def Backed (w : World) (payload : ParseMessageJob) : Prop :=
  w.db.Knows payload.accountId payload.folderId ∧ w.raw payload.accountId payload.contentHash ≠ none

section
variable {s t u : World} {parseEml : ParseEml} {payload : ParseMessageJob}

theorem Retains.refl (s : World) : Retains s s :=
  ⟨fun _ _ h => h, fun _ _ _ h => h, fun _ h => h, fun j hj => ⟨j, hj, .refl j⟩⟩

theorem Retains.trans (h : Retains s t) (h' : Retains t u) : Retains s u where
  knows := fun a f hk => h'.knows a f (h.knows a f hk)
  raw := fun a k bytes hb => h'.raw a k bytes (h.raw a k bytes hb)
  arrived := fun p hp => h'.arrived p (h.arrived p hp)
  jobs := fun j hj => by
    obtain ⟨j', hj', follows⟩ := h.jobs j hj
    obtain ⟨j'', hj'', follows'⟩ := h'.jobs j' hj'
    exact ⟨j'', hj'', follows.trans follows'⟩

theorem Unparsable.mono (h : Unparsable parseEml s payload) (keeps : Retains s t) :
    Unparsable parseEml t payload := by
  obtain ⟨bytes, e, hb, he⟩ := h
  exact ⟨bytes, e, keeps.raw _ _ _ hb, he⟩

theorem Backed.mono (h : Backed s payload) (keeps : Retains s t) : Backed t payload := by
  refine ⟨keeps.knows _ _ h.1, fun none => ?_⟩
  obtain ⟨bytes, hb⟩ := Option.ne_none_iff_exists'.mp h.2
  rw [keeps.raw _ _ _ hb] at none
  cases none

def Held (job : Job) (w : World) : Prop := ∃ j ∈ w.db.jobs, job.Follows j

theorem Held.mono {job : Job} (h : Held job s) (keeps : Retains s t) : Held job t := by
  obtain ⟨j, hj, follows⟩ := h
  obtain ⟨j', hj', follows'⟩ := keeps.jobs j hj
  exact ⟨j', hj', follows.trans follows'⟩

/-- The row under the id of a job that is held is a later state of it. -/
theorem Held.follows {job j : Job} (h : Held job s) (hj : j ∈ s.db.jobs) (hid : j.id = job.id) : job.Follows j := by
  obtain ⟨j', hj', follows⟩ := h
  rwa [Keyed.Table.eq_of_key hj hj' (hid.trans follows.id.symm)]

end

def Job.Accounts (parseEml : ParseEml) (w : World) (j : Job) : Prop :=
  match j.status with
  | .pending | .running => True
  | .completed => Arrived w.db j.payload
  | .failed => j.maxAttempts ≤ j.attempt ∨ Unparsable parseEml w j.payload

theorem Job.Accounts.mono {parseEml : ParseEml} {s t : World} {j : Job} (h : j.Accounts parseEml s)
    (keeps : Retains s t) :
    j.Accounts parseEml t := by
  unfold Job.Accounts at h ⊢
  split
  · trivial
  · trivial
  · rename_i status
    rw [status] at h
    exact keeps.arrived _ h
  · rename_i status
    rw [status] at h
    exact h.imp_right fun h => h.mono keeps

/-- The jobs from `since` on are those of the run; each acknowledged message has one of them. -/
structure Ledger (parseEml : ParseEml) (since : JobId) (w : World) : Prop where
  ids : ∀ m ∈ w.db.messages, m.id ≠ 0
  counter : since ≤ w.db.nextJobId
  backed : ∀ j ∈ w.db.jobs, since ≤ j.id → j.jobType = "parse_message" ∧ Backed w j.payload
  accounts : ∀ j ∈ w.db.jobs, since ≤ j.id → j.Accounts parseEml w
  acked : ∀ payload, .ingested payload ∈ w.log → ∃ j ∈ w.db.jobs, since ≤ j.id ∧ j.payload = payload

namespace Ledger
variable {parseEml : ParseEml} {since : JobId} {s t : World}

/-- Where every job of the run and every acknowledgement is accounted for, so is every message. -/
theorem accounted (h : Ledger parseEml since s) {payload : ParseMessageJob} (acked : .ingested payload ∈ s.log) :
    Accounted parseEml s payload := by
  obtain ⟨j, hj, hs, rfl⟩ := h.acked payload acked
  have accounts := h.accounts j hj hs
  have waits : j.status = .pending ∨ j.status = .running ∨ j.status = .failed ∧ j.maxAttempts ≤ j.attempt →
      Accounted parseEml s j.payload := fun w => .inr (.inr ⟨j, hj, (h.backed j hj hs).1, rfl, w⟩)
  unfold Job.Accounts at accounts
  cases status : j.status with
  | pending => exact waits (.inl status)
  | running => exact waits (.inr (.inl status))
  | completed =>
    rw [status] at accounts
    exact .inl accounts
  | failed =>
    rw [status] at accounts
    rcases accounts with used | unparsable
    · exact waits (.inr (.inr ⟨status, used⟩))
    · exact .inr (.inl unparsable)

theorem advance (h : Ledger parseEml since s) (keeps : Retains s t) (ids : ∀ m ∈ t.db.messages, m.id ≠ 0)
    (counter : s.db.nextJobId ≤ t.db.nextJobId)
    (jobs : ∀ j ∈ t.db.jobs, since ≤ j.id → j ∈ s.db.jobs ∨
      (j.jobType = "parse_message" ∧ Backed t j.payload) ∧ j.Accounts parseEml t)
    (log : ∀ payload, .ingested payload ∈ t.log →
      .ingested payload ∈ s.log ∨ ∃ j ∈ t.db.jobs, since ≤ j.id ∧ j.payload = payload) :
        Ledger parseEml since t where
  ids := ids
  counter := h.counter.trans counter
  backed := fun j hj hs => by
    rcases jobs j hj hs with old | new
    · exact ⟨(h.backed j old hs).1, (h.backed j old hs).2.mono keeps⟩
    · exact new.1
  accounts := fun j hj hs => by
    rcases jobs j hj hs with old | new
    · exact (h.accounts j old hs).mono keeps
    · exact new.2
  acked := fun payload hp => by
    rcases log payload hp with old | new
    · obtain ⟨j, hj, hs, rfl⟩ := h.acked payload old
      obtain ⟨j', hj', follows⟩ := keeps.jobs j hj
      exact ⟨j', hj', follows.id ▸ hs, follows.payload⟩
    · exact new

/-- A step that leaves the database and the raw blobs alone. -/
theorem aside (h : Ledger parseEml since s) (db : t.db = s.db) (raw : t.raw = s.raw)
    (log : ∀ payload, .ingested payload ∈ t.log →
      .ingested payload ∈ s.log ∨ ∃ j ∈ s.db.jobs, since ≤ j.id ∧ j.payload = payload) :
    Ledger parseEml since t ∧ Retains s t := by
  have keeps : Retains s t := ⟨fun _ _ hk => db ▸ hk, fun _ _ _ hb => raw ▸ hb, fun _ hd => db ▸ hd,
    fun j hj => ⟨j, db ▸ hj, .refl j⟩⟩
  exact ⟨h.advance keeps (db ▸ h.ids) (db ▸ le_rfl) (fun j hj _ => .inl (db ▸ hj)) (db ▸ log), keeps⟩

/-- A step on the jobs alone, after which the row of one job is a later state of it. -/
theorem rewrites (h : Ledger parseEml since s) {f : Job → Job} {j : Job} (w : Job.Rewritten f j s.db t.db)
    (raw : t.raw = s.raw) (log : t.log = s.log) (follows : j.Follows (f j))
    (accounts : since ≤ j.id → Retains s t → (f j).Accounts parseEml t) :
      Ledger parseEml since t ∧ Retains s t := by
  have keeps : Retains s t := by
    refine ⟨fun a f hk => ?_, fun _ _ _ hb => raw ▸ hb, fun p hd => ?_, fun j' hj' => ?_⟩
    · rw [w.rest]
      exact ⟨hk.account, hk.folder⟩
    · rw [w.rest]
      exact hd
    · by_cases hid : j'.id = j.id
      · rw [Keyed.Table.eq_of_key hj' w.mem hid]
        exact ⟨f j, (w.jobs _).mpr (.inl rfl), follows⟩
      · exact ⟨j', (w.jobs _).mpr (.inr ⟨hj', hid⟩), .refl j'⟩
  have ids : ∀ m ∈ t.db.messages, m.id ≠ 0 := by
    rw [w.rest]
    exact h.ids
  refine ⟨h.advance keeps ids w.nextJobId.ge (fun j' hj' hs => ?_) fun p hp => .inl (log ▸ hp), keeps⟩
  rcases (w.jobs j').mp hj' with rfl | ⟨old, -⟩
  · have own := h.backed j w.mem (follows.id ▸ hs)
    refine .inr ⟨⟨follows.jobType.trans own.1, ?_⟩, accounts (follows.id ▸ hs) keeps⟩
    rw [follows.payload]
    exact own.2.mono keeps
  · exact .inl old

end Ledger

section
variable (parseEml : ParseEml) (since : JobId)

def Ready (s : World) : BackendOp → Prop
  | .transact (.enqueueRaw jobType payload _) => jobType = "parse_message" ∧ Backed s payload
  | .transact (.deleteLocationsForFolder _) => False
  | .transact (.complete job) => Held job s ∧ (since ≤ job.id → Arrived s.db job.payload)
  | .transact (.fail job _) => Held job s
  | .transact (.failTerminal job _) => Held job s ∧ (since ≤ job.id → Unparsable parseEml s job.payload)
  | .note (.ingested payload) => ∃ j ∈ s.db.jobs, since ≤ j.id ∧ j.payload = payload
  | _ => True

end

section
variable {computeHash : Bytes → ContentHash} {parseEml : ParseEml} {since : JobId} {s : World}

private theorem retains_putRaw {accountId : AccountId} {plaintext : Bytes} (c : Option PutFault) {a : AccountId}
    {k : ContentHash} {bytes : Bytes} (h : s.raw a k = some bytes) :
    (putBlob computeHash s.raw accountId plaintext c).2 a k = some bytes := by
  have placed : placeBlob s.raw accountId (computeHash plaintext) plaintext a k = some bytes := by
    unfold placeBlob
    rw [h]
    split <;> rfl
  rcases c with _ | ⟨text, _ | _⟩
  · exact placed
  · exact h
  · exact placed

/-- A recording adds its place and takes none away. -/
private theorem retains_recorded {payload : ParseMessageJob} {parsed : ParsedMessage} {d : Draw}
    {r : RecordedMessage} {db : Database}
    {log : List Event} (ok : recordParsedMessage d.tokens payload.accountId payload.folderId payload.uid payload.uidvalidity
      payload.internalDate payload.flags parsed s.db = .ok (r, db)) :
    Retains s { s with db := db, log := log } ∧ (parsed.contentHash = payload.contentHash → Arrived db payload) := by
  obtain ⟨mid, saved, archived, rest, placed⟩ := recordParsedMessage_ok ok
  have messages : db.messages = mid.messages := by rw [rest]
  refine ⟨⟨fun a f hk => ?_, fun _ _ _ hb => hb, fun p hd => ?_, fun j hj => ⟨j, ?_, .refl j⟩⟩, fun same => ?_⟩
  · have accounts : db.accounts = s.db.accounts := by rw [rest]; exact archived.accounts
    have folders : db.folders = s.db.folders := by rw [rest]; exact archived.folders
    exact ⟨accounts ▸ hk.account, folders ▸ hk.folder⟩
  · obtain ⟨m, hm, ha, hc, l, hl, hlm, hlf⟩ := hd
    refine ⟨m, messages ▸ archived.kept m hm, ha, hc, ?_⟩
    rcases placed.kept l hl with kept | ⟨-, hmid, hf⟩
    · exact ⟨l, kept, hlm, hlf⟩
    · exact ⟨saved, placed.mem, placed.at_place.1.trans (hmid.symm.trans hlm), placed.at_place.2.trans (hf.symm.trans hlf)⟩
  · have jobs : db.jobs = s.db.jobs := by rw [rest]; exact archived.jobs
    exact jobs ▸ hj
  · obtain ⟨m, hm, hid, ha, hc⟩ := archived.row
    exact ⟨m, messages ▸ hm, ha, hc.trans same, saved, placed.mem, placed.at_place.1.trans hid.symm, placed.at_place.2⟩

/-- A job that waits for what it is backed by. -/
private theorem Ledger.enqueued (h : Ledger parseEml since s) {now : DateTimeUtc} {payload : ParseMessageJob}
    {priority : Int} {job : Job} {db : Database} (backed : Backed s payload)
    (ok : JobRepository.enqueueRaw now "parse_message" payload priority s.db = .ok (job, db)) :
    Ledger parseEml since { s with db := db } ∧ Retains s { s with db := db } := by
  obtain ⟨hp, hs, rest, jobs⟩ := JobRepository.enqueueRaw_ok ok
  obtain ⟨hid, htype⟩ := JobRepository.enqueueRaw_fields ok
  have keeps : Retains s { s with db := db } := by
    refine ⟨fun a f hk => ?_, fun _ _ _ hb => hb, fun p hd => ?_, fun j hj => ⟨j, (jobs j).mpr (.inl hj), .refl j⟩⟩
    · rw [rest]
      exact ⟨hk.account, hk.folder⟩
    · rw [rest]
      exact hd
  refine ⟨h.advance keeps ?_ ?_ (fun j hj _ => ((jobs j).mp hj).imp_right ?_) fun p hp => .inl hp, keeps⟩
  · change ∀ m ∈ db.messages, m.id ≠ 0
    rw [rest]
    exact h.ids
  · change s.db.nextJobId ≤ db.nextJobId
    rw [rest]
    exact Nat.le_succ _
  · rintro rfl
    refine ⟨⟨htype, hp ▸ backed.mono keeps⟩, ?_⟩
    unfold Job.Accounts
    rw [hs]
    trivial

private theorem Ledger.progressed (h : Ledger parseEml since s) {folderId : FolderId} {uidvalidity lastUid : U32}
    {now : DateTimeUtc} :
    Ledger parseEml since { s with
      db := s.db.setSyncState folderId uidvalidity lastUid now
      log := .persisted folderId uidvalidity lastUid :: s.log } ∧
    Retains s { s with
      db := s.db.setSyncState folderId uidvalidity lastUid now
      log := .persisted folderId uidvalidity lastUid :: s.log } := by
  have keeps : Retains s { s with
      db := s.db.setSyncState folderId uidvalidity lastUid now
      log := .persisted folderId uidvalidity lastUid :: s.log } := by
    refine ⟨fun a f hk => ⟨hk.account, hk.folder.1, ?_⟩, fun _ _ _ hb => hb, fun _ hd => hd, fun j hj => ⟨j, hj, .refl j⟩⟩
    obtain ⟨row, hrow, rfl⟩ := hk.folder.2
    refine ⟨_, Database.mem_setSyncState.mpr ⟨row, hrow, rfl⟩, ?_⟩
    split <;> rfl
  refine ⟨h.advance keeps h.ids le_rfl (fun _ hj _ => .inl hj) fun p hp => ?_, keeps⟩
  rcases List.mem_cons.mp hp with hp | hp
  · cases hp
  · exact .inl hp

private theorem Ledger.recorded (h : Ledger parseEml since s) {payload : ParseMessageJob} {parsed : ParsedMessage}
    {d : Draw} {r : RecordedMessage} {db : Database} (fresh : d.tokens.message ≠ 0)
    (ok : recordParsedMessage d.tokens payload.accountId payload.folderId payload.uid payload.uidvalidity
      payload.internalDate payload.flags parsed s.db = .ok (r, db)) :
    Ledger parseEml since { s with db := db, log := .placed r.messageId payload :: s.log } ∧
      Retains s { s with db := db, log := .placed r.messageId payload :: s.log } := by
  obtain ⟨mid, saved, archived, rest, -⟩ := recordParsedMessage_ok ok
  obtain ⟨keeps, -⟩ := @retains_recorded s payload parsed d r db (.placed r.messageId payload :: s.log) ok
  refine ⟨h.advance keeps (fun m hm => ?_) ?_ (fun j hj _ => .inl ?_) fun p hp => ?_, keeps⟩
  · have messages : db.messages = mid.messages := by rw [rest]
    rcases archived.added m (messages ▸ hm) with old | new
    · exact h.ids m old
    · exact new ▸ fresh
  · change s.db.nextJobId ≤ db.nextJobId
    rw [rest]
    exact archived.nextJobId.ge
  · have jobs : db.jobs = s.db.jobs := by rw [rest]; exact archived.jobs
    exact jobs ▸ hj
  · rcases List.mem_cons.mp hp with hp | hp
    · cases hp
    · exact .inl hp

/-- Each transaction that is ready keeps the ledger. -/
theorem Ledger.transact (h : Ledger parseEml since s) {x : Txn} {c : Except DbErr Draw}
    (ready : Ready parseEml since s (.transact x)) (ok : @sameServer computeHash s (.transact x) c) :
    Ledger parseEml since (s.transact x c).2 ∧ Retains s (s.transact x c).2 := by
  rcases s.transact_cases x c with ⟨e, he⟩ | ⟨d, r, db, rfl, hbody, hok⟩
  · rw [he]
    exact ⟨h, .refl s⟩
  rw [hok]
  cases x with
  | enqueueRaw jobType payload priority =>
    obtain ⟨rfl, backed⟩ := ready
    exact h.enqueued backed hbody
  | deleteLocationsForFolder folderId => exact ready.elim
  | recordSyncProgress folderId uidvalidity lastUid now =>
    obtain ⟨-, rfl⟩ := FolderRepository.updateSyncState_ok hbody
    exact h.progressed
  | recordParsedMessage payload parsed => exact h.recorded ok.nonzero hbody
  | claimNext =>
    rcases JobRepository.claimNext_ok hbody with ⟨-, rfl⟩ | ⟨j, -, -, -, w⟩
    · exact h.aside rfl rfl fun p hp => .inl hp
    · exact h.rewrites (t := { s with db := db, log := s.log }) w rfl rfl ⟨rfl, rfl, rfl, rfl, Nat.le_succ _⟩
        fun _ _ => trivial
  | complete job =>
    obtain ⟨j, hid, -, w⟩ := JobRepository.complete_ok hbody
    apply h.rewrites (t := { s with db := db, log := s.log }) w rfl rfl ⟨rfl, rfl, rfl, rfl, le_rfl⟩
    intro hs keeps
    have arrived := keeps.arrived _ (ready.2 (hid ▸ hs))
    rw [← (ready.1.follows w.mem hid).payload] at arrived
    exact arrived
  | fail job error =>
    obtain ⟨j, hid, -, w | ⟨used, w⟩⟩ := JobRepository.fail_ok hbody
    · exact h.rewrites (t := { s with db := db, log := s.log }) w rfl rfl ⟨rfl, rfl, rfl, rfl, le_rfl⟩
        fun _ _ => trivial
    · refine h.rewrites (t := { s with db := db, log := s.log }) w rfl rfl
        ⟨rfl, rfl, rfl, rfl, le_rfl⟩ fun _ _ => .inl ?_
      have follows := ready.follows w.mem hid
      exact follows.maxAttempts ▸ used.trans follows.attempt
  | failTerminal job error =>
    obtain ⟨j, hid, -, w⟩ := JobRepository.failTerminal_ok hbody
    refine h.rewrites (t := { s with db := db, log := s.log }) w rfl rfl ⟨rfl, rfl, rfl, rfl, le_rfl⟩
      fun hs keeps => .inr ?_
    have unparsable := (ready.2 (hid ▸ hs)).mono keeps
    rw [← (ready.1.follows w.mem hid).payload] at unparsable
    exact unparsable

/-- So does each operation. -/
theorem Ledger.exec (h : Ledger parseEml since s) {o : BackendOp} {c : o.Choice} (ready : Ready parseEml since s o)
    (ok : @sameServer computeHash s o c) :
    Ledger parseEml since (backendExec computeHash o c s).2 ∧ Retains s (backendExec computeHash o c s).2 := by
  have noted : ∀ e, (∀ payload, e = .ingested payload → ∃ j ∈ s.db.jobs, since ≤ j.id ∧ j.payload = payload) →
      Ledger parseEml since (s.push e) ∧ Retains s (s.push e) := by
    refine fun e he => h.aside rfl rfl fun payload hp => ?_
    rcases List.mem_cons.mp hp with hp | hp
    · exact .inr (he payload hp.symm)
    · exact .inl hp
  cases o with
  | transact x => exact h.transact ready ok
  | putRaw accountId plaintext =>
    have keeps : Retains s { s with raw := (putBlob computeHash s.raw accountId plaintext c).2 } :=
      ⟨fun _ _ hk => hk, fun _ _ _ hb => retains_putRaw c hb, fun _ hd => hd, fun j hj => ⟨j, hj, .refl j⟩⟩
    exact ⟨h.advance keeps h.ids le_rfl (fun _ hj _ => .inl hj) fun _ hp => .inl hp, keeps⟩
  | note e =>
    apply noted e
    intro payload he
    subst he
    exact ready
  | connect =>
    cases c with
    | ok _ => exact noted _ fun _ he => (by cases he)
    | error _ => exact ⟨h, .refl s⟩
  | select folder =>
    cases c with
    | ok _ => exact noted _ fun _ he => (by cases he)
    | error _ => exact ⟨h, .refl s⟩
  | uidFetch _ _ _ _ => exact noted _ fun _ he => (by cases he)
  | getRaw _ _ => cases c <;> exact ⟨h, .refl s⟩
  | putAttachment _ _ | setStatus _ _ => exact h.aside rfl rfl fun _ hp => .inl hp
  | logout | idle | isCancelled | sleep _ | now => exact ⟨h, .refl s⟩

abbrev ledgerContract (computeHash : Bytes → ContentHash) (parseEml : ParseEml) (since : JobId) :
    Contract (backend computeHash) :=
  .mutual (fun s o c => sameServer s o c ∧ retried s o c) (Ledger parseEml since) Retains

theorem ledgerContract_stable : (ledgerContract computeHash parseEml since).Stable := ⟨.refl, .trans⟩

theorem ledger_readied : (ledgerContract computeHash parseEml since).Readied (Ready parseEml since) :=
  fun _ _ _ valid ready ok => valid.exec ready ok.1

private theorem putRaw_placed {accountId : AccountId} {plaintext : Bytes} :
    SafeAct (ledgerContract computeHash parseEml since) (fun hash t => t.raw accountId hash ≠ none)
      (fun _ _ => True)
      (putRaw accountId plaintext) s := by
  refine SafeAct.ready ledger_readied (o := .putRaw accountId plaintext) (k := id)
    (fun _ _ _ => trivial) fun s₁ c _ _ _ t ht =>
    ⟨fun hash hh => ?_, fun _ _ => trivial⟩
  have placed : (putBlob computeHash s₁.raw accountId plaintext c).2 accountId hash ≠ none := by
    rw [putBlob_ne_none]
    rcases c with _ | ⟨text, _ | _⟩
    · cases hh
      exact .inr ⟨rfl, rfl, rfl⟩
    · cases hh
    · cases hh
  obtain ⟨bytes, hb⟩ := Option.ne_none_iff_exists'.mp placed
  exact fun none => by cases (ht.raw _ _ bytes hb).symm.trans none

private theorem enqueueRaw_listed {payload : ParseMessageJob} {priority : Int} (backed : Backed s payload) :
    SafeAct (ledgerContract computeHash parseEml since)
      (fun _ t => ∃ j ∈ t.db.jobs, since ≤ j.id ∧ j.payload = payload) (fun _ _ => True)
      (transact (.enqueueRaw "parse_message" payload priority)) s := by
  refine transact_ready ledger_readied (fun job s₁ t ht => ?_) (fun _ _ hr => ⟨rfl, backed.mono hr⟩)
    (fun _ _ _ _ _ _ _ _ => trivial)
    fun s₁ d job db hv _ hbody => ?_
  · rintro ⟨j, hj, hs, rfl⟩
    obtain ⟨j', hj', follows⟩ := ht.jobs j hj
    exact ⟨j', hj', follows.id ▸ hs, follows.payload⟩
  · obtain ⟨hp, -, -, jobs⟩ := JobRepository.enqueueRaw_ok hbody
    obtain ⟨hid, -⟩ := JobRepository.enqueueRaw_fields hbody
    exact ⟨job, (jobs job).mpr (.inr rfl), hid ▸ hv.counter, hp⟩

private theorem ingestRaw_ledger {request : IngestRequest} (known : s.db.Knows request.accountId request.folderId) :
    Harmless (ledgerContract computeHash parseEml since) (ingestRaw request) s := by
  apply SafeAct.follow ledgerContract_stable putRaw_placed
  intro hash t _ keeps placed
  apply SafeAct.seq ledgerContract_stable (enqueueRaw_listed ⟨keeps.knows _ _ known, placed⟩)
  intro job u _ listed
  have noted : Harmless (ledgerContract computeHash parseEml since) (note (.ingested (request.job hash))) u := by
    refine SafeAct.ready ledger_readied (o := .note (.ingested (request.job hash))) (k := .ok) (fun s₁ _ hr => ?_)
      fun _ _ _ _ _ _ _ => ⟨fun _ _ => trivial, fun _ _ => trivial⟩
    obtain ⟨j, hj, hs, hp⟩ := listed
    obtain ⟨j', hj', follows⟩ := hr.jobs j hj
    exact ⟨j', hj', follows.id ▸ hs, follows.payload.trans hp⟩
  exact Harmless.seq ledgerContract_stable noted fun _ _ _ => Harmless.pure

/-- Whatever an action does, the account and the folder are still there. -/
theorem known_kept {α : Type} {accountId : AccountId} {folderId : FolderId} {x : BackendAction α}
    (h : Harmless (ledgerContract computeHash parseEml since) x s) (known : s.db.Knows accountId folderId) :
    Keeping (ledgerContract computeHash parseEml since) (fun t => t.db.Knows accountId folderId) x s := by
  apply Safe.weaken (Safe.frame ledgerContract_stable h)
  intro r t _ hr
  cases r with
  | ok _ => exact hr.2.knows _ _ known
  | error _ => trivial

/-- A pass over a folder that is there; the server has it under the UIDVALIDITY of the copy. -/
private theorem passing_ledger {accountId : AccountId} {folder : FolderConfig} :
    Passing (ledgerContract computeHash parseEml since) accountId folder (fun s => s.db.Knows accountId folder.id)
      (fun mailbox => ∀ uidvalidity, mailbox.uidValidity = some uidvalidity → folder.rolledOver uidvalidity = false)
      fun _ => True where
  stable := ledgerContract_stable
  kept := fun _ _ known _ hr => hr.knows _ _ known
  select := fun s _ known => by
    refine SafeAct.ready ledger_readied (o := .select folder) (k := .ok) (fun _ _ _ => trivial)
      fun s₁ c hv hr hs t ht =>
      ⟨fun r h => ?_, fun _ _ => trivial⟩
    have keeps := hr.trans ((hv.exec (o := .select folder) trivial hs.1).2.trans ht)
    refine ⟨keeps.knows _ _ known, fun mailbox hm => ?_⟩
    cases h
    cases c with
    | ok _ =>
      cases hm
      exact hs.1
    | error _ => cases hm
  check := fun mailbox uidvalidity s opened hu _ known => by
    unfold checkUidvalidity
    rw [opened uidvalidity hu, if_neg Bool.false_ne_true]
    have noted : Harmless (ledgerContract computeHash parseEml since) (note (.unchanged folder.id uidvalidity)) s :=
      SafeAct.plain ledger_readied (o := .note (.unchanged folder.id uidvalidity)) (k := .ok) fun _ => trivial
    exact known_kept (Harmless.seq ledgerContract_stable noted fun _ _ _ => Harmless.pure) known
  now := fun _ _ known => known_kept (SafeAct.plain ledger_readied (o := .now) (k := .ok) fun _ => trivial) known
  status := fun change _ _ known =>
    known_kept (SafeAct.plain ledger_readied (o := .setStatus accountId change) (k := .ok) fun _ => trivial) known
  fetch := fun mailbox fromUid toUid s _ known => by
    have fetched : Harmless (ledgerContract computeHash parseEml since)
        (perform (.uidFetch folder mailbox fromUid toUid)) s :=
      SafeAct.plain ledger_readied (o := .uidFetch folder mailbox fromUid toUid) (k := .ok) fun _ => trivial
    apply Safe.weaken (known_kept fetched known)
    intro r _ _ h
    cases r with
    | ok _ => exact ⟨h, fun _ _ _ _ => trivial⟩
    | error _ => trivial
  ingest := fun _ _ _ _ _ _ _ _ _ _ _ _ known => known_kept (ingestRaw_ledger known) known
  progress := fun _ _ _ _ _ _ _ _ known => known_kept (transact_plain ledger_readied fun _ _ _ => trivial) known

private theorem passOnce_ledger {accountId : AccountId} {folder : FolderConfig} (valid : Ledger parseEml since s)
    (known : s.db.Knows accountId folder.id) :
    Harmless (ledgerContract computeHash parseEml since) (passOnce accountId folder) s :=
  Harmless.seq ledgerContract_stable (passing_ledger.pass valid known) fun _ _ _ => Harmless.pure

/-- Placing the attachments fails only where a retry follows. -/
private theorem storeAttachments_ledger {accountId : AccountId} (atts : List ExtractedAttachment) :
    SafeAct (ledgerContract computeHash parseEml since) (fun _ _ => True) (fun e _ => e.isTransient = true)
      (ParseMessageHandler.storeAttachments accountId atts) s := by
  induction atts generalizing s with
  | nil => exact SafeAct.pure fun _ _ _ => trivial
  | cons att atts ih =>
    have put : SafeAct (ledgerContract computeHash parseEml since) (fun _ _ => True)
      (fun e _ => e.isTransient = true)
        (putAttachment accountId att.bytes) s := by
      refine SafeAct.ready ledger_readied (o := .putAttachment accountId att.bytes) (k := id) (fun _ _ _ => trivial)
        fun s₁ c _ _ hm t _ => ⟨fun _ _ => trivial, fun e he => ?_⟩
      rcases c with _ | ⟨text, _ | _⟩
      · cases he
      · cases he
        exact hm.2
      · cases he
        exact hm.2
    exact SafeAct.seq ledgerContract_stable put fun hash t _ _ =>
      SafeAct.seq ledgerContract_stable ih fun _ _ _ _ => SafeAct.pure fun _ _ _ => trivial

/-- The handler delivers; it fails terminally only on a message of the run that does not parse. -/
private theorem handle_ledger {payload : ParseMessageJob} {own : Prop} (backed : own → Backed s payload) :
    SafeAct (ledgerContract computeHash parseEml since) (fun _ t => own → Arrived t.db payload)
      (fun e t => own → e.isTransient = false → Unparsable parseEml t payload)
        (ParseMessageHandler.handle parseEml payload) s := by
  have read : SafeAct (ledgerContract computeHash parseEml since)
      (fun bytes t => own → t.raw payload.accountId payload.contentHash = some bytes)
      (fun e t => own → e.isTransient = false → Unparsable parseEml t payload)
      (getRaw payload.accountId payload.contentHash) s := by
    refine SafeAct.ready ledger_readied (o := .getRaw payload.accountId payload.contentHash)
      (k := id) (fun _ _ _ => trivial)
      fun s₁ c _ hr hm t ht => ?_
    rcases c with _ | f
    · change Retains s₁ t at ht
      constructor
      · intro bytes hb mine
        cases hraw : s₁.raw payload.accountId payload.contentHash with
        | none => simp [backendExec, hraw] at hb
        | some found =>
          simp only [backendExec, hraw, id, Except.ok.injEq] at hb
          exact ht.raw _ _ _ (hb ▸ hraw)
      · intro e he mine
        cases hraw : s₁.raw payload.accountId payload.contentHash with
        | none => exact absurd hraw ((backed mine).mono hr).2
        | some found => simp [backendExec, hraw] at he
    · refine ⟨fun bytes hb => (by cases hb), fun e he mine terminal => ?_⟩
      cases he
      cases (show f.error.isTransient = true from hm.2).symm.trans terminal
  apply SafeAct.follow ledgerContract_stable read
  intro bytes t _ keeps found
  have parse : SafeAct (ledgerContract computeHash parseEml since) (fun _ _ => True)
      (fun e t => own → e.isTransient = false → Unparsable parseEml t payload)
      (liftResult (parseEml payload.contentHash bytes)) t :=
    SafeAct.liftResult (fun _ _ _ _ _ => trivial) fun e he u _ hr mine _ =>
      ⟨bytes, e, hr.raw _ _ _ (found mine), he⟩
  apply SafeAct.follow ledgerContract_stable parse
  intro parsed u _ keeps' _
  have store : SafeAct (ledgerContract computeHash parseEml since) (fun _ _ => True)
      (fun e t => own → e.isTransient = false → Unparsable parseEml t payload)
      (ParseMessageHandler.storeAttachments payload.accountId parsed.attachments) u :=
    Safe.weaken (storeAttachments_ledger _) fun r _ _ h => by
      cases r with
      | ok _ => trivial
      | error e => exact fun _ terminal => by rw [h] at terminal; cases terminal
  apply SafeAct.follow ledgerContract_stable store
  intro attachments v _ keeps'' _
  have record : SafeAct (ledgerContract computeHash parseEml since) (fun _ t => own → Arrived t.db payload)
      (fun e t => own → e.isTransient = false → Unparsable parseEml t payload)
      (transact (.recordParsedMessage payload (parsed.message payload.contentHash attachments))) v := by
    refine transact_ready ledger_readied (fun _ _ _ ht h mine => ht.arrived _ (h mine)) (fun _ _ _ => trivial) ?_ ?_
    · intro e c s₁ w hv hr hm he mine terminal
      have known := (((backed mine).mono keeps).mono (keeps'.trans (keeps''.trans hr))).1
      cases c with
      | error d =>
        cases he
        cases (show (Error.repositoryError (handleDberr d)).isTransient = true from hm.2).symm.trans terminal
      | ok d =>
        obtain ⟨r, db, hok⟩ := recordParsedMessage_total payload.uid payload.uidvalidity payload.internalDate payload.flags
          (parsed.message payload.contentHash attachments) hm.1 known hv.ids
        simp only [World.transact, Txn.body, hok] at he
        cases he
    · intro s₁ d r db _ _ hbody _
      exact (@retains_recorded s₁ payload _ d r db s₁.log hbody).2 rfl
  exact SafeAct.follow ledgerContract_stable record fun _ w _ _ h => SafeAct.pure fun x _ hr mine =>
    hr.arrived _ (h mine)

private theorem dispatch_ledger {job : Job}
    (own : since ≤ job.id → job.jobType = "parse_message" ∧ Backed s job.payload) :
    SafeAct (ledgerContract computeHash parseEml since) (fun _ t => since ≤ job.id → Arrived t.db job.payload)
      (fun e t => since ≤ job.id → e.isTransient = false → Unparsable parseEml t job.payload)
        (dispatch parseEml job) s := by
  unfold dispatch
  split
  · exact handle_ledger fun mine => (own mine).2
  · rename_i other
    exact SafeAct.throw fun _ _ _ mine _ => absurd (own mine).1 other

/-- What a worker knows of the job it holds once the handler is through. -/
private theorem report_ledger {job : Job} {outcome : Except Error Unit} (held : Held job s)
    (arrived : ∀ a, outcome = .ok a → since ≤ job.id → Arrived s.db job.payload)
    (unparsable : ∀ e, outcome = .error e → since ≤ job.id → e.isTransient = false → Unparsable parseEml s job.payload) :
    Harmless (ledgerContract computeHash parseEml since)
      ((Report.of outcome).send job) s := by
  cases outcome with
  | ok a =>
    exact transact_plain ledger_readied fun _ _ hr => ⟨held.mono hr, fun mine => hr.arrived _ (arrived a rfl mine)⟩
  | error e =>
    have reported : Report.of (.error e) = if e.isTransient then .fail e.text else .failTerminal e.text := rfl
    rw [reported]
    split
    · exact transact_plain ledger_readied (x := .fail job e.text) fun _ _ hr => held.mono hr
    · rename_i terminal
      exact transact_plain ledger_readied (x := .failTerminal job e.text) fun _ _ hr =>
        ⟨held.mono hr, fun mine => (unparsable e rfl mine (Bool.eq_false_of_not_eq_true terminal)).mono hr⟩

private theorem claimNext_ledger :
    SafeAct (ledgerContract computeHash parseEml since)
      (fun found t => ∀ job, found = some job →
        Held job t ∧ (since ≤ job.id → job.jobType = "parse_message" ∧ Backed t job.payload))
      (fun _ _ => True) (transact .claimNext) s := by
  refine transact_ready ledger_readied (fun found s₁ t ht h job hj => ?_) (fun _ _ _ => trivial)
    (fun _ _ _ _ _ _ _ _ => trivial)
    fun s₁ d found db hv _ hbody job hj => ?_
  · obtain ⟨held, own⟩ := h job hj
    exact ⟨held.mono ht, fun mine => ⟨(own mine).1, (own mine).2.mono ht⟩⟩
  · rcases JobRepository.claimNext_ok hbody with ⟨rfl, -⟩ | ⟨j, -, -, rfl, w⟩
    · cases hj
    · cases hj
      refine ⟨⟨_, (w.jobs _).mpr (.inl rfl), .refl _⟩, fun mine => ⟨(hv.backed j w.mem mine).1, ?_⟩⟩
      obtain ⟨known, blob⟩ := (hv.backed j w.mem mine).2
      refine ⟨?_, blob⟩
      change db.Knows _ _
      rw [w.rest]
      exact ⟨known.account, known.folder⟩

private theorem workOnce_ledger :
    Harmless (ledgerContract computeHash parseEml since) (workOnce parseEml) s := by
  apply SafeAct.follow ledgerContract_stable claimNext_ledger
  intro found t _ _ claimed
  cases found with
  | none => exact Harmless.pure
  | some job =>
    obtain ⟨held, own⟩ := claimed job rfl
    refine SafeAct.follow ledgerContract_stable (SafeAct.attempt ledgerContract_stable (dispatch_ledger own))
      fun outcome u _ keeps ⟨arrived, unparsable⟩ => ?_
    exact Harmless.seq ledgerContract_stable (report_ledger (held.mono keeps) arrived unparsable)
      fun _ _ _ => Harmless.pure

private theorem pipeline_ledger {ι : Type} :
    (pipelineSystem parseEml fun s o c => sameServer s o c ∧ retried s o c :
      System (backend computeHash) ι (Except Error Unit)).Sound
      (fun _ => ledgerContract computeHash parseEml since) (fun _ _ _ => True) (Ledger parseEml since) where
  stable := fun _ => ledgerContract_stable
  valid_iff := fun _ _ => Iff.rfl
  allows := fun _ _ _ _ ok => ok
  agree := fun _ _ _ _ _ _ _ keeps => keeps
  root := fun s i p valid hp => by
    rcases hp with ⟨accountId, folder, known, rfl⟩ | rfl
    · exact Safe.weaken (passOnce_ledger valid known) fun _ _ _ _ => trivial
    · exact Safe.weaken workOnce_ledger fun _ _ _ _ => trivial
  env := fun _ _ _ h => h.elim
  crash := fun _ _ _ h => h.elim

/-- No acknowledged message is lost in a run in which each fault that meets a handler is one of those
`is_transient` names, and no job of the run fails before its attempts are used up unless its message does not parse. -/
theorem acknowledged_accounted {ι : Type} [DecidableEq ι] {w : World} (ids : ∀ m ∈ w.db.messages, m.id ≠ 0)
    (counter : ∀ j ∈ w.db.jobs, j.id < w.db.nextJobId) {c : Config (backend computeHash) ι (Except Error Unit)}
    (run : (pipelineSystem parseEml fun s o c => sameServer s o c ∧ retried s o c).Reaches (.idle w.atStart) c) :
    (∀ payload, .ingested payload ∈ c.state.log → Accounted parseEml c.state payload) ∧
      ∀ j ∈ c.state.db.jobs, w.db.nextJobId ≤ j.id → j.status = .failed →
        j.maxAttempts ≤ j.attempt ∨ Unparsable parseEml c.state j.payload := by
  have start : Ledger parseEml w.db.nextJobId w.atStart :=
    ⟨ids, le_rfl, fun j hj hs => absurd (counter j hj) (not_lt.mpr hs), fun j hj hs => absurd (counter j hj) (not_lt.mpr hs),
      fun _ hp => (by cases hp)⟩
  obtain ⟨ledger, -⟩ := pipeline_ledger.reaches (AllSafe.idle start) run
  refine ⟨fun payload acked => ledger.accounted acked, fun j hj hs status => ?_⟩
  have accounts := ledger.accounts j hj hs
  unfold Job.Accounts at accounts
  rwa [status] at accounts

end

/-- The database is out when the message is recorded; the raw blob may be hard to read, too. -/
def outage (reading : Option GetFault) : (o : BackendOp) → o.Choice
  | .select folder => .ok ⟨folder.uidvalidity, some 2⟩
  | .getRaw _ _ => reading
  | .transact (.recordParsedMessage _ _) => .error (.conn .io "database is unreachable")
  | o => calm ⟨none, none⟩ (fun _ _ => [.ok ⟨some 1, some [7], some 0, []⟩]) 1 o

private theorem outage_sameServer (reading : Option GetFault) (s : World) (o : BackendOp) :
    @sameServer firstByte s o (outage reading o) := by
  cases o with
  | select folder =>
    intro uidvalidity h
    change folder.uidvalidity = some uidvalidity at h
    simp [FolderConfig.rolledOver, h]
  | transact t => cases t <;> trivial
  | _ => trivial

private theorem outage_retried (s : World) (o : BackendOp) : @retried firstByte s o (outage none o) := by
  cases o with
  | transact t =>
    cases t with
    | recordParsedMessage payload parsed => rfl
    | _ => trivial
  | _ => trivial

def ingestedPayload : ParseMessageJob := ⟨1, 7, 1, 4, firstByte [7], 0, mapFlags []⟩

def afterOutage (reading : Option GetFault) : Config (backend firstByte) Nat (Except Error Unit) :=
  (List.replicate 20 0 ++ List.replicate 10 1).foldl (fun c i => c.advance (outage reading) i)
    (((Config.idle (inboxWorld (some 4) 0).atStart).set (inboxWorld (some 4) 0).atStart 0
      (passOnce 1 (folderConfig (inbox (some 4) 0))).run).set (inboxWorld (some 4) 0).atStart 1
      (workOnce fun _ _ => .ok plainMail).run)

private theorem afterOutage_reached {allowed : (backend firstByte).Allowed} (reading : Option GetFault)
    (ok : ∀ s o, allowed s o (outage reading o)) :
    (pipelineSystem (fun _ _ => .ok plainMail) allowed).Reaches (.idle (inboxWorld (some 4) 0).atStart)
      (afterOutage reading) := by
  have known : (inboxWorld (some 4) 0).db.Knows 1 7 :=
    ⟨⟨by decide, _, List.mem_singleton.mpr rfl, rfl⟩, by decide, _, List.mem_singleton.mpr rfl, rfl⟩
  refine .trans (.tail (.single (System.step_start rfl (.inl ⟨1, folderConfig (inbox (some 4) 0), known, rfl⟩)))
    (System.step_start rfl (.inr rfl))) (System.reaches_schedule (fun _ => ok) _ _)

/-- The job of the acknowledged mail waits for its next attempt. -/
theorem acknowledged_accounted_outage : Accounted (fun _ _ => .ok plainMail)
    (afterOutage none).state ingestedPayload :=
  (acknowledged_accounted (w := inboxWorld (some 4) 0) (fun _ h => (by cases h)) (fun _ h => (by cases h))
    (afterOutage_reached none fun s o => ⟨outage_sameServer none s o, outage_retried s o⟩)).1 _ (by decide)

/-- One read of the raw blob that fails is the end of the message: no attempt but the first is made. -/
theorem acknowledged_lost :
    ¬ ∀ (w : World) (c : Config (backend firstByte) Nat (Except Error Unit)),
      (∀ m ∈ w.db.messages, m.id ≠ 0) → (∀ j ∈ w.db.jobs, j.id < w.db.nextJobId) →
      (pipelineSystem (fun _ _ => .ok plainMail) sameServer).Reaches (.idle w.atStart) c →
      ∀ payload, .ingested payload ∈ c.state.log → Accounted (fun _ _ => .ok plainMail) c.state payload := by
  intro h
  have lost := h (inboxWorld (some 4) 0) (afterOutage (some (.io "input/output error"))) (fun _ hm => (by cases hm))
    (fun _ hj => (by cases hj)) (afterOutage_reached _ fun s o => outage_sameServer _ s o) ingestedPayload (by decide)
  rcases lost with ⟨m, hm, -⟩ | ⟨bytes, e, -, he⟩ | ⟨j, hj, -, -, status⟩
  · cases hm
  · cases he
  · cases List.mem_singleton.mp hj
    rcases status with pending | running | ⟨-, used⟩
    · cases pending
    · cases running
    · exact absurd used (by decide)

end MailKeep
