import MailKeep.Pipeline.Backlog

/-! A worker that serves the queue while a folder is synced: none of its operations changes what the folder will show
in the end. -/
namespace MailKeep
open Program Backend

/-- The loop of a worker for so many turns; it goes on whatever comes of a turn. -/
def work (parseEml : ParseEml) : Nat → BackendAction Unit
  | 0 => pure ()
  | turns + 1 => do
    let _ ← attempt (workOnce parseEml)
    work parseEml turns

/-- A mailbox under its present UIDVALIDITY, the folder that mirrors it, and the raw blobs that were there before. -/
structure Mirror where
  computeHash : Bytes → ContentHash
  parseEml : ParseEml
  accountId : AccountId
  folderId : FolderId
  uidvalidity : U32
  uidNext : Option U32
  mails : List Mail
  ascending : Ascending mails
  blobs : AccountId → ContentHash → Option Bytes

abbrev Rank := Lex (Int × Lex (Intᵒᵈ × Natᵒᵈ))

namespace Mirror
variable (M : Mirror)

def mailbox : Mailbox := ⟨some M.uidvalidity, M.uidNext⟩

def job (m : Mail) : ParseMessageJob :=
  ⟨M.accountId, M.folderId, m.uid, M.uidvalidity, M.computeHash m.body, m.internalDate, mapFlags m.flags⟩

def entry (m : Mail) : LocationEntry := (M.job m).entry

def archive : AccountId → ContentHash → Option Bytes := storeAll M.computeHash M.accountId M.mails M.blobs

def Reads (key : ContentHash) : Bool := (M.archive M.accountId key).any fun bytes => (M.parseEml key bytes).isOk

def Open (j : Job) : Prop := j.payload.folderId = M.folderId ∧ (j.status = .pending ∨ j.status = .running)

def Waits (j : Job) (x : Rank × LocationEntry) : Prop :=
  M.Open j ∧ M.Reads j.payload.contentHash = true ∧ x = (claimKey j, j.payload.entry)

def waiting (w : World) : Set (Rank × LocationEntry) := {x | ∃ j ∈ w.db.jobs, M.Waits j x}

/-- What the folder will show once its jobs are served in the order of the queue. -/
def settled (w : World) : Set LocationEntry := Keyed.settled LocationEntry.content
    (M.waiting w) (w.db.shown M.folderId)

def Drained (w : World) : Prop := ∀ j ∈ w.db.jobs, ¬ M.Open j

def Idle (w : World) : Prop := ∀ j ∈ w.db.jobs, j.payload.folderId = M.folderId → j.status ≠ .running

/-- The schema holds; the open jobs of the folder have their blobs; one that runs is the first of its content. -/
structure Orderly (w : World) : Prop where
  constrained : w.db.Constrained
  known : w.db.Knows M.accountId M.folderId
  fresh : ∀ j ∈ w.db.jobs, j.id < w.db.nextJobId
  blobs : ∀ key bytes, M.blobs M.accountId key = some bytes → w.raw M.accountId key = some bytes
  archived : ∀ key bytes, w.raw M.accountId key = some bytes → M.archive M.accountId key = some bytes
  queue : ∀ j ∈ w.db.jobs, M.Open j → j.jobType = "parse_message" ∧ j.priority = PRIORITY_INGEST ∧
    j.payload.accountId = M.accountId ∧ w.raw M.accountId j.payload.contentHash ≠ none
  inTurn : ∀ j ∈ w.db.jobs, j.status = .running → ∀ x, M.Waits j x →
    ∀ p ∈ M.waiting w, p.2.content = x.2.content → p.1 ≤ x.1

structure Undisturbed (s t : World) : Prop where
  folders : t.db.folders = s.db.folders
  raw : t.raw = s.raw
  settled : M.settled t = M.settled s
  drained : M.Drained s → M.Drained t

structure Beside (s t : World) : Prop where
  kept : ∀ j ∈ s.db.jobs, j ∈ t.db.jobs
  added : ∀ j ∈ t.db.jobs, j ∈ s.db.jobs ∨ j.status = .pending
  shown : ¬ M.Drained s → t.db.shown M.folderId = s.db.shown M.folderId

/-- The server has this mailbox. What the worker needs does not fail and the tokens it draws are new; the clock has
passed the schedule of every job of the folder that waits when the next one comes. -/
def steady : (backend M.computeHash).Allowed
  | _, .select _, .ok mailbox => mailbox = M.mailbox
  | _, .uidFetch _ _ a b, .ok items => ∃ fault, items = answersFor (between M.mails a.val (b.val + 1)) fault
  | _, .getRaw _ _, c => c = none
  | _, .putAttachment _ _, c => c = none
  | s, .transact (.enqueueRaw _ _ _), .ok d =>
    ∀ j ∈ s.db.jobs, M.Open j → M.Reads j.payload.contentHash = true → j.scheduledAt ≤ d.now
  | s, .transact (.recordParsedMessage _ _), c => ∃ d, c = .ok d ∧ d.tokens.Fresh s.db
  | _, .transact (.complete _), c => ∃ d, c = .ok d
  | _, .transact (.fail _ _), c => ∃ d, c = .ok d
  | _, .transact (.failTerminal _ _), c => ∃ d, c = .ok d
  | _, _, _ => True

end Mirror

private theorem claimKey_id {j j' : Job} (h : claimKey j = claimKey j') : j.id = j'.id :=
  congrArg (fun k : Rank => OrderDual.ofDual (ofLex (ofLex k).2).2) h

section
variable {M : Mirror} {s t u : World}

namespace Mirror

theorem Undisturbed.refl (s : World) : M.Undisturbed s s := ⟨rfl, rfl, rfl, id⟩

theorem Undisturbed.trans (h : M.Undisturbed s t) (h' : M.Undisturbed t u) : M.Undisturbed s u :=
  ⟨h'.folders.trans h.folders, h'.raw.trans h.raw, h'.settled.trans h.settled, fun d => h'.drained (h.drained d)⟩

theorem Beside.refl (s : World) : M.Beside s s := ⟨fun _ h => h, fun _ h => .inl h, fun _ => rfl⟩

theorem Beside.trans (h : M.Beside s t) (h' : M.Beside t u) : M.Beside s u where
  kept := fun j hj => h'.kept j (h.kept j hj)
  added := fun j hj => by
    rcases h'.added j hj with old | new
    · exact h.added j old
    · exact .inr new
  shown := fun busy => (h'.shown fun drained => busy fun j hj => drained j (h.kept j hj)).trans (h.shown busy)

theorem waiting_finite (w : World) : (M.waiting w).Finite := by
  apply (w.db.jobs.rows.finite_toSet.image fun j => (claimKey j, j.payload.entry)).subset
  rintro x ⟨j, hj, -, -, rfl⟩
  exact ⟨j, hj, rfl⟩

theorem settled_of_drained (h : M.Drained s) : M.settled s = s.db.shown M.folderId :=
  Keyed.settled_of_none fun _ ⟨j, hj, live, _⟩ => h j hj live

/-- The jobs decide what waits. -/
private theorem waiting_congr (jobs : t.db.jobs = s.db.jobs) : M.waiting t = M.waiting s := by
  unfold waiting
  rw [jobs]

/-- Rows of the folders, attachments, the status and the history do not count. -/
theorem Orderly.aside (h : M.Orderly s) (messages : t.db.messages = s.db.messages)
    (locations : t.db.locations = s.db.locations)
    (jobs : t.db.jobs = s.db.jobs) (nextJobId : t.db.nextJobId = s.db.nextJobId) (raw : t.raw = s.raw)
    (known : t.db.Knows M.accountId M.folderId) : M.Orderly t where
  constrained := by
    obtain ⟨content, place, located, ids⟩ := h.constrained
    exact ⟨messages ▸ content, locations ▸ place, messages ▸ locations ▸ located, messages ▸ ids⟩
  known := known
  fresh := by
    rw [jobs, nextJobId]
    exact h.fresh
  blobs := raw ▸ h.blobs
  archived := raw ▸ h.archived
  queue := by
    rw [jobs, raw]
    exact h.queue
  inTurn := by
    rw [jobs, waiting_congr jobs]
    exact h.inTurn

/-- A claim or a report leaves what the job is to do. -/
structure SameTask (j j' : Job) : Prop where
  id : j'.id = j.id
  jobType : j'.jobType = j.jobType
  payload : j'.payload = j.payload
  priority : j'.priority = j.priority

section
variable {f : Job → Job} {j : Job}

private theorem shown_rewritten (w : Job.Rewritten f j s.db t.db) : t.db.shown M.folderId = s.db.shown M.folderId := by
  rw [w.rest]
  rfl

private theorem mem_waiting_rewritten (w : Job.Rewritten f j s.db t.db) {x : Rank × LocationEntry} :
    x ∈ M.waiting t ↔ M.Waits (f j) x ∨ x ∈ M.waiting s ∧ x.1 ≠ claimKey j := by
  constructor
  · rintro ⟨j', hj', waits⟩
    rcases (w.jobs j').mp hj' with rfl | ⟨old, ne⟩
    · exact .inl waits
    · refine .inr ⟨⟨j', old, waits⟩, fun he => ne (claimKey_id ?_)⟩
      rw [← he, waits.2.2]
  · rintro (waits | ⟨⟨j', hj', waits⟩, ne⟩)
    · exact ⟨f j, (w.jobs _).mpr (.inl rfl), waits⟩
    · refine ⟨j', (w.jobs _).mpr (.inr ⟨hj', fun same => ne ?_⟩), waits⟩
      rw [waits.2.2, Keyed.Table.eq_of_key hj' w.mem same]

/-- The one that waits with the rank of a job is that job. -/
private theorem waits_of_rank (hj : j ∈ s.db.jobs) {x : Rank × LocationEntry} (hx : x ∈ M.waiting s)
    (rank : x.1 = claimKey j) :
    M.Waits j x := by
  obtain ⟨j', hj', waits⟩ := hx
  have same : claimKey j' = claimKey j := by rw [← rank, waits.2.2]
  exact Keyed.Table.eq_of_key hj' hj (claimKey_id same) ▸ waits

theorem Orderly.rewritten (h : M.Orderly s) (w : Job.Rewritten f j s.db t.db)
    (raw : t.raw = s.raw) (same : SameTask j (f j))
    (live : j.status = .pending ∨ j.status = .running)
    (inTurn : ∀ j ∈ t.db.jobs, j.status = .running → ∀ x, M.Waits j x → ∀ p ∈ M.waiting t, p.2.content = x.2.content → p.1 ≤ x.1) :
    M.Orderly t where
  constrained := by
    rw [w.rest]
    exact ⟨h.constrained.content, h.constrained.place, h.constrained.located, h.constrained.ids⟩
  known := by
    rw [w.rest]
    exact ⟨h.known.account, h.known.folder⟩
  fresh := w.fresh same.id h.fresh
  blobs := raw ▸ h.blobs
  archived := raw ▸ h.archived
  queue := by
    intro j' hj' waits
    rw [raw]
    rcases (w.jobs j').mp hj' with rfl | ⟨old, -⟩
    · have queued := h.queue j w.mem ⟨same.payload ▸ waits.1, live⟩
      rw [same.jobType, same.priority, same.payload]
      exact queued
    · exact h.queue j' old waits
  inTurn := inTurn

/-- A claim takes the first of those that wait; what waits stays the same. -/
theorem claimed (h : M.Orderly s) (idle : M.Idle s) {now : DateTimeUtc}
    (w : Job.Rewritten (·.claimed now) j s.db t.db)
    (raw : t.raw = s.raw) (pending : j.status = .pending) (due : j.scheduledAt ≤ now)
    (first : ∀ j' ∈ s.db.jobs, j'.status = .pending → j'.scheduledAt ≤ now → claimKey j' ≤ claimKey j) :
    M.Orderly t ∧ M.Undisturbed s t := by
  have own : ∀ x, M.Waits (j.claimed now) x ↔ M.Waits j x := by
    intro x
    refine and_congr_left' (and_congr_right fun _ => ?_)
    exact iff_of_true (.inr rfl) (.inl pending)
  have waiting : M.waiting t = M.waiting s := by
    ext x
    rw [mem_waiting_rewritten w, own]
    constructor
    · rintro (waits | ⟨hx, -⟩)
      · exact ⟨j, w.mem, waits⟩
      · exact hx
    · intro hx
      by_cases rank : x.1 = claimKey j
      · exact .inl (waits_of_rank w.mem hx rank)
      · exact .inr ⟨hx, rank⟩
  refine ⟨h.rewritten w raw ⟨rfl, rfl, rfl, rfl⟩ (.inl pending) fun j' hj' running x waits p hp _ => ?_, ?_⟩
  · rcases (w.jobs j').mp hj' with rfl | ⟨old, -⟩
    · obtain ⟨live, -, rfl⟩ := (own x).mp waits
      obtain ⟨j'', hj'', live', -, rfl⟩ := waiting ▸ hp
      rcases live'.2 with pending' | running'
      · by_cases due' : j''.scheduledAt ≤ now
        · exact first j'' hj'' pending' due'
        · -- of the same priority, and scheduled later
          have same : j''.priority = j.priority :=
            (h.queue j'' hj'' live').2.1.trans (h.queue j w.mem live).2.1.symm
          refine Prod.Lex.toLex_le_toLex.mpr (.inr ⟨same, Prod.Lex.toLex_le_toLex.mpr (.inl ?_)⟩)
          exact OrderDual.toDual_lt_toDual.mpr (due.trans_lt (not_le.mp due'))
      · exact absurd running' (idle j'' hj'' live'.1)
    · exact absurd running (idle j' old waits.1.1)
  · refine ⟨by rw [w.rest], raw, ?_, fun drained j' hj' live => ?_⟩
    · rw [settled, settled, waiting, shown_rewritten w]
    · rcases (w.jobs j').mp hj' with rfl | ⟨old, -⟩
      · exact drained j w.mem ⟨live.1, .inl pending⟩
      · exact drained j' old live

/-- The entry of the job is in its place in the folder, if the job is one that places it. -/
def Recorded (M : Mirror) (s : World) (j : Job) : Prop :=
  M.Open j → M.Reads j.payload.contentHash = true →
    Keyed.write LocationEntry.content j.payload.entry (s.db.shown M.folderId) = s.db.shown M.folderId

/-- A report on a job whose entry is recorded, or that places none. -/
theorem reported (h : M.Orderly s) (w : Job.Rewritten f j s.db t.db) (raw : t.raw = s.raw) (same : SameTask j (f j))
    (running : j.status = .running) (ends : (f j).status ≠ .running) (recorded : M.Recorded s j)
    (again : M.Open (f j) → M.Reads j.payload.contentHash = false) : M.Orderly t ∧ M.Undisturbed s t := by
  have ended : ∀ x, ¬ M.Waits (f j) x := by
    rintro x ⟨live, readable, -⟩
    rw [same.payload, again live] at readable
    cases readable
  have waiting : ∀ x, x ∈ M.waiting t ↔ x ∈ M.waiting s ∧ x.1 ≠ claimKey j := by
    intro x
    rw [mem_waiting_rewritten w]
    exact or_iff_right (ended x)
  refine ⟨h.rewritten w raw same (.inr running) fun j' hj' running' x waits p hp content => ?_, by rw [w.rest], raw, ?_,
    fun drained j' hj' live => ?_⟩
  · rcases (w.jobs j').mp hj' with rfl | ⟨old, -⟩
    · exact absurd running' ends
    · exact h.inTurn j' old running' x waits p ((waiting p).mp hp).1 content
  · by_cases waits : M.Open j ∧ M.Reads j.payload.contentHash = true
    · have mine : (claimKey j, j.payload.entry) ∈ M.waiting s := ⟨j, w.mem, waits.1, waits.2, rfl⟩
      have only : ∀ q ∈ M.waiting s, q.1 = claimKey j → q = (claimKey j, j.payload.entry) :=
        fun q hq rank => (waits_of_rank w.mem hq rank).2.2
      have less : M.waiting t = M.waiting s \ {(claimKey j, j.payload.entry)} := by
        ext x
        rw [waiting x]
        refine and_congr_right fun hx => not_congr ⟨only x hx, fun he => congrArg Prod.fst he⟩
      have serve := Keyed.settled_serve (s.db.shown M.folderId) mine
        (fun q hq content => h.inTurn j w.mem running _ ⟨waits.1, waits.2, rfl⟩ q hq content) only
      rw [settled, settled, less, shown_rewritten w, ← serve, recorded waits.1 waits.2]
    · have same_waiting : M.waiting t = M.waiting s := by
        ext x
        rw [waiting x]
        refine and_iff_left_of_imp fun hx rank => waits ?_
        obtain ⟨live, readable, -⟩ := waits_of_rank w.mem hx rank
        exact ⟨live, readable⟩
      rw [settled, settled, same_waiting, shown_rewritten w]
  · rcases (w.jobs j').mp hj' with rfl | ⟨old, -⟩
    · exact drained j w.mem ⟨same.payload ▸ live.1, .inr running⟩
    · exact drained j' old live

end

/-- A recording puts the entry of its job in its place, and leaves the jobs and the rows of the folders as they are. -/
theorem recorded (h : M.Orderly s) {payload : ParseMessageJob} {parsed : ParsedMessage}
    {d : Draw} {r : RecordedMessage}
    {db : Database} (log : List Event) (fresh : d.tokens.Fresh s.db)
    (content : parsed.contentHash = payload.contentHash)
    (ok : Txn.body d (.recordParsedMessage payload parsed) s.db = .ok (r, db))
    (waits : payload.folderId = M.folderId → ∃ rank, (rank, payload.entry) ∈ M.waiting s) :
    M.Orderly { s with db := db, log := log } ∧ M.Undisturbed s { s with db := db, log := log } ∧
      db.jobs = s.db.jobs ∧
      (payload.folderId = M.folderId → db.shown M.folderId = Keyed.write LocationEntry.content payload.entry (s.db.shown M.folderId)) := by
  obtain ⟨mid, saved, archived, rest, -⟩ := recordParsedMessage_ok ok
  have jobs : db.jobs = s.db.jobs := by rw [rest]; exact archived.jobs
  have nextJobId : db.nextJobId = s.db.nextJobId := by rw [rest]; exact archived.nextJobId
  have accounts : db.accounts = s.db.accounts := by rw [rest]; exact archived.accounts
  have folders : db.folders = s.db.folders := by rw [rest]; exact archived.folders
  let call : RecordCall := ⟨d.tokens, payload.accountId, payload.folderId, payload.uid, payload.uidvalidity, payload.internalDate,
    payload.flags, parsed⟩
  have entry : call.entry = payload.entry := by rw [RecordCall.entry, ParseMessageJob.entry, content]
  have body : call.body s.db = .ok (r, db) := ok
  obtain ⟨constrained, shown⟩ := RecordCall.body_shown body h.constrained fresh.nonzero
  rw [entry] at shown
  have waiting : M.waiting { s with db := db, log := log } = M.waiting s := waiting_congr jobs
  refine ⟨⟨constrained, ⟨accounts ▸ h.known.account, folders ▸ h.known.folder⟩, ?_, h.blobs, h.archived, ?_, ?_⟩,
    ⟨folders, rfl, ?_, fun drained => ?_⟩, jobs, fun here => ?_⟩
  · change ∀ j ∈ db.jobs, j.id < db.nextJobId
    rw [jobs, nextJobId]
    exact h.fresh
  · change ∀ j ∈ db.jobs, _
    rw [jobs]
    exact h.queue
  · change ∀ j ∈ db.jobs, _
    rw [jobs, waiting]
    exact h.inTurn
  · change Keyed.settled _ (M.waiting _) (db.shown M.folderId) = _
    rw [waiting, shown]
    split
    · rename_i here
      obtain ⟨rank, hp⟩ := waits here
      exact Keyed.settled_write hp
    · rfl
  · change ∀ j ∈ db.jobs, _
    rw [jobs]
    exact drained
  · rw [shown, if_pos here]

def Lasting (M : Mirror) (V : World → Prop) : Prop := ∀ s t, V s → M.Undisturbed s t → V t

def workerContract (M : Mirror) (V : World → Prop) : Contract (backend M.computeHash) :=
  ⟨M.steady, fun s => M.Orderly s ∧ V s, M.Beside, M.Undisturbed⟩

variable {V : World → Prop} {job : Job}

theorem workerContract_stable : (M.workerContract V).Stable := ⟨.refl, .trans⟩

/-- The worker holds the job, and of the folder no other one is being worked on. -/
structure Holds (M : Mirror) (s : World) (job : Job) : Prop where
  mem : job ∈ s.db.jobs
  running : job.status = .running
  only : ∀ j ∈ s.db.jobs, j.payload.folderId = M.folderId → j.status = .running → j = job

theorem Idle.beside (h : M.Idle s) (beside : M.Beside s t) : M.Idle t := by
  intro j hj here
  rcases beside.added j hj with old | pending
  · exact h j old here
  · rw [pending]
    exact JobStatus.noConfusion

theorem Holds.beside (h : M.Holds s job) (beside : M.Beside s t) : M.Holds t job where
  mem := beside.kept job h.mem
  running := h.running
  only := fun j hj here running => by
    rcases beside.added j hj with old | pending
    · exact h.only j old here running
    · cases pending.symm.trans running

theorem Recorded.beside (h : M.Recorded s job) (holds : M.Holds s job) (beside : M.Beside s t) :
    M.Recorded t job := by
  intro live reads
  rw [beside.shown fun drained => drained job holds.mem live]
  exact h live reads

def WorkerReady (M : Mirror) (s : World) : BackendOp → Prop
  | .getRaw _ _ | .putAttachment _ _ => True
  | .transact .claimNext => M.Idle s
  | .transact (.recordParsedMessage payload parsed) => parsed.contentHash = payload.contentHash ∧
    (payload.folderId = M.folderId → ∃ rank, (rank, payload.entry) ∈ M.waiting s)
  | .transact (.complete job) | .transact (.failTerminal job _) => M.Holds s job ∧ M.Recorded s job
  | .transact (.fail job _) => M.Holds s job ∧ M.Recorded s job ∧
    (M.Open job → M.Reads job.payload.contentHash = false)
  | _ => False

/-- Nothing of the database and of the raw blobs changes. -/
theorem Orderly.same (h : M.Orderly s) (db : t.db = s.db) (raw : t.raw = s.raw) :
    M.Orderly t ∧ M.Undisturbed s t := by
  refine ⟨h.aside ?_ ?_ ?_ ?_ raw (db ▸ h.known), by rw [db], raw, ?_, fun drained => ?_⟩
  · rw [db]
  · rw [db]
  · rw [db]
  · rw [db]
  · rw [settled, settled, waiting, waiting, db]
  · rw [Drained, db]
    exact drained

private theorem worker_transact (h : M.Orderly s) {x : Txn} {c : Except DbErr Draw}
    (ready : M.WorkerReady s (.transact x))
    (ok : M.steady s (.transact x) c) : M.Orderly (s.transact x c).2 ∧ M.Undisturbed s (s.transact x c).2 := by
  rcases s.transact_cases x c with ⟨e, he⟩ | ⟨d, r, db, rfl, hbody, hok⟩
  · rw [he]
    exact ⟨h, .refl s⟩
  rw [hok]
  cases x with
  | claimNext =>
    rcases JobRepository.claimNext_ok hbody with ⟨-, rfl⟩ | ⟨j, pending, due, rfl, w⟩
    · exact h.same rfl rfl
    · apply claimed (t := { s with db := db, log := s.log }) h ready w rfl pending due
      intro j' hj' pending' due'
      change claimKey j' ≤ claimKey (j.claimed d.now)
      exact JobRepository.claimNext_first hbody hj' pending' due'
  | recordParsedMessage payload parsed =>
    obtain ⟨d', hd, fresh⟩ := ok
    cases hd
    obtain ⟨orderly, undisturbed, -⟩ := recorded h _ fresh ready.1 hbody ready.2
    exact ⟨orderly, undisturbed⟩
  | complete job =>
    obtain ⟨j, id, -, w⟩ := JobRepository.complete_ok hbody
    obtain rfl := Keyed.Table.eq_of_key w.mem ready.1.mem id
    exact reported (t := { s with db := db, log := s.log }) h w rfl
      ⟨rfl, rfl, rfl, rfl⟩ ready.1.running JobStatus.noConfusion ready.2
      fun live => by rcases live.2 with he | he <;> cases he
  | failTerminal job error =>
    obtain ⟨j, id, -, w⟩ := JobRepository.failTerminal_ok hbody
    obtain rfl := Keyed.Table.eq_of_key w.mem ready.1.mem id
    exact reported (t := { s with db := db, log := s.log }) h w rfl
      ⟨rfl, rfl, rfl, rfl⟩ ready.1.running JobStatus.noConfusion ready.2
      fun live => by rcases live.2 with he | he <;> cases he
  | fail job error =>
    obtain ⟨holds, recorded, unreadable⟩ := ready
    obtain ⟨j, id, -, w | ⟨-, w⟩⟩ := JobRepository.fail_ok hbody
    · obtain rfl := Keyed.Table.eq_of_key w.mem holds.mem id
      exact reported (t := { s with db := db, log := s.log }) h w rfl
        ⟨rfl, rfl, rfl, rfl⟩ holds.running JobStatus.noConfusion recorded
        fun live => unreadable ⟨live.1, .inr holds.running⟩
    · obtain rfl := Keyed.Table.eq_of_key w.mem holds.mem id
      exact reported (t := { s with db := db, log := s.log }) h w rfl
        ⟨rfl, rfl, rfl, rfl⟩ holds.running JobStatus.noConfusion recorded
        fun live => by rcases live.2 with he | he <;> cases he
  | enqueueRaw _ _ _ | recordSyncProgress _ _ _ _ | deleteLocationsForFolder _ => exact ready.elim

theorem worker_readied (lasting : M.Lasting V) : (M.workerContract V).Readied M.WorkerReady := by
  intro s o c ⟨orderly, v⟩ ready ok
  have whole : M.Orderly (backendExec M.computeHash o c s).2 ∧
      M.Undisturbed s (backendExec M.computeHash o c s).2 := by
    cases o with
    | transact x => exact worker_transact orderly ready ok
    | getRaw _ _ => cases c <;> exact ⟨orderly, .refl s⟩
    | putAttachment _ _ => exact orderly.same rfl rfl
    | connect | logout | select _ | uidFetch _ _ _ _ | idle | isCancelled | sleep _ | now | setStatus _ _ | putRaw _ _ | note _ =>
      exact ready.elim
  exact ⟨⟨whole.1, lasting _ _ v whole.2⟩, whole.2⟩

private theorem claimNext_worker (lasting : M.Lasting V) (idle : M.Idle s) :
    SafeAct (M.workerContract V) (fun found t => (found = none → M.Idle t) ∧ ∀ job, found = some job → M.Holds t job)
      (fun _ t => M.Idle t) (transact .claimNext) s := by
  refine SafeAct.ready (worker_readied lasting) (o := .transact .claimNext) (k := id)
    (fun s₁ _ hr => idle.beside hr)
    fun s₁ c _ hr _ t ht => ?_
  have idle₁ := idle.beside hr
  change M.Beside (s₁.transact .claimNext c).2 t at ht
  change (∀ found, (s₁.transact .claimNext c).1 = .ok found → _) ∧ ∀ e, (s₁.transact .claimNext c).1 = .error e → _
  rcases s₁.transact_cases .claimNext c with ⟨e, he⟩ | ⟨d, found, db, -, hbody, hok⟩
  · rw [he] at ht ⊢
    exact ⟨fun _ h => (by cases h), fun _ _ => idle₁.beside ht⟩
  rw [hok] at ht ⊢
  refine ⟨fun found' h => ?_, fun _ h => by cases h⟩
  cases h
  rcases JobRepository.claimNext_ok hbody with ⟨rfl, rfl⟩ | ⟨j, -, -, rfl, w⟩
  · exact ⟨fun _ => idle₁.beside ht, fun _ h => by cases h⟩
  · refine ⟨fun h => (by cases h), fun job h => ?_⟩
    cases h
    have holds : M.Holds { s₁ with db := db, log := s₁.log } (j.claimed d.now) := by
      refine ⟨(w.jobs _).mpr (.inl rfl), rfl, fun j' hj' here running => ?_⟩
      rcases (w.jobs j').mp hj' with rfl | ⟨old, -⟩
      · rfl
      · exact absurd running (idle₁ j' old here)
    exact holds.beside ht

private theorem getRaw_worker (lasting : M.Lasting V) (holds : M.Holds s job) :
    SafeAct (M.workerContract V)
      (fun bytes t => M.Holds t job ∧ (M.Open job → M.archive M.accountId job.payload.contentHash = some bytes))
      (fun _ t => M.Holds t job ∧ (M.Open job → M.Reads job.payload.contentHash = false))
      (getRaw job.payload.accountId job.payload.contentHash) s := by
  refine SafeAct.ready (worker_readied lasting) (o := .getRaw job.payload.accountId job.payload.contentHash) (k := id)
    (fun _ _ _ => trivial) fun s₁ c hv hr hc t ht => ?_
  obtain rfl : c = none := hc
  have holds₁ := holds.beside hr
  have holds₂ : M.Holds t job := holds₁.beside ht
  have stored (live : M.Open job) : job.payload.accountId = M.accountId ∧
      s₁.raw M.accountId job.payload.contentHash ≠ none :=
    (hv.1.queue job holds₁.mem live).2.2
  refine ⟨fun bytes h => ⟨holds₂, fun live => ?_⟩, fun e h => ⟨holds₂, fun live => ?_⟩⟩
  · obtain ⟨account, -⟩ := stored live
    cases hb : s₁.raw job.payload.accountId job.payload.contentHash with
    | none => simp [backendExec, hb] at h
    | some b =>
      obtain rfl : b = bytes := by simpa [backendExec, hb] using h
      exact hv.1.archived _ _ (account ▸ hb)
  · obtain ⟨account, there⟩ := stored live
    rw [← account] at there
    cases hb : s₁.raw job.payload.accountId job.payload.contentHash with
    | none => exact absurd hb there
    | some b => simp [backendExec, hb] at h

private theorem storeAttachments_worker (lasting : M.Lasting V) {accountId : AccountId} {err : Error → World → Prop}
    (atts : List ExtractedAttachment) (holds : M.Holds s job) :
    SafeAct (M.workerContract V) (fun _ t => M.Holds t job) err
      (ParseMessageHandler.storeAttachments accountId atts) s := by
  induction atts generalizing s with
  | nil => exact SafeAct.pure fun _ _ hr => holds.beside hr
  | cons att atts ih =>
    have put : SafeAct (M.workerContract V) (fun _ t => M.Holds t job) err
        (putAttachment accountId att.bytes) s := by
      refine SafeAct.ready (worker_readied lasting) (o := .putAttachment accountId att.bytes)
        (k := id) (fun _ _ _ => trivial)
        fun s₁ c _ hr hc t ht => ?_
      obtain rfl : c = none := hc
      have holds₁ : M.Holds { s₁ with attachments := (putBlob M.computeHash s₁.attachments accountId att.bytes none).2 } job :=
        ⟨(holds.beside hr).mem, holds.running, (holds.beside hr).only⟩
      exact ⟨fun _ _ => holds₁.beside ht, fun _ h => by cases h⟩
    apply SafeAct.seq workerContract_stable put
    intro _ t _ ht
    exact SafeAct.seq workerContract_stable (ih ht) fun _ u _ hu => SafeAct.pure fun _ _ hr => hu.beside hr

private theorem record_worker (lasting : M.Lasting V) {parsed : ParsedMessage} {err : Error → World → Prop}
    (holds : M.Holds s job)
    (content : parsed.contentHash = job.payload.contentHash)
    (reads : M.Open job → M.Reads job.payload.contentHash = true)
    (never : ∀ e t, M.Holds t job → ¬ M.Open job → err e t) :
    SafeAct (M.workerContract V) (fun _ t => M.Holds t job ∧ M.Recorded t job) err
      (transact (.recordParsedMessage job.payload parsed)) s := by
  have waits (s₁ : World) (holds : M.Holds s₁ job) (here : job.payload.folderId = M.folderId) :
      ∃ rank, (rank, job.payload.entry) ∈ M.waiting s₁ := by
    have live : M.Open job := ⟨here, .inr holds.running⟩
    exact ⟨claimKey job, job, holds.mem, live, reads live, rfl⟩
  refine SafeAct.ready (worker_readied lasting) (o := .transact (.recordParsedMessage job.payload parsed)) (k := id)
    (fun s₁ _ hr => ⟨content, waits s₁ (holds.beside hr)⟩) fun s₁ c hv hr hc t ht => ?_
  have holds₁ := holds.beside hr
  obtain ⟨d, rfl, fresh⟩ : ∃ d, c = .ok d ∧ d.tokens.Fresh s₁.db := hc
  change M.Beside (s₁.transact (.recordParsedMessage job.payload parsed) (.ok d)).2 t at ht
  change (∀ r, (s₁.transact (.recordParsedMessage job.payload parsed) (.ok d)).1 = .ok r → _) ∧
    ∀ e, (s₁.transact (.recordParsedMessage job.payload parsed) (.ok d)).1 = .error e → _
  rcases s₁.transact_cases (.recordParsedMessage job.payload parsed) (.ok d) with ⟨e, he⟩ |
    ⟨d', r, db, hd, hbody, hok⟩
  · rw [he] at ht ⊢
    refine ⟨fun _ h => (by cases h), fun e' _ => never e' t (holds₁.beside ht) fun live => ?_⟩
    -- its account and its folder are there, so it goes through
    have known : s₁.db.Knows job.payload.accountId job.payload.folderId := by
      rw [(hv.1.queue job holds₁.mem live).2.2.1, live.1]
      exact hv.1.known
    obtain ⟨r, db, through⟩ := recordParsedMessage_total job.payload.uid job.payload.uidvalidity job.payload.internalDate
      job.payload.flags parsed fresh known hv.1.constrained.ids
    simp only [World.transact, Txn.body, through] at he
    cases he
  · cases hd
    obtain ⟨-, -, jobs, shown⟩ := recorded hv.1 s₁.log fresh content hbody (waits s₁ holds₁)
    rw [hok] at ht ⊢
    refine ⟨fun _ _ => ?_, fun _ h => by cases h⟩
    have holds₂ : M.Holds { s₁ with db := db, log := ((Txn.recordParsedMessage job.payload parsed).event? r).toList ++ s₁.log } job :=
      ⟨jobs ▸ holds₁.mem, holds₁.running, jobs ▸ holds₁.only⟩
    refine ⟨holds₂.beside ht, Recorded.beside (fun live _ => ?_) holds₂ ht⟩
    change Keyed.write _ _ (db.shown M.folderId) = db.shown M.folderId
    rw [shown live.1, Keyed.write_again]

/-- The handler places the entry of its job, unless the blob does not parse. -/
private theorem handle_worker (lasting : M.Lasting V) (holds : M.Holds s job) :
    SafeAct (M.workerContract V) (fun _ t => M.Holds t job ∧ M.Recorded t job)
      (fun _ t => M.Holds t job ∧ (M.Open job → M.Reads job.payload.contentHash = false))
      (ParseMessageHandler.handle M.parseEml job.payload) s := by
  refine SafeAct.seq workerContract_stable (getRaw_worker lasting holds) fun bytes t _ ⟨holds, archived⟩ => ?_
  have reads (live : M.Open job) : M.Reads job.payload.contentHash =
      (M.parseEml job.payload.contentHash bytes).isOk := by
    rw [Reads, archived live, Option.any_some]
  have parse : SafeAct (M.workerContract V)
      (fun parsed t => M.Holds t job ∧ M.parseEml job.payload.contentHash bytes = .ok parsed)
      (fun _ t => M.Holds t job ∧ (M.Open job → M.Reads job.payload.contentHash = false))
      (liftResult (M.parseEml job.payload.contentHash bytes)) t :=
    SafeAct.liftResult (fun _ hp _ _ hr => ⟨holds.beside hr, hp⟩)
      fun _ he _ _ hr => ⟨holds.beside hr, fun live => by rw [reads live, he]; rfl⟩
  refine SafeAct.seq workerContract_stable parse fun parsed t _ ⟨holds, hp⟩ => ?_
  apply SafeAct.seq workerContract_stable (storeAttachments_worker lasting parsed.attachments holds)
  intro attachments u _ holds
  have parses (live : M.Open job) : M.Reads job.payload.contentHash = true := by
    rw [reads live, hp]
    rfl
  refine SafeAct.seq workerContract_stable (record_worker lasting holds rfl parses fun _ _ holds never => ⟨holds, fun live => absurd live never⟩)
    fun _ v _ ⟨holds, done⟩ => SafeAct.pure fun _ _ hr => ⟨holds.beside hr, done.beside holds hr⟩

private theorem dispatch_worker (lasting : M.Lasting V) (valid : M.Orderly s) (holds : M.Holds s job) :
    SafeAct (M.workerContract V) (fun _ t => M.Holds t job ∧ M.Recorded t job)
      (fun _ t => M.Holds t job ∧ (M.Open job → M.Reads job.payload.contentHash = false))
        (dispatch M.parseEml job) s := by
  unfold dispatch
  split
  · exact handle_worker lasting holds
  · rename_i other
    exact SafeAct.throw fun _ _ hr => ⟨holds.beside hr, fun live => absurd (valid.queue job holds.mem live).1 other⟩

/-- A report goes through, and no job of the folder is being worked on any more. -/
private theorem report_worker (lasting : M.Lasting V) {x : Txn} {err : Error → World → Prop}
    (ready : ∀ t, M.Beside s t → M.WorkerReady t (.transact x))
    (faultless : ∀ t c, M.steady t (.transact x) c → ∃ d, c = .ok d)
    (total : ∀ d db, job ∈ db.jobs → ∃ r db', x.body d db = .ok (r, db'))
    (ends : ∀ d r db db', x.body d db = .ok (r, db') → ∃ f j, j.id = job.id ∧ (f j).status ≠ .running ∧ Job.Rewritten f j db db')
    (holds : M.Holds s job) : SafeAct (M.workerContract V) (fun _ t => M.Idle t) err (transact x) s := by
  apply SafeAct.ready (worker_readied lasting) (o := .transact x) (k := id) (fun s₁ _ hr => ready s₁ hr)
  intro s₁ c _ hr hc t ht
  have holds₁ := holds.beside hr
  obtain ⟨d, rfl⟩ := faultless s₁ c hc
  obtain ⟨r, db, hbody⟩ := total d s₁.db holds₁.mem
  obtain ⟨f, j, id, ended, w⟩ := ends d r s₁.db db hbody
  have through : s₁.transact x (.ok d) = (.ok r, { s₁ with db := db, log := (x.event? r).toList ++ s₁.log }) := by
    simp only [World.transact, hbody]
  change M.Beside (s₁.transact x (.ok d)).2 t at ht
  change (∀ r, (s₁.transact x (.ok d)).1 = .ok r → _) ∧ ∀ e, (s₁.transact x (.ok d)).1 = .error e → _
  rw [through] at ht ⊢
  refine ⟨fun _ _ => Idle.beside (fun j' hj' here running => ?_) ht, fun _ h => by cases h⟩
  rcases (w.jobs j').mp hj' with rfl | ⟨old, differs⟩
  · exact ended running
  · exact differs (holds₁.only j' old here running ▸ id.symm)

private theorem reportOf_worker (lasting : M.Lasting V) {outcome : Except Error Unit}
    {err : Error → World → Prop} (holds : M.Holds s job)
    (done : ∀ u, outcome = .ok u → M.Recorded s job)
    (unreadable : ∀ e, outcome = .error e → M.Open job → M.Reads job.payload.contentHash = false) :
    SafeAct (M.workerContract V) (fun _ t => M.Idle t) err ((Report.of outcome).send job) s := by
  cases outcome with
  | ok u =>
    refine report_worker (x := .complete job) lasting (fun t ht => ⟨holds.beside ht, (done u rfl).beside holds ht⟩) (fun _ _ h => h)
      (fun _ db hj => ?_) (fun d r db db' h => ?_) holds
    · obtain ⟨db', h⟩ := JobRepository.finish_of_mem hj
      exact ⟨_, db', h⟩
    · obtain ⟨j, id, -, w⟩ := JobRepository.complete_ok h
      exact ⟨_, j, id, JobStatus.noConfusion, w⟩
  | error e =>
    have unread := unreadable e rfl
    have never : M.Recorded s job := fun live reads => by cases (unread live).symm.trans reads
    have reported : Report.of (.error e) = if e.isTransient then .fail e.text else .failTerminal e.text := rfl
    rw [reported]
    split
    · refine report_worker (x := .fail job e.text) lasting
        (fun t ht => ⟨holds.beside ht, never.beside holds ht, unread⟩)
        (fun _ _ h => h) (fun d db hj => ?_) (fun d r db db' h => ?_) holds
      · change ∃ r db', JobRepository.fail d.now job e.text db = .ok (r, db')
        unfold JobRepository.fail
        split
        · obtain ⟨db', h⟩ := JobRepository.finish_of_mem hj
          exact ⟨_, db', h⟩
        · obtain ⟨db', h⟩ := JobRepository.finish_of_mem hj
          exact ⟨_, db', h⟩
      · obtain ⟨j, id, -, w | ⟨-, w⟩⟩ := JobRepository.fail_ok h
        · exact ⟨_, j, id, JobStatus.noConfusion, w⟩
        · exact ⟨_, j, id, JobStatus.noConfusion, w⟩
    · refine report_worker (x := .failTerminal job e.text) lasting
        (fun t ht => ⟨holds.beside ht, never.beside holds ht⟩)
        (fun _ _ h => h) (fun _ db hj => ?_) (fun d r db db' h => ?_) holds
      · obtain ⟨db', h⟩ := JobRepository.finish_of_mem hj
        exact ⟨_, db', h⟩
      · obtain ⟨j, id, -, w⟩ := JobRepository.failTerminal_ok h
        exact ⟨_, j, id, JobStatus.noConfusion, w⟩

private theorem workOnce_worker (lasting : M.Lasting V) (idle : M.Idle s) :
    SafeAct (M.workerContract V) (fun _ t => M.Idle t) (fun _ t => M.Idle t) (workOnce M.parseEml) s := by
  refine SafeAct.seq workerContract_stable (claimNext_worker lasting idle) fun found t ht ⟨empty, took⟩ => ?_
  cases found with
  | none => exact SafeAct.pure fun _ _ hr => (empty rfl).beside hr
  | some job =>
    refine SafeAct.seq workerContract_stable (SafeAct.attempt workerContract_stable (dispatch_worker lasting ht.1 (took job rfl)))
      fun outcome u _ ⟨done, unreadable⟩ => ?_
    have holds : M.Holds u job := by
      cases outcome with
      | ok a => exact (done a rfl).1
      | error e => exact (unreadable e rfl).1
    exact SafeAct.seq workerContract_stable
      (reportOf_worker lasting holds (fun a ha => (done a ha).2) fun e he => (unreadable e he).2)
      fun _ _ _ idle => SafeAct.pure fun _ _ hr => idle.beside hr

/-- However many turns the worker takes. -/
theorem work_worker (lasting : M.Lasting V) (idle : M.Idle s) (turns : Nat) :
    Harmless (M.workerContract V) (work M.parseEml turns) s := by
  induction turns generalizing s with
  | zero => exact Harmless.pure
  | succ turns ih =>
    refine SafeAct.seq workerContract_stable (SafeAct.attempt workerContract_stable (workOnce_worker lasting idle))
      fun outcome t _ ⟨ok, error⟩ => ?_
    cases outcome with
    | ok a => exact ih (ok a rfl)
    | error e => exact ih (error e rfl)

end Mirror
end
end MailKeep
